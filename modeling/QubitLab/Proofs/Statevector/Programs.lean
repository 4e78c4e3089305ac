import QubitLab.Statevector.Kernel

/-!
# What programs over a buffer do

A program is run by going down its tree, so whatever holds of every run is proved by induction
on the tree, with one case for a place that is read and one for a place that is written. One
program after another is run, and accesses, in the same order. What a loop does is a fold over
what its body does, and when the accesses of the body do not depend on the amplitudes, those
of the loop are joined from them.

Programs without an access outside of the buffer are run in the same way with and without the
checks, and this is what it means for an update that no index is out of bounds.

## Theorems

* `run_bind`, `accesses_bind`: One program after another.
* `size_after`: No program changes the number of amplitudes.
* `after_forM_range`, `accesses_forM`: Loops.
* `run_getAll`, `accesses_getAll`: Several places that are read.
* `checked_eq_some`: Nothing is out of bounds when the accesses are not.
-/

namespace QubitLab

namespace Kernel

variable {K α β ι : Type} [Zero K]

section Sequences

/-- The second program starts from the answer of the first one and from the buffer that it left. -/
theorem run_bind (p : Kernel K α) (f : α → Kernel K β) (s : Buffer K) :
    (p >>= f).run s = (f (p.run s).1).run (p.run s).2 := by
  induction p generalizing s with
  | done answer => rfl
  | read i next ih => exact ih (s.amplitude i) s
  | write i value next ih => exact ih (s.setIfInBounds i value)

/-- The second program accesses what it accesses behind the first one. -/
theorem accesses_bind (p : Kernel K α) (f : α → Kernel K β) (s : Buffer K) :
    (p >>= f).accesses s = p.accesses s ++ (f (p.run s).1).accesses (p.run s).2 := by
  induction p generalizing s with
  | done answer => rfl
  | read i next ih => exact congrArg (Access.read i :: ·) (ih (s.amplitude i) s)
  | write i value next ih =>
      exact congrArg (Access.write i :: ·) (ih (s.setIfInBounds i value))

/-- A program writes over amplitudes, and neither adds nor removes any. -/
theorem size_after (p : Kernel K α) (s : Buffer K) : (p.after s).size = s.size := by
  induction p generalizing s with
  | done answer => rfl
  | read i next ih => exact ih (s.amplitude i) s
  | write i value next ih =>
      exact (ih (s.setIfInBounds i value)).trans Array.size_setIfInBounds

end Sequences

section Loops

/-- A loop makes its body on what the body before it has left. -/
theorem after_forM_cons (k : ι) (rest : List ι) (body : ι → Kernel K Unit) (s : Buffer K) :
    ((k :: rest).forM body).after s = (rest.forM body).after ((body k).after s) := by
  change ((body k >>= fun _ => rest.forM body).run s).2 = _
  rw [run_bind]
  rfl

/-- A loop is a fold over what its body makes of the buffer. -/
theorem after_forM (l : List ι) (body : ι → Kernel K Unit) (s : Buffer K) :
    (l.forM body).after s = l.foldl (fun s k => (body k).after s) s := by
  induction l generalizing s with
  | nil => rfl
  | cons k rest ih => rw [after_forM_cons, ih, List.foldl_cons]

/-- A loop that counts. -/
theorem after_forM_range (count : Nat) (body : Nat → Kernel K Unit) (s : Buffer K) :
    ((List.range count).forM body).after s
      = Nat.fold count (fun k _ s => (body k).after s) s := by
  rw [after_forM]
  induction count with
  | zero => rfl
  | succ count ih => rw [List.range_succ, List.foldl_append, ih, Nat.fold_succ]; rfl

/-- When the body accesses the same places in every buffer, the loop accesses them for one item
    after the other. -/
theorem accesses_forM {body : ι → Kernel K Unit} {trace : ι → List Access}
    (hbody : ∀ k s, (body k).accesses s = trace k) (l : List ι) (s : Buffer K) :
    (l.forM body).accesses s = l.flatMap trace := by
  induction l generalizing s with
  | nil => rfl
  | cons k rest ih =>
      rw [List.flatMap_cons, ← hbody k s, ← ih ((body k).after s)]
      exact accesses_bind (body k) (fun _ => rest.forM body) s

end Loops

section Reading

/-- Several places are read, and the buffer is left as it is. -/
theorem run_getAll (l : List Nat) (s : Buffer K) :
    (getAll l).run s = (l.map s.amplitude, s) := by
  induction l with
  | nil => rfl
  | cons i rest ih =>
      change ((getAll rest >>= fun values => done (s.amplitude i :: values)).run s) = _
      rw [run_bind, ih]
      rfl

/-- The places are read in the order in which they are listed. -/
theorem accesses_getAll (l : List Nat) (s : Buffer K) :
    (getAll l).accesses s = l.map .read := by
  induction l with
  | nil => rfl
  | cons i rest ih =>
      change .read i :: (getAll rest >>= fun values => done (s.amplitude i :: values)).accesses s
        = _
      rw [accesses_bind, ih, run_getAll]
      exact congrArg (Access.read i :: ·) (List.append_nil _)

end Reading

/-- A program without an access outside of the buffer passes all the checks, and the checked
    run is the other one. -/
theorem checked_eq_some {p : Kernel K α} {s : Buffer K}
    (h : ∀ a ∈ p.accesses s, a.index < s.size) : p.checked s = some (p.run s) := by
  -- At each access the check is passed, and the two runs go on with the same value in the same
  -- buffer.
  induction p generalizing s with
  | done answer => rfl
  | read i next ih =>
      have hi : i < s.size := h (.read i) List.mem_cons_self
      have hvalue : s.amplitude i = s[i] := by
        rw [Buffer.amplitude, Array.getD_eq_getD_getElem?, Array.getElem?_eq_getElem hi,
          Option.getD_some]
      have hrest : ∀ a ∈ (next s[i]).accesses s, a.index < s.size := by
        rw [← hvalue]
        exact fun a ha => h a (List.mem_cons_of_mem _ ha)
      rw [checked, dif_pos hi, run, hvalue]
      exact ih s[i] hrest
  | write i value next ih =>
      have hi : i < s.size := h (.write i) List.mem_cons_self
      have hset : s.setIfInBounds i value = s.set i value hi := by
        rw [Array.setIfInBounds, dif_pos hi]
      have hrest : ∀ a ∈ next.accesses (s.setIfInBounds i value),
          a.index < (s.setIfInBounds i value).size := by
        rw [Array.size_setIfInBounds]
        exact fun a ha => h a (List.mem_cons_of_mem _ ha)
      rw [checked, dif_pos hi, run, ← hset]
      exact ih hrest

end Kernel

end QubitLab
