import Mathlib.Algebra.BigOperators.Group.List.Basic
import QubitLab.Proofs.Circuit.Renamed
import QubitLab.Proofs.Rewrite.Adjacent
import QubitLab.Rewrite.Fuse

/-!
# The meaning of a list of gates

What the rewriter may rely on, and nothing else. A reading gives every gate a value
in a monoid, and a list of gates the product of the values in order. It has to obey
the three rules that the rewriter works by: gates that share no qubit commute, a
gate and the inverse one on the same qubits multiply to one, and two rotations on
the same qubits multiply to the rotation by the sum of their angles. The rules are
asked for on gates that fit into the register, since a circuit is checked before it
is rewritten.

Two lists mean the same when no reading tells them apart. This is stronger than
equality of unitary matrices, which is the case of one reading: it says that the
rewriter is right for every semantics in which its rules hold, and so does not
depend on the simulator.

Renaming qubits carries readings along. A reading of the renamed gates is a reading
of the gates, by `Reading.comap`, so lists that mean the same still do so after
renaming. This is what joins rounds that rename the qubits in between.

## Main definitions

* `Rewrite.Reading`: Values for gates that obey the rules.
* `Rewrite.Reading.list`: The value of a list of gates.
* `Rewrite.SameMeaning`: No reading tells two lists apart.

## Theorems

* `Reorders.sameMeaning`: Exchanging neighbours keeps the meaning.
* `sameMeaning_cancel`: Taking out two gates that undo each other keeps it.
* `sameMeaning_fuse`: Putting the sum in the place of two rotations keeps it.
* `SameMeaning.mapQubits`: Renaming the qubits of both lists keeps it.
-/

namespace QubitLab

namespace Rewrite

universe u

variable {R : Type} [Scalar R] {n : Nat}

/-- Values in a monoid for the gates of a register of `n` qubits, which obey the
    rules of the rewriter. -/
structure Reading (R : Type) [Scalar R] (n : Nat) (M : Type u) [Monoid M] where
  /-- The value of a gate. -/
  value : Gate R → M
  /-- Gates that share no qubit commute. -/
  commute : ∀ g h : Gate R, g.Fits n → h.Fits n → g.overlaps h = false →
    value g * value h = value h * value g
  /-- Gates on the same qubits whose kinds undo each other multiply to one. -/
  cancel : ∀ g h : Gate R, g.Fits n → h.Fits n → g.qubits = h.qubits →
    g.kind.cancels h.kind = true → value g * value h = 1
  /-- Gates of one angle on the same qubits whose kinds add up multiply to the gate
      of the sum. -/
  fuse : ∀ (g h f : Gate R) (kind : GateKind) (a b : R), g.Fits n → h.Fits n →
    g.qubits = h.qubits → g.kind.fused? h.kind = some kind → g.params = [a] →
    h.params = [b] → Gate.builtin kind g.qubits [a + b] = .ok f →
    value g * value h = value f

/-- The value of a list of gates: the product in order. -/
def Reading.list {M : Type u} [Monoid M] (I : Reading R n M) (gates : List (Gate R)) : M :=
  (gates.map I.value).prod

/-- No reading over a register of `n` qubits tells the two lists apart. -/
def SameMeaning (n : Nat) (a b : List (Gate R)) : Prop :=
  ∀ (M : Type u) [Monoid M] (I : Reading R n M), I.list a = I.list b

section Rules

variable {M : Type u} [Monoid M]

theorem Reading.list_cons (I : Reading R n M) (g : Gate R) (gates : List (Gate R)) :
    I.list (g :: gates) = I.value g * I.list gates := by
  rw [Reading.list, List.map_cons, List.prod_cons, Reading.list]

theorem Reading.list_append (I : Reading R n M) (a b : List (Gate R)) :
    I.list (a ++ b) = I.list a * I.list b := by
  rw [Reading.list, List.map_append, List.prod_append, Reading.list, Reading.list]

/-- A gate commutes with a list of gates that it shares no qubit with. -/
theorem Reading.commute_list (I : Reading R n M) {g : Gate R} {middle : List (Gate R)}
    (hg : g.Fits n) (hm : ∀ f ∈ middle, f.Fits n)
    (hd : ∀ f ∈ middle, g.overlaps f = false) :
    I.value g * I.list middle = I.list middle * I.value g := by
  refine Commute.list_prod_right _ _ fun x hx => ?_
  rcases List.mem_map.mp hx with ⟨f, hf, rfl⟩
  exact I.commute g f hg (hm f hf) (hd f hf)

end Rules

theorem SameMeaning.refl (a : List (Gate R)) : SameMeaning.{u} n a a :=
  fun _ _ _ => rfl

theorem SameMeaning.trans {a b c : List (Gate R)} (hab : SameMeaning.{u} n a b)
    (hbc : SameMeaning.{u} n b c) : SameMeaning.{u} n a c :=
  fun M _ I => (hab M I).trans (hbc M I)

/-- Exchanging neighbours keeps the meaning. -/
theorem Reorders.sameMeaning {a b : List (Gate R)} (h : Reorders a b)
    (ha : ∀ g ∈ a, g.Fits n) : SameMeaning.{u} n a b := by
  induction h with
  | refl a => exact SameMeaning.refl a
  | swap before g h after hd =>
      intro M _ I
      have hpair := I.commute g h (ha g (by simp)) (ha h (by simp)) hd
      rw [I.list_append, I.list_append, I.list_cons, I.list_cons, I.list_cons, I.list_cons,
        ← mul_assoc (I.value g), hpair, mul_assoc (I.value h)]
  | trans hab _ ih1 ih2 =>
      exact (ih1 ha).trans (ih2 fun g hg => ha g (hab.perm.mem_iff.mpr hg))

/-- Two gates that undo each other are taken out across gates that share no qubit
    with them. -/
theorem sameMeaning_cancel {before middle after : List (Gate R)} {g h : Gate R}
    (hfit : ∀ f ∈ before ++ g :: (middle ++ h :: after), f.Fits n)
    (hd : ∀ f ∈ middle, g.overlaps f = false) (hq : g.qubits = h.qubits)
    (hc : g.kind.cancels h.kind = true) :
    SameMeaning.{u} n (before ++ g :: (middle ++ h :: after)) (before ++ (middle ++ after)) := by
  intro M _ I
  have hg : g.Fits n := hfit g (by simp)
  have hh : h.Fits n := hfit h (by simp)
  have hm : ∀ f ∈ middle, f.Fits n := fun f hf => hfit f (by simp [hf])
  have hmove := I.commute_list hg hm hd
  have hone := I.cancel g h hg hh hq hc
  have hinner : I.list (g :: (middle ++ h :: after)) = I.list (middle ++ after) := by
    calc I.list (g :: (middle ++ h :: after))
        = (I.value g * I.list middle) * (I.value h * I.list after) := by
          rw [I.list_cons, I.list_append, I.list_cons, mul_assoc]
      _ = I.list middle * (I.value g * I.value h) * I.list after := by
          rw [hmove, mul_assoc, mul_assoc, mul_assoc]
      _ = I.list (middle ++ after) := by rw [hone, mul_one, I.list_append]
  rw [I.list_append, I.list_append, hinner]

/-- Two rotations become one, across gates that share no qubit with them. -/
theorem sameMeaning_fuse {before middle after : List (Gate R)} {g h f : Gate R}
    {kind : GateKind} {a b : R}
    (hfit : ∀ f ∈ before ++ g :: (middle ++ h :: after), f.Fits n)
    (hd : ∀ f ∈ middle, g.overlaps f = false) (hq : g.qubits = h.qubits)
    (hk : g.kind.fused? h.kind = some kind) (ha : g.params = [a]) (hb : h.params = [b])
    (hf : Gate.builtin kind g.qubits [a + b] = .ok f) :
    SameMeaning.{u} n (before ++ g :: (middle ++ h :: after))
      (before ++ f :: (middle ++ after)) := by
  intro M _ I
  have hg : g.Fits n := hfit g (by simp)
  have hh : h.Fits n := hfit h (by simp)
  have hm : ∀ f ∈ middle, f.Fits n := fun f hf => hfit f (by simp [hf])
  have hfg : f.qubits = g.qubits := by
    rcases (Gate.builtin_eq_ok _ _ _ _).mp hf with ⟨-, -, -, rfl⟩
    rfl
  have hmove := I.commute_list hg hm hd
  -- The sum acts on the same qubits, so it moves over the same gates.
  have hmove' := I.commute_list (Gate.fits_builtin hg.1 hf) hm fun e he => by
    rw [Gate.overlaps_congr hfg]
    exact hd e he
  have hsum := I.fuse g h f kind a b hg hh hq hk ha hb hf
  have hinner : I.list (g :: (middle ++ h :: after)) = I.list (f :: (middle ++ after)) := by
    calc I.list (g :: (middle ++ h :: after))
        = (I.value g * I.list middle) * (I.value h * I.list after) := by
          rw [I.list_cons, I.list_append, I.list_cons, mul_assoc]
      _ = I.list middle * (I.value g * I.value h) * I.list after := by
          rw [hmove, mul_assoc, mul_assoc, mul_assoc]
      _ = (I.value f * I.list middle) * I.list after := by rw [hsum, hmove']
      _ = I.list (f :: (middle ++ after)) := by rw [I.list_cons, I.list_append, mul_assoc]
  rw [I.list_append, I.list_append, hinner]

section Renaming

/-- A constructor makes the renamed gate of renamed qubits. -/
theorem builtin_mapQubits {f : Nat → Nat} (hf : Gate.Renaming n f) {kind : GateKind}
    {qubits : List Nat} {params : List R} {g : Gate R} (hr : ∀ q ∈ qubits, q < n)
    (h : Gate.builtin kind qubits params = .ok g) :
    Gate.builtin kind (qubits.map f) params = .ok (g.mapQubits f) := by
  rcases (Gate.builtin_eq_ok _ _ _ _).mp h with ⟨ha, hp, hd, rfl⟩
  refine (Gate.builtin_eq_ok _ _ _ _).mpr ⟨?_, hp, Gate.nodup_map_of_renaming hf hr hd, rfl⟩
  rw [List.length_map]
  exact ha

/-- The reading that gives a gate the value of the renamed gate. -/
def Reading.comap {M : Type u} [Monoid M] (I : Reading R n M) {f : Nat → Nat}
    (hf : Gate.Renaming n f) : Reading R n M where
  value g := I.value (g.mapQubits f)
  commute _ _ hg hh hd :=
    I.commute _ _ (Gate.fits_mapQubits hf hg) (Gate.fits_mapQubits hf hh)
      ((Gate.overlaps_mapQubits hf hg.1 hh.1).trans hd)
  cancel _ _ hg hh hq hc :=
    I.cancel _ _ (Gate.fits_mapQubits hf hg) (Gate.fits_mapQubits hf hh)
      (congrArg (List.map f) hq) hc
  fuse _ _ _ kind a b hg hh hq hk ha hb he :=
    I.fuse _ _ _ kind a b (Gate.fits_mapQubits hf hg) (Gate.fits_mapQubits hf hh)
      (congrArg (List.map f) hq) hk ha hb (builtin_mapQubits hf hg.1 he)

/-- Renaming the qubits of both lists keeps the meaning. -/
theorem SameMeaning.mapQubits {a b : List (Gate R)} (h : SameMeaning.{u} n a b)
    {f : Nat → Nat} (hf : Gate.Renaming n f) :
    SameMeaning.{u} n (a.map (Gate.mapQubits f)) (b.map (Gate.mapQubits f)) := by
  intro M _ I
  have hcomap := h M (I.comap hf)
  rw [Reading.list, Reading.list] at hcomap ⊢
  rw [List.map_map, List.map_map]
  exact hcomap

end Renaming

end Rewrite

end QubitLab
