/-!
# Checks that pass

A check is a computation in `Except` that answers with nothing of interest, and
most definitions of the library are checks one after the other. The lemmas here
say when a sequence of checks passes, and what a check over a list amounts to.

## Theorems

* `bind_eq_ok`, `check_bind_eq_ok`: A sequence passes when both parts do.
* `forM_eq_ok`: A check of every item of a list.
* `mapM_eq_ok`: A partial function along a list.
-/

namespace QubitLab

namespace Checks

variable {ε α β : Type}

theorem bind_eq_ok (x : Except ε α) (f : α → Except ε β) (b : β) :
    (x >>= f) = .ok b ↔ ∃ a, x = .ok a ∧ f a = .ok b := by
  rcases x with e | a
  · constructor
    · intro h
      injection h
    · rintro ⟨a, h, -⟩
      injection h
  · constructor
    · intro h
      exact ⟨a, rfl, h⟩
    · rintro ⟨a', h, hf⟩
      injection h with h
      subst h
      exact hf

/-- A check in front of something passes or fails without an answer to hand on. -/
theorem check_bind_eq_ok (x : Except ε Unit) (f : Unit → Except ε β) (b : β) :
    (x >>= f) = .ok b ↔ x = .ok () ∧ f () = .ok b := by
  rw [bind_eq_ok]
  exact ⟨fun ⟨_, h⟩ => h, fun h => ⟨(), h⟩⟩

theorem pure_eq_ok (a b : α) : (pure a : Except ε α) = .ok b ↔ a = b := by
  change (Except.ok a : Except ε α) = .ok b ↔ _
  rw [Except.ok.injEq]

theorem forM_eq_ok (f : α → Except ε Unit) (l : List α) :
    l.forM f = .ok () ↔ ∀ x ∈ l, f x = .ok () := by
  induction l with
  | nil =>
      constructor
      · intro _ x hx
        exact absurd hx List.not_mem_nil
      · intro _
        rfl
  | cons x rest ih =>
      have hcons : (x :: rest).forM f = (f x >>= fun _ => rest.forM f) := rfl
      rw [hcons, check_bind_eq_ok]
      constructor
      · rintro ⟨hx, hrest⟩ y hy
        rcases List.mem_cons.mp hy with rfl | hy
        · exact hx
        · exact ih.mp hrest y hy
      · intro h
        exact ⟨h x List.mem_cons_self, ih.mpr fun y hy => h y (List.mem_cons_of_mem x hy)⟩

/-- A partial function along a list, given where it is defined and what it is there. -/
theorem mapM_eq_ok {f : α → Except ε β} {P : α → Prop} {g : α → β}
    (hf : ∀ x b, f x = .ok b ↔ P x ∧ b = g x) (l : List α) (bs : List β) :
    l.mapM f = .ok bs ↔ (∀ x ∈ l, P x) ∧ bs = l.map g := by
  induction l generalizing bs with
  | nil =>
      rw [List.mapM_nil, pure_eq_ok, eq_comm]
      exact ⟨fun h => ⟨List.forall_mem_nil P, h⟩, fun h => h.2⟩
  | cons x rest ih =>
      simp only [List.mapM_cons, bind_eq_ok, hf, ih, pure_eq_ok]
      constructor
      · rintro ⟨_, ⟨hx, rfl⟩, _, ⟨hrest, rfl⟩, rfl⟩
        exact ⟨List.forall_mem_cons.mpr ⟨hx, hrest⟩, rfl⟩
      · rintro ⟨h, rfl⟩
        rcases List.forall_mem_cons.mp h with ⟨hx, hrest⟩
        exact ⟨_, ⟨hx, rfl⟩, _, ⟨hrest, rfl⟩, rfl⟩

end Checks

end QubitLab
