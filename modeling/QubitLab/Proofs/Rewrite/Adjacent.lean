import QubitLab.Proofs.Rewrite.Reordering
import QubitLab.Rewrite.Cancel

/-!
# Wire-adjacent gates

Both passes that take gates out look at the same pairs: a gate, and the first gate
after it that shares a qubit with it, provided that the two act on the same qubits
in the same order. `WireAdjacent` is this relation, said with positions and
without the search that finds the pair.

A pass has reached its goal when no such pair is left that it could work on.
`Settled` says this for any condition on the two gates, and `SettledBelow` says it
for the pairs whose first gate stands before a position, which is how far a scan
from the left has come.

Being settled survives the later passes. If the order of the gates changes only
between gates that share no qubit, then a pair that is wire-adjacent afterwards was
so before: a gate that stands between the two and shares a qubit with the first
one shares it with the second one too, so it stood between them all the time. And
renaming qubits moves nothing at all.

## Main definitions

* `Rewrite.WireAdjacent`: Two neighbours on the same qubits.
* `Rewrite.Settled`: No such neighbours satisfy a condition.
* `Rewrite.SettledBelow`: None whose first gate stands before a position.

## Theorems

* `nextOnWires?_eq_some`: What the search for the next gate finds.
* `WireAdjacent.split`: The list around a pair.
* `WireAdjacent.rearranged`: A pair in a reordered list was a pair before.
* `Settled.reorders`, `Settled.mapQubits`: A settled list stays settled.
-/

namespace QubitLab

namespace Rewrite

variable {R : Type}

/-- The gate at position `j` is the first one after position `i` that shares a qubit
    with the gate there, and both act on the same qubits in the same order. -/
structure WireAdjacent (gates : List (Gate R)) (i j : Nat) (g h : Gate R) : Prop where
  /-- The second position is behind the first one. -/
  lt : i < j
  /-- The first gate. -/
  left : gates[i]? = some g
  /-- The second gate. -/
  right : gates[j]? = some h
  /-- They share a qubit. -/
  shared : g.overlaps h = true
  /-- No gate between them shares a qubit with the first one. -/
  between : ∀ k f, i < k → k < j → gates[k]? = some f → g.overlaps f = false
  /-- They act on the same qubits. -/
  same : g.qubits = h.qubits

/-- No two wire-adjacent gates satisfy the condition. -/
def Settled (P : Gate R → Gate R → Prop) (gates : List (Gate R)) : Prop :=
  ∀ i j g h, WireAdjacent gates i j g h → ¬ P g h

/-- No two wire-adjacent gates, the first of them before position `m`, satisfy the
    condition. -/
def SettledBelow (P : Gate R → Gate R → Prop) (gates : List (Gate R)) (m : Nat) : Prop :=
  ∀ i j g h, i < m → WireAdjacent gates i j g h → ¬ P g h

/-- A list is settled when a scan has come to its end. -/
theorem settled_of_below {P : Gate R → Gate R → Prop} {gates : List (Gate R)} {m : Nat}
    (hm : gates.length ≤ m) (h : SettledBelow P gates m) : Settled P gates := by
  intro i j g g' hadj
  have hlt := (List.getElem?_eq_some_iff.mp hadj.left).1
  exact h i j g g' (by omega) hadj

theorem settledBelow_zero (P : Gate R → Gate R → Prop) (gates : List (Gate R)) :
    SettledBelow P gates 0 :=
  fun _ _ _ _ hi _ => absurd hi (Nat.not_lt_zero _)

/-- The scan moves on from a gate that has no such neighbour. -/
theorem settledBelow_succ {P : Gate R → Gate R → Prop} {gates : List (Gate R)} {m : Nat}
    (hm : SettledBelow P gates m) (h : ∀ j g g', WireAdjacent gates m j g g' → ¬ P g g') :
    SettledBelow P gates (m + 1) := by
  intro i j g g' hi hadj
  rcases Nat.lt_or_eq_of_le (Nat.le_of_lt_succ hi) with hlt | rfl
  · exact hm i j g g' hlt hadj
  · exact h j g g' hadj

section Search

/-- The search finds the first gate after a position that shares a qubit with the
    gate there. -/
theorem nextOnWires?_eq_some (gates : List (Gate R)) (i j : Nat) :
    nextOnWires? gates i = some j ↔
      i < j ∧ ∃ g h, gates[i]? = some g ∧ gates[j]? = some h ∧ g.overlaps h = true ∧
        ∀ k f, i < k → k < j → gates[k]? = some f → g.overlaps f = false := by
  unfold nextOnWires?
  cases hg : gates[i]? with
  | none => simp only [reduceCtorEq, false_and, exists_false, and_false]
  | some g =>
      simp only [Option.map_eq_some_iff, List.findIdx?_eq_some_iff_getElem,
        List.length_drop, List.getElem_drop, Bool.not_eq_true, Option.some.injEq]
      constructor
      · rintro ⟨d, ⟨hd, hover, hmin⟩, rfl⟩
        refine ⟨by omega, g, gates[i + 1 + d], rfl, List.getElem?_eq_getElem _, ?_, ?_⟩
        · rw [Gate.overlaps_comm]
          exact hover
        · intro k f hik hkd hf
          rcases Nat.exists_eq_add_of_le (show i + 1 ≤ k by omega) with ⟨m, rfl⟩
          have := hmin m (by omega)
          rw [List.getElem?_eq_getElem (by omega), Option.some.injEq] at hf
          rw [← hf, Gate.overlaps_comm]
          exact this
      · rintro ⟨hij, g', h, rfl, hh, hover, hmin⟩
        -- The search starts behind the gate, so positions are counted from there.
        rcases Nat.exists_eq_add_of_le (show i + 1 ≤ j by omega) with ⟨d, rfl⟩
        rcases List.getElem?_eq_some_iff.mp hh with ⟨hlt, rfl⟩
        refine ⟨d, ⟨by omega, ?_, fun m hm => ?_⟩, rfl⟩
        · rw [Gate.overlaps_comm]
          exact hover
        · rw [Gate.overlaps_comm]
          exact hmin (i + 1 + m) _ (by omega) (by omega) (List.getElem?_eq_getElem (by omega))

theorem WireAdjacent.next {gates : List (Gate R)} {i j : Nat} {g h : Gate R}
    (hadj : WireAdjacent gates i j g h) : nextOnWires? gates i = some j :=
  (nextOnWires?_eq_some gates i j).mpr
    ⟨hadj.lt, g, h, hadj.left, hadj.right, hadj.shared, hadj.between⟩

/-- The list around a pair: what is before it, between its gates, and behind it. -/
theorem WireAdjacent.split {gates : List (Gate R)} {i j : Nat} {g h : Gate R}
    (hadj : WireAdjacent gates i j g h) :
    ∃ before middle after, gates = before ++ g :: (middle ++ h :: after) ∧
      before.length = i ∧ i + 1 + middle.length = j ∧
      ∀ f ∈ middle, g.overlaps f = false := by
  rcases List.getElem?_eq_some_iff.mp hadj.left with ⟨hi, hgi⟩
  rcases List.getElem?_eq_some_iff.mp hadj.right with ⟨hj, hhj⟩
  have hlt := hadj.lt
  -- The list is cut at both positions.
  refine ⟨gates.take i, (gates.drop (i + 1)).take (j - (i + 1)), gates.drop (j + 1),
    ?_, ?_, ?_, ?_⟩
  · have hrest : (gates.drop (i + 1)).take (j - (i + 1)) ++ h :: gates.drop (j + 1)
        = gates.drop (i + 1) := by
      rw [← hhj, ← List.drop_eq_getElem_cons hj,
        show gates.drop j = (gates.drop (i + 1)).drop (j - (i + 1)) by
          rw [List.drop_drop]; congr 1; omega,
        List.take_append_drop]
    rw [hrest, ← hgi, ← List.drop_eq_getElem_cons hi, List.take_append_drop]
  · rw [List.length_take]
    omega
  · rw [List.length_take, List.length_drop]
    omega
  · intro f hf
    rcases List.mem_iff_getElem?.mp hf with ⟨k, hk⟩
    rw [List.getElem?_take] at hk
    by_cases hkd : k < j - (i + 1)
    · rw [if_pos hkd, List.getElem?_drop] at hk
      exact hadj.between (i + 1 + k) f (by omega) (by omega) hk
    · rw [if_neg hkd] at hk
      exact absurd hk (by simp only [reduceCtorEq, not_false_eq_true])

end Search

section Survival

/-- Two gates that are wire-adjacent in a reordered list were so before. -/
theorem WireAdjacent.rearranged {a b : List (Gate R)} (hab : Rearranged a b)
    {i j : Nat} {g h : Gate R} (hadj : WireAdjacent b i j g h) :
    ∃ i' j', WireAdjacent a i' j' g h := by
  rcases hab with ⟨σ, hσ, hord⟩
  refine ⟨σ i, σ j, hord i j g h hadj.lt hadj.left hadj.right hadj.shared, ?_, ?_,
    hadj.shared, ?_, hadj.same⟩
  · rw [← hσ]
    exact hadj.left
  · rw [← hσ]
    exact hadj.right
  · intro k f hik hkj hf
    rw [← Bool.not_eq_true]
    intro hgf
    -- A gate on a qubit of the first one is on a qubit of the second one too.
    have hfh : f.overlaps h = true := by
      rw [Gate.overlaps_comm, ← Gate.overlaps_congr hadj.same]
      exact hgf
    have hk : b[σ.symm k]? = some f := by rw [hσ, Equiv.apply_symm_apply]; exact hf
    -- The gate is now in front of the first one, between the two, or behind the second one. It
    -- shares a qubit with both, so the old order contradicts each of these.
    rcases Nat.lt_trichotomy (σ.symm k) i with hlt | heq | hgt
    · have := hord _ _ f g hlt hk hadj.left (by rw [Gate.overlaps_comm]; exact hgf)
      rw [Equiv.apply_symm_apply] at this
      omega
    · rw [← heq, Equiv.apply_symm_apply] at hik
      omega
    · rcases Nat.lt_trichotomy (σ.symm k) j with hlt | heq | hgt'
      · have := hadj.between _ f hgt hlt hk
        rw [hgf] at this
        exact absurd this (by simp only [Bool.true_eq_false, not_false_eq_true])
      · rw [← heq, Equiv.apply_symm_apply] at hkj
        omega
      · have := hord _ _ h f hgt' hadj.right hk (by rw [Gate.overlaps_comm]; exact hfh)
        rw [Equiv.apply_symm_apply] at this
        omega

/-- A settled list stays settled when gates are reordered that share no qubit. -/
theorem Settled.reorders {P : Gate R → Gate R → Prop} {a b : List (Gate R)}
    (h : Settled P a) (hab : Reorders a b) : Settled P b := by
  intro i j g g' hadj
  rcases hadj.rearranged hab.rearranged with ⟨i', j', hadj'⟩
  exact h i' j' g g' hadj'

/-- Renaming the qubits keeps a list settled, for a condition that does not look at
    them. -/
theorem Settled.mapQubits {P : Gate R → Gate R → Prop} {gates : List (Gate R)} {n : Nat}
    {f : Nat → Nat} (hf : Gate.Renaming n f) (hr : ∀ g ∈ gates, ∀ q ∈ g.qubits, q < n)
    (hP : ∀ g h : Gate R, P (g.mapQubits f) (h.mapQubits f) → P g h)
    (h : Settled P gates) : Settled P (gates.map (Gate.mapQubits f)) := by
  intro i j g g' hadj hPg
  have hleft := hadj.left
  have hright := hadj.right
  rw [List.getElem?_map, Option.map_eq_some_iff] at hleft hright
  rcases hleft with ⟨u, hu, rfl⟩
  rcases hright with ⟨v, hv, rfl⟩
  have hru := hr u (List.mem_of_getElem? hu)
  have hrv := hr v (List.mem_of_getElem? hv)
  refine h i j u v ⟨hadj.lt, hu, hv, ?_, ?_, ?_⟩ (hP u v hPg)
  · rw [← Gate.overlaps_mapQubits hf hru hrv]
    exact hadj.shared
  · intro k w hik hkj hw
    rw [← Gate.overlaps_mapQubits hf hru (hr w (List.mem_of_getElem? hw))]
    refine hadj.between k _ hik hkj ?_
    rw [List.getElem?_map, hw, Option.map_some]
  · exact Gate.map_qubits_inj hf hru hrv hadj.same

end Survival

end Rewrite

end QubitLab
