import Mathlib.Logic.Equiv.Basic
import QubitLab.Proofs.Circuit.Layers
import QubitLab.Rewrite.Reorder

/-!
# Reorderings

Two passes of the rewriter change nothing but the order of the gates, and both
keep the order of any two gates that share a qubit. There are two ways to say
that, and both are needed.

`Reorders` says how such an order comes about: by exchanging neighbours that share
no qubit, one pair after another. This is the form that a meaning of gates is
carried along, since a meaning only has to survive one exchange.

`Rearranged` says what has become of the positions: there is a permutation of
them, and it keeps the order of every two gates that share a qubit. This is the
form in which a property of the list is read off, since no list has to be cut
apart. The first form gives the second, by `Reorders.rearranged`.

Layering is the harder of the two passes. It is a sort by layers, and the proof
takes the layers off the front one at a time. `filter_reorders` is the single
step: the gates that satisfy a test may be moved in front of the others if no gate
that fails the test stands before one that satisfies it and shares a qubit with
it. For the gates of the lowest layer that is what `Layers.pairwise_assign` says.

## Main definitions

* `Rewrite.Reorders`: Reached by exchanging neighbours that share no qubit.
* `Rewrite.Rearranged`: The same gates in an order that agrees where it matters.

## Theorems

* `reorders_move`: A gate moves past gates that it shares no qubit with.
* `filter_reorders`: The gates that satisfy a test are moved to the front.
* `Reorders.rearranged`: Exchanges of neighbours permute the positions.
* `bubble_reorders`: The sweep reorders.
* `layer_reorders`: Putting the gates in the order of their layers reorders.
-/

namespace QubitLab

namespace Rewrite

variable {R : Type}

/-- One list of gates comes from another by exchanging neighbours that share no
    qubit. -/
inductive Reorders : List (Gate R) → List (Gate R) → Prop
  | refl (gates : List (Gate R)) : Reorders gates gates
  | swap (before : List (Gate R)) (g h : Gate R) (after : List (Gate R))
      (hd : g.overlaps h = false) :
      Reorders (before ++ g :: h :: after) (before ++ h :: g :: after)
  | trans {a b c : List (Gate R)} (hab : Reorders a b) (hbc : Reorders b c) : Reorders a c

section Closure

/-- The same gates may be put in front of both lists. -/
theorem Reorders.append_left {a b : List (Gate R)} (h : Reorders a b)
    (before : List (Gate R)) : Reorders (before ++ a) (before ++ b) := by
  induction h with
  | refl a => exact Reorders.refl _
  | swap front g h after hd =>
      rw [← List.append_assoc, ← List.append_assoc]
      exact Reorders.swap _ g h after hd
  | trans _ _ ih1 ih2 => exact ih1.trans ih2

theorem Reorders.cons {a b : List (Gate R)} (h : Reorders a b) (g : Gate R) :
    Reorders (g :: a) (g :: b) :=
  h.append_left [g]

/-- An exchange is undone by an exchange. -/
theorem Reorders.symm {a b : List (Gate R)} (h : Reorders a b) : Reorders b a := by
  induction h with
  | refl a => exact Reorders.refl a
  | swap before g h after hd =>
      rw [Gate.overlaps_comm] at hd
      exact Reorders.swap before h g after hd
  | trans _ _ ih1 ih2 => exact ih2.trans ih1

/-- Exchanges neither add gates nor take them out. -/
theorem Reorders.perm {a b : List (Gate R)} (h : Reorders a b) : a.Perm b := by
  induction h with
  | refl a => exact List.Perm.refl a
  | swap before g h after _ => exact (List.Perm.swap h g after).append_left before
  | trans _ _ ih1 ih2 => exact ih1.trans ih2

/-- A gate moves past gates that it shares no qubit with. -/
theorem reorders_move (g : Gate R) (middle after : List (Gate R))
    (hd : ∀ h ∈ middle, g.overlaps h = false) :
    Reorders (g :: (middle ++ after)) (middle ++ g :: after) := by
  induction middle with
  | nil => exact Reorders.refl _
  | cons h rest ih =>
      have hfirst := Reorders.swap [] g h (rest ++ after) (hd h List.mem_cons_self)
      exact hfirst.trans ((ih fun f hf => hd f (List.mem_cons_of_mem h hf)).cons h)

/-- The gates whose companions satisfy a test are moved to the front. -/
theorem filter_reorders {α : Type} (p : Gate R × α → Bool) (l : List (Gate R × α))
    (hl : l.Pairwise fun a b => p a = false → p b = true → a.1.overlaps b.1 = false) :
    Reorders (l.map Prod.fst) ((l.filter p ++ l.filter fun a => !p a).map Prod.fst) := by
  induction l with
  | nil => exact Reorders.refl _
  | cons a rest ih =>
      rw [List.pairwise_cons] at hl
      have hrest := (ih hl.2).cons a.1
      cases ha : p a with
      | true =>
          simp only [List.filter_cons, ha, Bool.not_true, Bool.false_eq_true, if_true, if_false]
          exact hrest
      | false =>
          simp only [List.filter_cons, ha, Bool.not_false, Bool.false_eq_true, if_true, if_false]
          -- The gate is carried over those that go to the front.
          refine hrest.trans ?_
          rw [List.map_append, List.map_append, List.map_cons]
          refine reorders_move a.1 _ _ fun h hh => ?_
          rcases List.mem_map.mp hh with ⟨b, hb, rfl⟩
          rcases List.mem_filter.mp hb with ⟨hb, hpb⟩
          exact hl.1 b hb ha hpb

end Closure

section Positions

/-- The positions of one list are a permutation of those of another, and two gates
    that share a qubit come in the same order in both. -/
def Rearranged (a b : List (Gate R)) : Prop :=
  ∃ σ : Equiv.Perm Nat, (∀ k, b[k]? = a[σ k]?) ∧
    ∀ i j g h, i < j → b[i]? = some g → b[j]? = some h → g.overlaps h = true → σ i < σ j

theorem rearranged_refl (a : List (Gate R)) : Rearranged a a :=
  ⟨Equiv.refl Nat, fun _ => rfl, fun _ _ _ _ hij _ _ _ => hij⟩

/-- Two permutations of positions, one after the other. -/
theorem Rearranged.trans {a b c : List (Gate R)} (hab : Rearranged a b)
    (hbc : Rearranged b c) : Rearranged a c := by
  rcases hab with ⟨σ, hσ, hord⟩
  rcases hbc with ⟨τ, hτ, hord'⟩
  refine ⟨τ.trans σ, fun k => by rw [hτ, hσ, Equiv.trans_apply], ?_⟩
  intro i j g h hij hi hj hover
  have hlt := hord' i j g h hij hi hj hover
  rw [hτ] at hi hj
  exact hord (τ i) (τ j) g h hlt hi hj hover

/-- The list with the gates at two neighbouring positions exchanged. -/
theorem getElem?_swap (before : List (Gate R)) (g h : Gate R) (after : List (Gate R))
    (k : Nat) :
    (before ++ h :: g :: after)[k]?
      = (before ++ g :: h :: after)[Equiv.swap before.length (before.length + 1) k]? := by
  by_cases h0 : k = before.length
  · rw [h0, Equiv.swap_apply_left, List.getElem?_append_right (by omega),
      List.getElem?_append_right (by omega), Nat.sub_self,
      show before.length + 1 - before.length = 1 by omega]
    rfl
  · by_cases h1 : k = before.length + 1
    · rw [h1, Equiv.swap_apply_right, List.getElem?_append_right (by omega),
        List.getElem?_append_right (by omega), Nat.sub_self,
        show before.length + 1 - before.length = 1 by omega]
      rfl
    · rw [Equiv.swap_apply_of_ne_of_ne h0 h1]
      by_cases hlt : k < before.length
      · rw [List.getElem?_append_left hlt, List.getElem?_append_left hlt]
      · -- Behind the pair the two lists are the same.
        rcases Nat.exists_eq_add_of_le (show before.length + 2 ≤ k by omega) with ⟨m, rfl⟩
        rw [List.getElem?_append_right (by omega), List.getElem?_append_right (by omega),
          show before.length + 2 + m - before.length = m + 2 by omega]
        rfl

/-- An exchange of two neighbouring positions keeps the order of all others. -/
theorem swap_lt {p i j : Nat} (hij : i < j) (hne : ¬ (i = p ∧ j = p + 1)) :
    Equiv.swap p (p + 1) i < Equiv.swap p (p + 1) j := by
  simp only [Equiv.swap_apply_def]
  split_ifs <;> omega

/-- Exchanges of neighbours permute the positions. -/
theorem Reorders.rearranged {a b : List (Gate R)} (h : Reorders a b) : Rearranged a b := by
  induction h with
  | refl a => exact rearranged_refl a
  | swap before g h after hd =>
      refine ⟨Equiv.swap before.length (before.length + 1), getElem?_swap before g h after,
        fun i j g' h' hij hi hj hover => swap_lt hij ?_⟩
      -- The only pair whose order changes does not share a qubit.
      rintro ⟨rfl, rfl⟩
      rw [List.getElem?_append_right (by omega), Nat.sub_self] at hi
      rw [List.getElem?_append_right (by omega),
        show before.length + 1 - before.length = 1 by omega] at hj
      simp only [List.getElem?_cons_zero, Option.some.injEq] at hi
      simp only [List.getElem?_cons_succ, List.getElem?_cons_zero, Option.some.injEq] at hj
      rw [← hi, ← hj, Gate.overlaps_comm, hd] at hover
      exact absurd hover (by simp only [Bool.false_eq_true, not_false_eq_true])
  | trans _ _ ih1 ih2 => exact ih1.trans ih2

end Positions

section Passes

/-- Each step of the sweep exchanges two neighbours that share no qubit, or none. -/
theorem bubbleFrom_reorders (left : Gate R) (rest : List (Gate R)) :
    Reorders (left :: rest) (bubbleFrom left rest).1 := by
  induction rest generalizing left with
  | nil => exact Reorders.refl _
  | cons right rest ih =>
      rw [bubbleFrom]
      by_cases hc : changePlaces left right = true
      · rw [if_pos hc]
        rw [changePlaces, Bool.and_eq_true, Bool.not_eq_true'] at hc
        exact (Reorders.swap [] left right rest hc.1).trans ((ih left).cons right)
      · rw [if_neg hc]
        exact (ih right).cons left

/-- The sweep reorders. -/
theorem bubble_reorders (gates : List (Gate R)) : Reorders gates (bubble gates).1 := by
  cases gates with
  | nil => exact Reorders.refl _
  | cons g rest => exact bubbleFrom_reorders g rest

/-- Looking up the positions of a layer gives the gates of the layer. -/
theorem filterMap_positions (before : List (Gate R)) (gates : List (Gate R))
    (layers : List Nat) (hlen : layers.length = gates.length) (layer : Nat) :
    (((layers.zipIdx before.length).filter fun p => p.1 == layer).map Prod.snd).filterMap
        (fun i => (before ++ gates)[i]?)
      = ((gates.zip layers).filter fun a => a.2 == layer).map Prod.fst := by
  -- The positions are those in the whole list, so the gates that have been looked at are kept in
  -- front.
  induction gates generalizing before layers with
  | nil =>
      rw [List.length_nil, List.length_eq_zero_iff] at hlen
      rw [hlen]
      rfl
  | cons g rest ih =>
      rcases layers with _ | ⟨l, layers⟩
      · exact absurd hlen (by simp only [List.length_nil, List.length_cons, reduceCtorEq,
          not_false_eq_true])
      -- The head has been looked at, and joins the gates in front.
      · have hrest := ih (before ++ [g]) layers (by
          simpa only [List.length_cons, Nat.add_right_cancel_iff] using hlen)
        rw [List.length_append, List.length_singleton, List.append_assoc,
          List.singleton_append] at hrest
        rw [List.zipIdx_cons, List.zip_cons_cons, List.filter_cons, List.filter_cons]
        by_cases hl : (l == layer) = true
        · rw [if_pos hl, if_pos hl, List.map_cons, List.map_cons, List.filterMap_cons, hrest,
            List.getElem?_append_right (Nat.le_refl _), Nat.sub_self]
          rfl
        · rw [if_neg hl, if_neg hl, hrest]

/-- The gates of the first layers, layer by layer, and then all others. -/
theorem layers_reorders {l : List (Gate R × Nat)}
    (hl : l.Pairwise fun a b => a.1.overlaps b.1 = true → a.2 < b.2) (m : Nat) :
    Reorders (l.map Prod.fst)
      (((List.range m).flatMap fun k => (l.filter fun a => a.2 == k).map Prod.fst) ++
        (l.filter fun a => decide (m ≤ a.2)).map Prod.fst) := by
  -- By induction on the number of layers that have been moved to the front.
  induction m with
  | zero =>
      rw [List.range_zero, List.flatMap_nil, List.nil_append,
        List.filter_eq_self.mpr fun a _ => decide_eq_true (Nat.zero_le a.2)]
      exact Reorders.refl _
  | succ m ih =>
      refine ih.trans ?_
      rw [List.range_succ, List.flatMap_append, List.flatMap_singleton, List.append_assoc]
      refine Reorders.append_left ?_ _
      have hstep := filter_reorders (fun a => a.2 == m)
        (l.filter fun a => decide (m ≤ a.2)) (by
          refine (hl.filter _).imp_of_mem ?_
          -- A gate above the layer shares no qubit with a later gate of the layer.
          intro a b ha hb hord hna hpb
          rw [List.mem_filter, decide_eq_true_eq] at ha
          rw [beq_eq_false_iff_ne] at hna
          rw [beq_iff_eq] at hpb
          rw [← Bool.not_eq_true]
          intro hover
          have := hord hover
          omega)
      rw [List.filter_filter, List.filter_filter, List.map_append] at hstep
      have h1 : (l.filter fun a => a.2 == m && decide (m ≤ a.2))
          = l.filter fun a => a.2 == m := by
        refine List.filter_congr fun a _ => ?_
        rw [Bool.eq_iff_iff, Bool.and_eq_true, beq_iff_eq, decide_eq_true_eq]
        omega
      have h2 : (l.filter fun a => !(a.2 == m) && decide (m ≤ a.2))
          = l.filter fun a => decide (m + 1 ≤ a.2) := by
        refine List.filter_congr fun a _ => ?_
        rw [Bool.eq_iff_iff, Bool.and_eq_true, Bool.not_eq_true', beq_eq_false_iff_ne,
          decide_eq_true_eq, decide_eq_true_eq]
        omega
      rw [h1, h2] at hstep
      exact hstep

/-- Putting the gates in the order of their layers keeps the order of every two
    gates that share a qubit. -/
theorem layer_reorders {n : Nat} {gates : List (Gate R)}
    (hr : ∀ g ∈ gates, ∀ q ∈ g.qubits, q < n) : Reorders gates (layer gates n).1 := by
  have hlen := Layers.assign_length gates n
  have hmain := layers_reorders (Layers.pairwise_assign hr)
    (Layers.bound (Layers.assign gates n))
  have hfst : (gates.zip (Layers.assign gates n)).map Prod.fst = gates :=
    List.map_fst_zip (by omega)
  -- No gate lies above the last layer.
  have hrest : ((gates.zip (Layers.assign gates n)).filter fun a =>
      decide (Layers.bound (Layers.assign gates n) ≤ a.2)) = [] := by
    rw [List.filter_eq_nil_iff]
    rintro ⟨g, k⟩ ha
    have hk := Layers.lt_bound (List.of_mem_zip ha).2
    rw [decide_eq_true_eq]
    simp only
    omega
  have hgroups : (layer gates n).1
      = (List.range (Layers.bound (Layers.assign gates n))).flatMap fun k =>
        ((gates.zip (Layers.assign gates n)).filter fun a => a.2 == k).map Prod.fst := by
    simp only [layer, Layers.group, List.filterMap_flatten, List.map_map, List.flatMap]
    congr 1
    refine List.map_congr_left fun k _ => ?_
    exact filterMap_positions [] gates _ hlen k
  rw [hfst, hrest, List.map_nil, List.append_nil, ← hgroups] at hmain
  exact hmain

end Passes

end Rewrite

end QubitLab
