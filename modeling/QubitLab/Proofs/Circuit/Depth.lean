import Mathlib.Data.List.NodupEquivFin
import QubitLab.Proofs.Circuit.Layers

/-!
# The depth of a list of gates

The depth is computed from scratch by assigning layers, so nothing about the computation
says how the depths of two lists compare. What does is that the layers are the best that
can be done. A schedule is any way to give the gates times such that of two gates on a
common qubit the later one gets the later time. The layers are a schedule, and no
schedule gives a gate an earlier time than its layer. So whoever has a schedule of a list
has a bound on its depth.

Schedules can be carried from one list to another. `Embeds` says when: every gate of the
one list has a place in the other, and of two gates on a common qubit the later one has
the later place, where the gates share a qubit as well. Taking gates out, changing the
order of gates that share no qubit, and renaming qubits all give such places, and one
lemma, `count_le_of_embeds`, compares the depths for all of them.

## Main definitions

* `Layers.IsSchedule`: Times for the gates of a list.
* `Layers.layerAt`: The layer of the gate at a position.
* `Layers.Embeds`: Places for the gates of one list in another.

## Theorems

* `isSchedule_layerAt`: The layers are a schedule.
* `assign_le_of_isSchedule`: No schedule is ahead of the layers.
* `count_le_of_isSchedule`: A schedule bounds the depth.
* `count_le_of_embeds`: A list with a place for every gate of another is as deep.
* `embeds_of_sublist`, `embeds_mapQubits`, `mapQubits_embeds`: Lists with such places.
* `count_mapQubits`: Renaming the qubits keeps the depth.
-/

namespace QubitLab

namespace Layers

variable {R : Type} {n : Nat}

/-- The times keep the order of any two gates that share a qubit. -/
def IsSchedule (gates : List (Gate R)) (time : Nat → Nat) : Prop :=
  ∀ i j g h, i < j → gates[i]? = some g → gates[j]? = some h → g.overlaps h = true →
    time i < time j

/-- The layer of the gate at a position. -/
def layerAt (gates : List (Gate R)) (n i : Nat) : Nat := (assign gates n).getD i 0

theorem layerAt_eq_getElem {gates : List (Gate R)} {i : Nat} (h : i < (assign gates n).length) :
    layerAt gates n i = (assign gates n)[i] := by
  rw [layerAt, List.getD_eq_getElem?_getD, List.getElem?_eq_getElem h, Option.getD_some]

section Optimal

/-- The layers are a schedule. -/
theorem isSchedule_layerAt {gates : List (Gate R)} (hr : ∀ g ∈ gates, ∀ q ∈ g.qubits, q < n) :
    IsSchedule gates (layerAt gates n) := by
  intro i j g h hij hg hh hover
  rcases List.getElem?_eq_some_iff.mp hg with ⟨hi, rfl⟩
  rcases List.getElem?_eq_some_iff.mp hh with ⟨hj, rfl⟩
  have hlen := assign_length gates n
  have hpairs := List.pairwise_iff_getElem.mp (pairwise_assign hr) i j
    (by rw [List.length_zip]; omega) (by rw [List.length_zip]; omega) hij
  rw [List.getElem_zip, List.getElem_zip] at hpairs
  rw [layerAt_eq_getElem (by omega), layerAt_eq_getElem (by omega)]
  exact hpairs hover

/-- The chosen layer is the first one that is free, if some time is late enough for all qubits of
    the gate. -/
theorem firstFree_le {free : Array Nat} {qubits : List Nat} {time : Nat}
    (h : ∀ q ∈ qubits, ∀ first, free[q]? = some first → first ≤ time) :
    firstFree free qubits ≤ time := by
  unfold firstFree
  cases hmax : (qubits.filterMap fun q => free[q]?).max? with
  | none => exact Nat.zero_le time
  | some first =>
      rcases List.mem_filterMap.mp (List.max?_eq_some_iff.mp hmax).1 with ⟨q, hq, hfree⟩
      exact h q hq first hfree

/-- From any array of free layers that the schedule is not ahead of, the schedule stays behind. -/
theorem assignFrom_le_of_isSchedule {free : Array Nat} {gates : List (Gate R)}
    {time : Nat → Nat} (hs : IsSchedule gates time)
    (hfree : ∀ i g, gates[i]? = some g → ∀ q ∈ g.qubits, ∀ first, free[q]? = some first →
      first ≤ time i) :
    ∀ i layer, (assignFrom free gates)[i]? = some layer → layer ≤ time i := by
  -- On the gates, with the times and the free layers left open.
  induction gates generalizing free time with
  | nil =>
      intro i layer hi
      exact absurd hi (by simp [assignFrom])
  | cons g rest ih =>
      have hlayer : firstFree free g.qubits ≤ time 0 := firstFree_le (hfree 0 g rfl)
      intro i layer hi
      cases i with
      | zero =>
          simp only [assignFrom, List.getElem?_cons_zero, Option.some.injEq] at hi
          rw [← hi]
          exact hlayer
      | succ i =>
          -- The other gates are scheduled by the times behind the first one. A qubit of the
          -- first gate is free one layer later, and the schedule is that late as well.
          refine ih (fun i j g' h' hij => hs (i + 1) (j + 1) g' h' (by omega)) ?_ i layer hi
          intro j h hj q hq first hfirst
          by_cases hg : q ∈ g.qubits
          · have hlt : q < free.size := by
              have := (Array.getElem?_eq_some_iff.mp hfirst).1
              rwa [occupy_size] at this
            rw [getElem?_occupy _ _ _ _ hlt, if_pos hg, Option.some.injEq] at hfirst
            have := hs 0 (j + 1) g h (by omega) rfl hj
              ((Gate.overlaps_iff g h).mpr ⟨q, hg, hq⟩)
            omega
          · refine hfree (j + 1) h hj q hq first ?_
            have hlt := (Array.getElem?_eq_some_iff.mp hfirst).1
            rw [occupy_size] at hlt
            rwa [getElem?_occupy _ _ _ _ hlt, if_neg hg] at hfirst

/-- No schedule gives a gate an earlier time than its layer. -/
theorem assign_le_of_isSchedule {gates : List (Gate R)} {time : Nat → Nat}
    (hs : IsSchedule gates time) {i layer : Nat} (h : (assign gates n)[i]? = some layer) :
    layer ≤ time i := by
  refine assignFrom_le_of_isSchedule hs (fun j g _ q _ first hfirst => ?_) i layer h
  -- At the start every qubit is free in the first layer.
  rw [Array.getElem?_replicate] at hfirst
  split at hfirst
  · rw [← Option.some.inj hfirst]
    exact Nat.zero_le _
  · exact absurd hfirst (by simp)

theorem bound_le {layers : List Nat} {m : Nat} (h : ∀ layer ∈ layers, layer < m) :
    bound layers ≤ m := by
  unfold bound
  cases hmax : layers.max? with
  | none => exact Nat.zero_le m
  | some deepest => exact h deepest (List.max?_eq_some_iff.mp hmax).1

/-- A schedule bounds the depth. -/
theorem count_le_of_isSchedule {gates : List (Gate R)} {time : Nat → Nat} {m : Nat}
    (hs : IsSchedule gates time) (hm : ∀ i < gates.length, time i < m) :
    count gates n ≤ m := by
  refine bound_le fun layer hlayer => ?_
  rcases List.mem_iff_getElem?.mp hlayer with ⟨i, hi⟩
  have hlt := (List.getElem?_eq_some_iff.mp hi).1
  rw [assign_length] at hlt
  exact Nat.lt_of_le_of_lt (assign_le_of_isSchedule hs hi) (hm i hlt)

end Optimal

section Places

/-- Every gate of the first list has a place in the second one, and two gates that share a
    qubit have places in the same order, with gates that share a qubit. -/
structure Embeds (a b : List (Gate R)) (place : Nat → Nat) : Prop where
  /-- The places are places of the second list. -/
  lt : ∀ i < a.length, place i < b.length
  /-- The order of gates that share a qubit is the same in both lists. -/
  order : ∀ i j g h, i < j → a[i]? = some g → a[j]? = some h → g.overlaps h = true →
    place i < place j ∧ ∃ g' h', b[place i]? = some g' ∧ b[place j]? = some h' ∧
      g'.overlaps h' = true

/-- A schedule is carried over to a list with places in the scheduled one. -/
theorem IsSchedule.comp {a b : List (Gate R)} {place time : Nat → Nat}
    (hs : IsSchedule b time) (h : Embeds a b place) : IsSchedule a fun i => time (place i) := by
  intro i j g g' hij hg hg' hover
  rcases h.order i j g g' hij hg hg' hover with ⟨hlt, f, f', hf, hf', hover'⟩
  exact hs (place i) (place j) f f' hlt hf hf' hover'

/-- A list with a place for every gate of another one is at least as deep. The other one
    may be over a register of another width. -/
theorem count_le_of_embeds {a b : List (Gate R)} {m : Nat} {place : Nat → Nat}
    (hr : ∀ g ∈ b, ∀ q ∈ g.qubits, q < n) (h : Embeds a b place) : count a m ≤ count b n := by
  -- The layers of the second list, at the places, schedule the first one.
  refine count_le_of_isSchedule ((isSchedule_layerAt hr).comp h) fun i hi => ?_
  have hlt : place i < (assign b n).length := by
    rw [assign_length]
    exact h.lt i hi
  rw [layerAt_eq_getElem hlt]
  exact lt_bound (List.getElem_mem hlt)

/-- Layers ask for the qubits of the gates only, so these may be a part of a longer list of
    qubits with gates of other kinds. -/
theorem embeds_of_sublist {a b : List (Gate R)}
    (h : (a.map Gate.qubits).Sublist (b.map Gate.qubits)) : ∃ place, Embeds a b place := by
  rcases List.sublist_iff_exists_orderEmbedding_getElem?_eq.mp h with ⟨place, hplace⟩
  have hqubits : ∀ i g, a[i]? = some g → ∃ g', b[place i]? = some g' ∧ g'.qubits = g.qubits := by
    intro i g hg
    have hi := hplace i
    rw [List.getElem?_map, List.getElem?_map, hg, Option.map_some] at hi
    exact Option.map_eq_some_iff.mp hi.symm
  refine ⟨place, fun i hi => ?_, fun i j g h hij hg hh hover => ?_⟩
  · rcases hqubits i a[i] (List.getElem?_eq_getElem hi) with ⟨g', hg', -⟩
    exact (List.getElem?_eq_some_iff.mp hg').1
  · rcases hqubits i g hg with ⟨g', hg', hgq⟩
    rcases hqubits j h hh with ⟨h', hh', hhq⟩
    refine ⟨place.lt_iff_lt.mpr hij, g', h', hg', hh', ?_⟩
    rw [Gate.overlaps_iff, hgq, hhq, ← Gate.overlaps_iff]
    exact hover

/-- Without some of its gates a list is not deeper. -/
theorem count_le_of_sublist {a b : List (Gate R)} {m : Nat}
    (hr : ∀ g ∈ b, ∀ q ∈ g.qubits, q < n)
    (h : (a.map Gate.qubits).Sublist (b.map Gate.qubits)) : count a m ≤ count b n := by
  rcases embeds_of_sublist h with ⟨place, hplace⟩
  exact count_le_of_embeds hr hplace

end Places

section Renaming

variable {f : Nat → Nat}

theorem mapQubits_embeds (hf : Gate.Renaming n f) {gates : List (Gate R)}
    (hr : ∀ g ∈ gates, ∀ q ∈ g.qubits, q < n) :
    Embeds (gates.map (Gate.mapQubits f)) gates fun i => i := by
  refine ⟨fun i hi => by rwa [List.length_map] at hi, fun i j g h hij hg hh hover => ?_⟩
  rw [List.getElem?_map, Option.map_eq_some_iff] at hg hh
  rcases hg with ⟨g', hg', rfl⟩
  rcases hh with ⟨h', hh', rfl⟩
  refine ⟨hij, g', h', hg', hh', ?_⟩
  rwa [Gate.overlaps_mapQubits hf (hr g' (List.mem_of_getElem? hg'))
    (hr h' (List.mem_of_getElem? hh'))] at hover

theorem embeds_mapQubits (hf : Gate.Renaming n f) {gates : List (Gate R)}
    (hr : ∀ g ∈ gates, ∀ q ∈ g.qubits, q < n) :
    Embeds gates (gates.map (Gate.mapQubits f)) fun i => i := by
  refine ⟨fun i hi => by rwa [List.length_map], fun i j g h hij hg hh hover => ?_⟩
  refine ⟨hij, g.mapQubits f, h.mapQubits f, ?_, ?_, ?_⟩
  · rw [List.getElem?_map, hg, Option.map_some]
  · rw [List.getElem?_map, hh, Option.map_some]
  · rwa [Gate.overlaps_mapQubits hf (hr g (List.mem_of_getElem? hg))
      (hr h (List.mem_of_getElem? hh))]

/-- Renaming the qubits keeps the depth. -/
theorem count_mapQubits (hf : Gate.Renaming n f) {gates : List (Gate R)}
    (hr : ∀ g ∈ gates, ∀ q ∈ g.qubits, q < n) :
    count (gates.map (Gate.mapQubits f)) n = count gates n := by
  have hr' : ∀ g ∈ gates.map (Gate.mapQubits f), ∀ q ∈ g.qubits, q < n := by
    intro g hg
    rcases List.mem_map.mp hg with ⟨g', hg', rfl⟩
    exact Gate.range_mapQubits hf (hr g' hg')
  exact Nat.le_antisymm (count_le_of_embeds hr (mapQubits_embeds hf hr))
    (count_le_of_embeds hr' (embeds_mapQubits hf hr))

end Renaming

end Layers

end QubitLab
