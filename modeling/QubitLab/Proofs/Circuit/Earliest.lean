import Mathlib.Data.Finset.Card
import Mathlib.Order.Bounds.Defs
import QubitLab.Proofs.Circuit.Depth
import QubitLab.Proofs.Circuit.Renamed

/-!
# The earliest layers

The layers of a list of gates are a schedule that no other schedule is ahead of. Two things
follow that the pass over the gates does not show.

Their number is the least that any schedule gets by with. A schedule may leave times out,
so what counts is how many different times it uses, and not how late it ends. The two are
the same for the schedule that is packed: `packed` gives every time its place among the
used ones, which keeps the order of the gates.

And the layers depend on the order of the gates only as far as gates share qubits.
`Arranges` says that a list has the gates of another one, taken from its positions in some
order, where gates that share a qubit have kept theirs. Then each list has places for the
gates of the other one, so that schedules can be carried in both directions, and the layer
of a gate is at most its layer in the other list both ways round.

## Main definitions

* `Layers.timesUsed`: The different times of a schedule.
* `Layers.packed`: A schedule without the times that it leaves out.
* `Layers.Arranges`: A list has the gates of another one in a given order of positions.

## Theorems

* `IsSchedule.packed`: Leaving out unused times keeps a schedule.
* `count_le_timesUsed`, `timesUsed_layerAt`: The number of layers is the least one.
* `Arranges.embeds`, `Arranges.embeds_back`: The places for the gates of each list in the
  other one.
* `assign_arranges`, `count_arranges`: Every gate keeps its layer, so their number is the
  same.
* `layers_earliest`: All of it in one.
-/

namespace QubitLab

namespace Layers

variable {R : Type} {n : Nat} {gates : List (Gate R)}

/-- The layers of a list, one position after the other. -/
theorem assign_eq_map_layerAt (gates : List (Gate R)) (n : Nat) :
    assign gates n = (List.range gates.length).map (layerAt gates n) := by
  refine List.ext_getElem (by rw [assign_length, List.length_map, List.length_range]) ?_
  intro i hi _
  rw [List.getElem_map, List.getElem_range, layerAt_eq_getElem hi]

/-- No schedule gives a gate an earlier time than its layer. -/
theorem layerAt_le_of_isSchedule {time : Nat → Nat} (hs : IsSchedule gates time) {i : Nat}
    (hi : i < gates.length) : layerAt gates n i ≤ time i := by
  rw [← assign_length gates n] at hi
  rw [layerAt_eq_getElem hi]
  exact assign_le_of_isSchedule hs (List.getElem?_eq_getElem hi)

theorem layerAt_lt_count {i : Nat} (hi : i < gates.length) :
    layerAt gates n i < count gates n := by
  rw [← assign_length gates n] at hi
  rw [layerAt_eq_getElem hi]
  exact lt_bound (List.getElem_mem hi)

section Fewest

/-- The different times that the gates of a list get. -/
def timesUsed (gates : List (Gate R)) (time : Nat → Nat) : Finset Nat :=
  (Finset.range gates.length).image time

/-- The place of a gate's time among the times that are used. -/
def packed (gates : List (Gate R)) (time : Nat → Nat) (i : Nat) : Nat :=
  ((timesUsed gates time).filter (· < time i)).card

theorem mem_timesUsed {time : Nat → Nat} {i : Nat} (hi : i < gates.length) :
    time i ∈ timesUsed gates time :=
  Finset.mem_image_of_mem time (Finset.mem_range.mpr hi)

theorem packed_lt_card {time : Nat → Nat} {i : Nat} (hi : i < gates.length) :
    packed gates time i < (timesUsed gates time).card := by
  refine Finset.card_lt_card (Finset.filter_ssubset.mpr ⟨time i, mem_timesUsed hi, ?_⟩)
  exact Nat.lt_irrefl (time i)

/-- Packing keeps the order of two times that are used. -/
theorem packed_lt_packed {time : Nat → Nat} {i j : Nat} (hi : i < gates.length)
    (hij : time i < time j) : packed gates time i < packed gates time j := by
  -- The time of the first gate is before the second one's, and not before its own.
  refine Finset.card_lt_card (Finset.ssubset_iff_of_subset ?_ |>.mpr ⟨time i, ?_, ?_⟩)
  · intro t ht
    rcases Finset.mem_filter.mp ht with ⟨hused, hlt⟩
    exact Finset.mem_filter.mpr ⟨hused, Nat.lt_trans hlt hij⟩
  · exact Finset.mem_filter.mpr ⟨mem_timesUsed hi, hij⟩
  · exact fun ht => Nat.lt_irrefl _ (Finset.mem_filter.mp ht).2

/-- A schedule without its gaps is a schedule. -/
theorem IsSchedule.packed {time : Nat → Nat} (hs : IsSchedule gates time) :
    IsSchedule gates (packed gates time) := by
  intro i j g h hij hg hh hover
  exact packed_lt_packed (List.getElem?_eq_some_iff.mp hg).1 (hs i j g h hij hg hh hover)

/-- No schedule uses fewer times than there are layers. -/
theorem count_le_timesUsed {time : Nat → Nat} (hs : IsSchedule gates time) :
    count gates n ≤ (timesUsed gates time).card :=
  count_le_of_isSchedule hs.packed fun _ hi => packed_lt_card hi

/-- The layers use no more times than they have to, so none of them is empty. -/
theorem timesUsed_layerAt (hr : ∀ g ∈ gates, ∀ q ∈ g.qubits, q < n) :
    (timesUsed gates (layerAt gates n)).card = count gates n := by
  -- The layers are a schedule themselves, so only the upper bound is left.
  refine Nat.le_antisymm ?_ (count_le_timesUsed (isSchedule_layerAt hr))
  have hsub : timesUsed gates (layerAt gates n) ⊆ Finset.range (count gates n) := by
    intro layer hlayer
    rcases Finset.mem_image.mp hlayer with ⟨i, hi, rfl⟩
    exact Finset.mem_range.mpr (layerAt_lt_count (Finset.mem_range.mp hi))
  have hcard := Finset.card_le_card hsub
  rwa [Finset.card_range] at hcard

end Fewest

section Arranged

open Circuit

/-- The second list has the gates of the first one, each of them once, from its positions
    in the given order. Of two gates that share a qubit the one in front stays in front. -/
structure Arranges (order : List Nat) (a b : List (Gate R)) : Prop where
  /-- Every position of the first list comes once. -/
  perm : order.Perm (List.range a.length)
  /-- The gates of the second list are those at the positions. -/
  gates : b.map some = order.map fun i => a[i]?
  /-- The positions of gates that share a qubit come in ascending order. -/
  wires : order.Pairwise fun i j => ∀ g h, a[i]? = some g → a[j]? = some h →
    g.overlaps h = true → i < j

variable {order : List Nat} {a b : List (Gate R)}

theorem Arranges.length_order (h : Arranges order a b) : order.length = a.length := by
  rw [h.perm.length_eq, List.length_range]

/-- Both lists have equally many gates. -/
theorem Arranges.length_eq (h : Arranges order a b) : b.length = a.length := by
  have hlen := congrArg List.length h.gates
  rw [List.length_map, List.length_map, h.length_order] at hlen
  exact hlen

/-- The gate at a place is the one at its old position. -/
theorem Arranges.getElem?_eq (h : Arranges order a b) {k : Nat} (hk : k < a.length) :
    b[k]? = a[label order k]? := by
  have hget : (b.map some)[k]? = (order.map fun i => a[i]?)[k]? := by rw [h.gates]
  rw [List.getElem?_map, List.getElem?_map,
    getElem?_eq_label (by rw [h.length_order]; exact hk), Option.map_some,
    List.getElem?_eq_getElem (by rw [h.length_eq]; exact hk), Option.map_some] at hget
  rw [List.getElem?_eq_getElem (by rw [h.length_eq]; exact hk)]
  exact Option.some.inj hget

theorem Arranges.mem (h : Arranges order a b) {g : Gate R} (hg : g ∈ b) : g ∈ a := by
  rcases List.mem_iff_getElem?.mp hg with ⟨k, hk⟩
  have hlt := (List.getElem?_eq_some_iff.mp hk).1
  rw [h.getElem?_eq (h.length_eq ▸ hlt)] at hk
  exact List.mem_of_getElem? hk

/-- Where two gates that share a qubit come from. -/
theorem Arranges.label_lt (h : Arranges order a b) {k l : Nat} {f g : Gate R} (hkl : k < l)
    (hf : b[k]? = some f) (hg : b[l]? = some g) (hover : f.overlaps g = true) :
    label order k < label order l := by
  have hl : l < a.length := h.length_eq ▸ (List.getElem?_eq_some_iff.mp hg).1
  have hlo : l < order.length := by rw [h.length_order]; exact hl
  rw [h.getElem?_eq (by omega)] at hf
  rw [h.getElem?_eq hl] at hg
  rw [label_eq_getElem (by omega)] at hf ⊢
  rw [label_eq_getElem hlo] at hg ⊢
  exact List.pairwise_iff_getElem.mp h.wires k l (by omega) hlo hkl f g hf hg hover

/-- The gates of the second list have places in the first one. -/
theorem Arranges.embeds (h : Arranges order a b) : Embeds b a (label order) := by
  constructor
  · intro k hk
    exact (renaming_label h.perm).lt k (h.length_eq ▸ hk)
  · intro k l f g hkl hf hg hover
    have hl : l < a.length := h.length_eq ▸ (List.getElem?_eq_some_iff.mp hg).1
    refine ⟨h.label_lt hkl hf hg hover, f, g, ?_, ?_, hover⟩
    · rw [← h.getElem?_eq (by omega)]
      exact hf
    · rw [← h.getElem?_eq hl]
      exact hg

/-- The gates of the first list have places in the second one. -/
theorem Arranges.embeds_back (h : Arranges order a b) : Embeds a b (origin order) := by
  have hback := renaming_origin h.perm
  have hget : ∀ i, i < a.length → b[origin order i]? = a[i]? := fun i hi => by
    rw [h.getElem?_eq (hback.lt i hi), label_origin h.perm hi]
  constructor
  · intro i hi
    rw [h.length_eq]
    exact hback.lt i hi
  · intro i j f g hij hf hg hover
    have hi := (List.getElem?_eq_some_iff.mp hf).1
    have hj := (List.getElem?_eq_some_iff.mp hg).1
    refine ⟨?_, f, g, (hget i hi).trans hf, (hget j hj).trans hg, hover⟩
    -- The other order of the places would be the other order of the positions.
    rcases Nat.lt_trichotomy (origin order i) (origin order j) with hlt | heq | hgt
    · exact hlt
    · have := hback.inj i j hi hj heq
      omega
    · have hlt := h.label_lt hgt ((hget j hj).trans hg) ((hget i hi).trans hf)
        (by rw [Gate.overlaps_comm]; exact hover)
      rw [label_origin h.perm hi, label_origin h.perm hj] at hlt
      omega

/-- The layer at a place is the layer at the old position. -/
theorem layerAt_arranges (hr : ∀ g ∈ a, ∀ q ∈ g.qubits, q < n) (h : Arranges order a b)
    {k : Nat} (hk : k < a.length) : layerAt b n k = layerAt a n (label order k) := by
  have hr' : ∀ g ∈ b, ∀ q ∈ g.qubits, q < n := fun g hg => hr g (h.mem hg)
  -- The layers of either list are a schedule of the other one, and no schedule is earlier.
  refine Nat.le_antisymm ?_ ?_
  · exact layerAt_le_of_isSchedule ((isSchedule_layerAt hr).comp h.embeds)
      (h.length_eq ▸ hk)
  · have hle := layerAt_le_of_isSchedule (n := n) ((isSchedule_layerAt hr').comp h.embeds_back)
      ((renaming_label h.perm).lt k hk)
    rwa [origin_label h.perm hk] at hle

/-- Every gate has the layer in the second list that it has in the first one. -/
theorem assign_arranges (hr : ∀ g ∈ a, ∀ q ∈ g.qubits, q < n) (h : Arranges order a b) :
    assign b n = order.map (layerAt a n) := by
  refine List.ext_getElem ?_ fun k hk _ => ?_
  · rw [assign_length, List.length_map, h.length_order, h.length_eq]
  · have hlt : k < a.length := by rwa [assign_length, h.length_eq] at hk
    rw [← layerAt_eq_getElem hk, layerAt_arranges hr h hlt, List.getElem_map,
      label_eq_getElem]

/-- Both lists have equally many layers. -/
theorem count_arranges (hr : ∀ g ∈ a, ∀ q ∈ g.qubits, q < n) (h : Arranges order a b) :
    count b n = count a n := by
  have hlayers : (assign b n).Perm (assign a n) := by
    rw [assign_arranges hr h, assign_eq_map_layerAt a]
    exact h.perm.map (layerAt a n)
  exact Nat.le_antisymm (bound_le fun _ hl => lt_bound (hlayers.mem_iff.mp hl))
    (bound_le fun _ hl => lt_bound (hlayers.mem_iff.mpr hl))

end Arranged

/-- The layers of gates on the qubits of a register. Of two gates that share a qubit the
    later one is in the later layer. No schedule gives a gate an earlier time, and none
    gets by with fewer times than there are layers. In whatever order the gates are put
    that keeps the order of gates that share a qubit, each has the same layer, and without
    some of the gates there are not more layers. -/
theorem layers_earliest (hr : ∀ g ∈ gates, ∀ q ∈ g.qubits, q < n) :
    assign gates n = (List.range gates.length).map (layerAt gates n) ∧
    (∀ i j g h, i < j → gates[i]? = some g → gates[j]? = some h → g.overlaps h = true →
      layerAt gates n i < layerAt gates n j) ∧
    (∀ time, IsSchedule gates time → ∀ i < gates.length, layerAt gates n i ≤ time i) ∧
    IsLeast {m | ∃ time, IsSchedule gates time ∧ (timesUsed gates time).card = m}
      (count gates n) ∧
    (∀ order reordered, Arranges order gates reordered →
      assign reordered n = order.map (layerAt gates n)) ∧
    ∀ kept, kept.Sublist gates → count kept n ≤ count gates n := by
  refine ⟨assign_eq_map_layerAt gates n, isSchedule_layerAt hr,
    fun time hs i hi => layerAt_le_of_isSchedule hs hi,
    ⟨⟨_, isSchedule_layerAt hr, timesUsed_layerAt hr⟩, ?_⟩,
    fun order reordered h => assign_arranges hr h,
    fun kept h => count_le_of_sublist hr (h.map Gate.qubits)⟩
  rintro m ⟨time, hs, rfl⟩
  exact count_le_timesUsed hs

/-- Five gates on three qubits, and three layers. -/
def staircase : List (Gate Float) :=
  [⟨.h, [0], [], none⟩, ⟨.h, [1], [], none⟩, ⟨.cx, [0, 1], [], none⟩, ⟨.t, [2], [], none⟩,
    ⟨.x, [0], [], none⟩]

/-- The same gates with those of the first layer in front, in another order. -/
def staircaseByLayers : List (Gate Float) :=
  [⟨.t, [2], [], none⟩, ⟨.h, [1], [], none⟩, ⟨.h, [0], [], none⟩, ⟨.cx, [0, 1], [], none⟩,
    ⟨.x, [0], [], none⟩]

theorem staircase_layers_earliest :
    (∀ time, IsSchedule staircase time → 2 ≤ time 4) ∧
      assign staircaseByLayers 3 = [0, 0, 0, 1, 2] := by
  rcases @layers_earliest Float 3 staircase (by decide) with
    ⟨-, -, hearliest, -, hreordered, -⟩
  have harranges : Arranges [3, 1, 0, 2, 4] staircase staircaseByLayers := by
    refine ⟨by decide, rfl, ?_⟩
    simp [staircase, Gate.overlaps, Gate.actsOn]
  refine ⟨fun time hs => hearliest time hs 4 (by decide), ?_⟩
  rw [hreordered _ _ harranges]
  decide

end Layers

end QubitLab
