import QubitLab.Proofs.Circuit.Earliest
import QubitLab.Proofs.Rewrite.Reordering

/-!
# The order that layering gives

The two passes that reorder put every gate of a list into the new one, and keep two gates
in their order that share a qubit. For bubbling this is what its exchanges of neighbours
come to. Layering is not done by exchanges: it looks the gates up at positions that are
collected layer by layer, and what it does is to be read off the list of these positions.

`pairwise_group` says how that list is ordered, by layers first and then by positions.
Everything follows from it. No position comes twice in an ordered list, so the positions
are all positions. A gate that shares a qubit with a later one has the smaller layer, so
the two stay in order. And if the layers never decrease along a list, the order of the
positions is the one that they have already, so layering for a second time does nothing.

## Main definitions

* `Layers.Precedes`: The order by layers, and by positions within a layer.
* `Rewrite.Stacked`: The gates of a list stand layer by layer.

## Theorems

* `pairwise_group`, `group_perm`: The positions that layering collects.
* `Reorders.arranges`, `Reorders.filter_actsOn`: What exchanges of neighbours come to, as
  an order of positions and on every wire.
* `layer_arranges`, `layer_stacked`: What layering does on the qubits of a register.
* `layer_layer`: A second layering changes nothing.
* `reordering_keeps_wires`: Both passes in one.
-/

namespace QubitLab

namespace Layers

variable {R : Type} {n : Nat} {gates : List (Gate R)}

/-- The positions of a layer are those whose entry is the layer. -/
theorem mem_positions {layers : List Nat} {layer i : Nat} :
    i ∈ positions layers layer ↔ layers[i]? = some layer := by
  simp only [positions, List.mem_map, List.mem_filter, List.mem_zipIdx_iff_getElem?,
    beq_iff_eq]
  constructor
  · rintro ⟨p, ⟨hp, rfl⟩, rfl⟩
    exact hp
  · intro h
    exact ⟨(layer, i), ⟨h, rfl⟩, rfl⟩

/-- The positions of a layer are in ascending order. -/
theorem pairwise_positions (layers : List Nat) (layer : Nat) :
    (positions layers layer).Pairwise (· < ·) := by
  have hall : (layers.zipIdx.map Prod.snd).Pairwise (· < ·) := by
    rw [List.zipIdx_map_snd]
    exact List.pairwise_lt_range' 1
  exact hall.sublist (List.filter_sublist.map Prod.snd)

theorem mem_positions_assign {layer i : Nat} :
    i ∈ positions (assign gates n) layer ↔ i < gates.length ∧ layerAt gates n i = layer := by
  rw [mem_positions, List.getElem?_eq_some_iff, ← assign_length gates n]
  constructor
  · rintro ⟨hi, rfl⟩
    exact ⟨hi, layerAt_eq_getElem hi⟩
  · rintro ⟨hi, rfl⟩
    exact ⟨hi, (layerAt_eq_getElem hi).symm⟩

/-- The first position has the smaller layer, or it has the same and is the smaller one. -/
def Precedes (gates : List (Gate R)) (n i j : Nat) : Prop :=
  layerAt gates n i < layerAt gates n j ∨ layerAt gates n i = layerAt gates n j ∧ i < j

theorem Precedes.ne {i j : Nat} (h : Precedes gates n i j) : i ≠ j := by
  rintro rfl
  rcases h with h | ⟨-, h⟩
  · exact Nat.lt_irrefl _ h
  · exact Nat.lt_irrefl _ h

theorem Precedes.asymm {i j : Nat} (h : Precedes gates n i j) : ¬ Precedes gates n j i := by
  unfold Precedes at *
  omega

/-- The positions come by layers, and in ascending order within a layer. -/
theorem pairwise_group (gates : List (Gate R)) (n : Nat) :
    (group gates n).flatten.Pairwise (Precedes gates n) := by
  rw [group, List.pairwise_flatten, List.pairwise_map]
  constructor
  · intro layer hlayer
    rcases List.mem_map.mp hlayer with ⟨k, -, rfl⟩
    refine (pairwise_positions _ k).imp_of_mem fun hi hj hij => ?_
    rw [mem_positions_assign] at hi hj
    exact Or.inr ⟨hi.2.trans hj.2.symm, hij⟩
  · -- Positions from two layers are ordered by these alone.
    refine List.pairwise_lt_range.imp fun hkl i hi j hj => ?_
    rw [mem_positions_assign] at hi hj
    rw [← hi.2, ← hj.2] at hkl
    exact Or.inl hkl

/-- Every position is collected, and no other number. -/
theorem mem_group {i : Nat} : i ∈ (group gates n).flatten ↔ i < gates.length := by
  simp only [group, List.mem_flatten, List.mem_map, List.mem_range]
  constructor
  · rintro ⟨_, ⟨k, -, rfl⟩, hi⟩
    exact (mem_positions_assign.mp hi).1
  · intro hi
    exact ⟨_, ⟨layerAt gates n i, layerAt_lt_count hi, rfl⟩, mem_positions_assign.mpr ⟨hi, rfl⟩⟩

/-- Layering collects each position once. -/
theorem group_perm (gates : List (Gate R)) (n : Nat) :
    (group gates n).flatten.Perm (List.range gates.length) := by
  have hnodup : (group gates n).flatten.Nodup := (pairwise_group gates n).imp Precedes.ne
  refine (List.perm_ext_iff_of_nodup hnodup List.nodup_range).mpr fun i => ?_
  rw [mem_group, List.mem_range]

/-- Where the layers never decrease, the positions are in order. -/
theorem group_eq_range
    (h : ∀ i j, i < j → j < gates.length → layerAt gates n i ≤ layerAt gates n j) :
    (group gates n).flatten = List.range gates.length := by
  -- Both are sorted by `Precedes`, which no two lists of the same positions are.
  have hrange : (List.range gates.length).Pairwise (Precedes gates n) := by
    refine List.pairwise_lt_range.imp_of_mem fun _ hj hij => ?_
    rcases Nat.lt_or_eq_of_le (h _ _ hij (List.mem_range.mp hj)) with hlt | heq
    · exact Or.inl hlt
    · exact Or.inr ⟨heq, hij⟩
  exact (group_perm gates n).eq_of_pairwise
    (fun _ _ _ _ hij hji => absurd hji hij.asymm) (pairwise_group gates n) hrange

end Layers

namespace Rewrite

open Layers Circuit

variable {R : Type} {n : Nat}

section Positions

variable {α : Type}

theorem map_getElem?_range (l : List α) :
    ((List.range l.length).map fun i => l[i]?) = l.map some := by
  refine List.ext_getElem (by rw [List.length_map, List.length_map, List.length_range]) ?_
  intro i hi _
  rw [List.length_map, List.length_range] at hi
  rw [List.getElem_map, List.getElem_range, List.getElem_map, List.getElem?_eq_getElem hi]

/-- A look-up at positions that are there loses none of them. -/
theorem map_some_filterMap {l : List α} {order : List Nat} (h : ∀ i ∈ order, i < l.length) :
    (order.filterMap fun i => l[i]?).map some = order.map fun i => l[i]? := by
  induction order with
  | nil => rfl
  | cons i rest ih =>
      have hget := List.getElem?_eq_getElem (h i List.mem_cons_self)
      rw [List.filterMap_cons_some hget, List.map_cons, List.map_cons, hget,
        ih fun j hj => h j (List.mem_cons_of_mem i hj)]

/-- What is taken from all positions, in some order, is a permutation. -/
theorem perm_of_map_some {a b : List α} {order : List Nat}
    (hperm : order.Perm (List.range a.length))
    (hitems : b.map some = order.map fun i => a[i]?) : b.Perm a := by
  have h := hperm.map fun i => a[i]?
  rw [← hitems, map_getElem?_range] at h
  exact (List.map_perm_map_iff (Option.some_injective _)).mp h

/-- Exchanges of neighbours put the gates into some order of positions. -/
theorem Reorders.arranges {a b : List (Gate R)} (h : Reorders a b) :
    ∃ order, Arranges order a b := by
  rcases h.rearranged with ⟨σ, hσ, hord⟩
  have hlen := h.perm.length_eq
  refine ⟨(List.range a.length).map σ, perm_range_of_nodup ?_ ?_ ?_, ?_, ?_⟩
  · rw [List.length_map, List.length_range]
  · intro i hi
    rcases List.mem_map.mp hi with ⟨k, hk, rfl⟩
    -- The gate at a place of the new list comes from a place of the old one.
    have hget := List.getElem?_eq_getElem (hlen ▸ List.mem_range.mp hk)
    rw [hσ] at hget
    exact (List.getElem?_eq_some_iff.mp hget).1
  · exact List.nodup_range.map σ.injective
  · rw [List.map_map, hlen, ← map_getElem?_range b]
    exact List.map_congr_left fun k _ => hσ k
  · rw [List.pairwise_map]
    refine List.pairwise_lt_range.imp fun hkl f g hf hg hover => ?_
    exact hord _ _ f g hkl ((hσ _).trans hf) ((hσ _).trans hg) hover

/-- What a single wire sees of the gates is the same after exchanges of neighbours. -/
theorem Reorders.filter_actsOn {a b : List (Gate R)} (h : Reorders a b) (q : Nat) :
    (b.filter fun g => g.actsOn q) = a.filter fun g => g.actsOn q := by
  induction h with
  | refl a => rfl
  | swap before g h after hd =>
      -- At most one of the two neighbours is on the wire.
      have hone : g.actsOn q = true → h.actsOn q = false := fun hg => by
        rw [← Bool.not_eq_true]
        intro hh
        have hover : g.overlaps h = true := (Gate.overlaps_iff g h).mpr
          ⟨q, (Gate.actsOn_iff g q).mp hg, (Gate.actsOn_iff h q).mp hh⟩
        rw [hd] at hover
        exact Bool.false_ne_true hover
      rw [List.filter_append, List.filter_append]
      by_cases hg : g.actsOn q = true
      · simp [hg, hone hg]
      · simp [List.filter_cons, hg]
  | trans _ _ ih1 ih2 => exact ih2.trans ih1

end Positions

section Layering

variable {gates : List (Gate R)}

/-- The gates after layering are those at the positions that it has collected. -/
theorem map_some_layer (gates : List (Gate R)) (n : Nat) :
    (layer gates n).1.map some = (group gates n).flatten.map fun i => gates[i]? :=
  map_some_filterMap fun _ hi => mem_group.mp hi

/-- Layering answers with the number of layers. -/
theorem layer_snd (gates : List (Gate R)) (n : Nat) : (layer gates n).2 = count gates n := by
  rw [layer, group, List.length_map, List.length_range, count]

/-- Layering takes the gates from the positions that it has collected. -/
theorem layer_arranges (hr : ∀ g ∈ gates, ∀ q ∈ g.qubits, q < n) :
    Arranges (group gates n).flatten gates (layer gates n).1 := by
  refine ⟨group_perm gates n, map_some_layer gates n, ?_⟩
  refine (pairwise_group gates n).imp fun hij f g hf hg hover => ?_
  -- In the other order the layers would be in the other order as well.
  rcases hij with hlayer | ⟨-, hij⟩
  · by_contra hle
    rcases Nat.lt_or_eq_of_le (Nat.not_lt.mp hle) with hlt | rfl
    · have hback := isSchedule_layerAt hr _ _ g f hlt hg hf
        (by rw [Gate.overlaps_comm]; exact hover)
      omega
    · exact Nat.lt_irrefl _ hlayer
  · exact hij

/-- The layers never decrease along the list. Two gates of one layer share no qubit, and
    they stand in the order of the positions that they are taken from. -/
def Stacked (n : Nat) (order : List Nat) (gates : List (Gate R)) : Prop :=
  ∀ k l g h, k < l → gates[k]? = some g → gates[l]? = some h →
    layerAt gates n k ≤ layerAt gates n l ∧
      (layerAt gates n k = layerAt gates n l →
        g.overlaps h = false ∧ label order k < label order l)

/-- After layering the gates stand layer by layer. -/
theorem layer_stacked (hr : ∀ g ∈ gates, ∀ q ∈ g.qubits, q < n) :
    Stacked n (group gates n).flatten (layer gates n).1 := by
  have harr := layer_arranges hr
  intro k l g h hkl hg hh
  have hl : l < gates.length := harr.length_eq ▸ (List.getElem?_eq_some_iff.mp hh).1
  have hlo : l < (group gates n).flatten.length := by rwa [harr.length_order]
  have hprecedes := List.pairwise_iff_getElem.mp (pairwise_group gates n) k l (by omega) hlo hkl
  rw [← label_eq_getElem, ← label_eq_getElem, Precedes,
    ← layerAt_arranges hr harr (by omega), ← layerAt_arranges hr harr hl] at hprecedes
  refine ⟨by omega, fun hlayer => ⟨?_, by omega⟩⟩
  -- Gates that share a qubit are in different layers.
  rw [← Bool.not_eq_true]
  intro hover
  have hlt := isSchedule_layerAt (fun f hf => hr f (harr.mem hf)) k l g h hkl hg hh hover
  omega

/-- A second layering changes nothing. -/
theorem layer_layer (hr : ∀ g ∈ gates, ∀ q ∈ g.qubits, q < n) :
    layer (layer gates n).1 n = layer gates n := by
  -- The layers of the new list never decrease, so it is taken as it stands.
  have hrange : (group (layer gates n).1 n).flatten = List.range (layer gates n).1.length := by
    refine group_eq_range fun i j hij hj => ?_
    exact (layer_stacked hr i j _ _ hij (List.getElem?_eq_getElem (by omega))
      (List.getElem?_eq_getElem hj)).1
  refine Prod.ext ?_ ?_
  · have hgates := map_some_layer (layer gates n).1 n
    rw [hrange, map_getElem?_range] at hgates
    exact List.map_injective_iff.mpr (Option.some_injective _) hgates
  · rw [layer_snd, layer_snd, count_arranges hr (layer_arranges hr)]

end Layering

/-- Bubbling and layering give the gates of a list in another order. Bubbling keeps the
    order of gates that share a qubit, and with it the gates on every wire. On gates that
    are on the qubits of a register so does layering, which then answers with the number of
    layers, leaves the gates layer by layer and in their old order within a layer, and
    changes nothing when it is done again. -/
theorem reordering_keeps_wires (gates : List (Gate R)) (n : Nat) :
    (bubble gates).1.Perm gates ∧
    (∃ order, Arranges order gates (bubble gates).1) ∧
    (∀ q, ((bubble gates).1.filter fun g => g.actsOn q) = gates.filter fun g => g.actsOn q) ∧
    (layer gates n).1.Perm gates ∧
    ((∀ g ∈ gates, ∀ q ∈ g.qubits, q < n) →
      Arranges (group gates n).flatten gates (layer gates n).1 ∧
      (∀ q, ((layer gates n).1.filter fun g => g.actsOn q)
        = gates.filter fun g => g.actsOn q) ∧
      (layer gates n).2 = count gates n ∧
      Stacked n (group gates n).flatten (layer gates n).1 ∧
      layer (layer gates n).1 n = layer gates n) := by
  have hbubble := bubble_reorders gates
  refine ⟨hbubble.perm.symm, hbubble.arranges, hbubble.filter_actsOn,
    perm_of_map_some (group_perm gates n) (map_some_layer gates n), fun hr => ?_⟩
  exact ⟨layer_arranges hr, (layer_reorders hr).filter_actsOn, layer_snd gates n,
    layer_stacked hr, layer_layer hr⟩

/-- The fourth gate of `staircase` is on a wire of its own, and moves to the first layer. -/
theorem staircase_keeps_wires :
    Arranges [0, 1, 3, 2, 4] staircase (layer staircase 3).1 ∧ (layer staircase 3).2 = 3 ∧
      layer (layer staircase 3).1 3 = layer staircase 3 := by
  rcases reordering_keeps_wires staircase 3 with ⟨-, -, -, -, hlayer⟩
  rcases hlayer (by decide) with ⟨harranges, -, hcount, -, hagain⟩
  have hgroup : (group staircase 3).flatten = [0, 1, 3, 2, 4] := by decide
  rw [hgroup] at harranges
  exact ⟨harranges, hcount.trans (by decide), hagain⟩

end Rewrite

end QubitLab
