import QubitLab.Proofs.Circuit.Relabelled
import QubitLab.Proofs.Rewrite.Usage

/-!
# The busiest qubits first

What relabelling by usage is for is that afterwards the qubits are sorted by how often gates
touch them. Three orders have to agree for this. The sort puts the qubits into the order
that its comparison describes, which is `Busier`; the new label of a qubit is its position
in that order, which is the inverse of the list and not the list itself; and the usage that
is counted afterwards is counted under the new labels.

`usage_eq` says what is counted: how often a qubit occurs in the gates. A renaming that
keeps qubits apart carries the occurrences of a qubit over to its new name and adds none,
so the usage moves along with the qubit. After the relabelling the register is in the order
`Busier` already. Since no two lists of the same qubits are in that order, sorting it again
gives the register, and the second relabelling moves nothing.

## Main definitions

* `Circuit.Busier`: The order by usage, and by number where the usage is the same.

## Theorems

* `usage_eq`: The usage counts occurrences.
* `pairwise_usageOrder`, `usageOrder_eq`: The order of usage is sorted, and no other is.
* `label_usageMapping_lt_iff`: Busier qubits get smaller labels.
* `count_touched_mapQubits`: Renaming moves the usage along.
* `usageMapping_relabelled`: After relabelling the mapping is the identity.
* `relabelByUsage_sorts`: All of it in one.
-/

namespace QubitLab

namespace Circuit

variable {R : Type}

section Counting

/-- A counter has been raised once for each time that its qubit has come. -/
theorem getElem?_foldl_modify (qubits : List Nat) (counts : Array Nat) (q : Nat) :
    (qubits.foldl (fun counts p => counts.modify p (· + 1)) counts)[q]?
      = counts[q]?.map (· + qubits.count q) := by
  induction qubits generalizing counts with
  | nil => simp only [List.foldl_nil, List.count_nil, Nat.add_zero, Option.map_id']
  | cons p rest ih =>
      rw [List.foldl_cons, ih, Array.getElem?_modify, List.count_cons]
      by_cases hp : p = q
      · rw [if_pos hp, if_pos (beq_iff_eq.mpr hp), Option.map_map]
        refine congrArg (Option.map · counts[q]?) (funext fun count => ?_)
        dsimp only [Function.comp_apply]
        omega
      · rw [if_neg hp, if_neg fun h => hp (beq_iff_eq.mp h), Nat.add_zero]

/-- The usage of a qubit is how often it occurs in the gates. -/
theorem usage_eq (c : Circuit R) :
    c.usage = (List.range c.numQubits).map fun q => c.touched.count q := by
  refine List.ext_getElem? fun q => ?_
  rw [usage, Array.getElem?_toList, getElem?_foldl_modify, Array.getElem?_replicate,
    List.getElem?_map]
  by_cases hq : q < c.numQubits
  · rw [if_pos hq, List.getElem?_range hq, Option.map_some, Option.map_some, Nat.zero_add]
  · rw [if_neg hq, List.getElem?_eq_none (by rw [List.length_range]; omega), Option.map_none,
      Option.map_none]

/-- The entry of a qubit of the register is the number of its occurrences. -/
theorem getElem?_usage_eq_some {c : Circuit R} {q count : Nat} :
    c.usage[q]? = some count ↔ q < c.numQubits ∧ c.touched.count q = count := by
  rw [usage_eq, List.getElem?_map, Option.map_eq_some_iff]
  constructor
  · rintro ⟨p, hp, rfl⟩
    rcases List.getElem?_eq_some_iff.mp hp with ⟨hlt, rfl⟩
    rw [List.length_range] at hlt
    exact ⟨hlt, by rw [List.getElem_range]⟩
  · rintro ⟨hq, rfl⟩
    exact ⟨q, List.getElem?_range hq, rfl⟩

/-- The touched qubits are renamed with the gates. -/
theorem touched_mapQubits (f : Nat → Nat) (c : Circuit R) :
    (c.mapQubits f).touched = c.touched.map f := by
  rw [touched, mapQubits_gates, List.flatMap_map, touched, List.map_flatMap]
  rfl

/-- A qubit is touched under its new name as often as under its old one. -/
theorem count_touched_mapQubits {c : Circuit R} (hc : c.Placed) {f : Nat → Nat}
    (hf : Gate.Renaming c.numQubits f) {q : Nat} (hq : q < c.numQubits) :
    (c.mapQubits f).touched.count (f q) = c.touched.count q := by
  rw [touched_mapQubits, List.count, List.countP_map, List.count]
  refine List.countP_congr fun p hp => ?_
  rcases List.mem_flatMap.mp hp with ⟨g, hg, hp⟩
  have hinj := hf.inj p q ((hc.1 g hg).1 p hp) hq
  rw [Function.comp_apply, beq_iff_eq, beq_iff_eq]
  exact ⟨hinj, congrArg f⟩

end Counting

section Order

/-- The first qubit is touched more often than the second one, or as often, and then it has
    the smaller number. -/
def Busier (c : Circuit R) (a b : Nat) : Prop :=
  c.touched.count b < c.touched.count a ∨ c.touched.count a = c.touched.count b ∧ a < b

theorem Busier.asymm {c : Circuit R} {a b : Nat} (h : c.Busier a b) : ¬ c.Busier b a := by
  unfold Busier at *
  omega

/-- The sort compares by usage, the larger one first, and then by number. -/
theorem comesFirst_iff (a b : Nat × Nat) :
    comesFirst a b = true ↔ b.1 < a.1 ∨ a.1 = b.1 ∧ a.2 ≤ b.2 := by
  simp only [comesFirst, Bool.or_eq_true, Bool.and_eq_true, decide_eq_true_eq, beq_iff_eq]

/-- The order of usage is sorted. -/
theorem pairwise_usageOrder (c : Circuit R) : c.usageOrder.Pairwise c.Busier := by
  have hsorted : (c.usage.zipIdx.mergeSort comesFirst).Pairwise
      fun a b => comesFirst a b = true := by
    refine List.pairwise_mergeSort (fun a b d => ?_) (fun a b => ?_) _
    · simp only [comesFirst_iff]
      omega
    · rw [Bool.or_eq_true, comesFirst_iff, comesFirst_iff]
      omega
  -- The comparison holds of equal pairs too, so that they differ is a fact of its own.
  have hdistinct : c.usageOrder.Nodup :=
    c.usageOrder_perm.nodup_iff.mpr List.nodup_range
  rw [usageOrder, List.Nodup, List.pairwise_map] at hdistinct
  rw [usageOrder, List.pairwise_map]
  refine (hsorted.and hdistinct).imp_of_mem fun {a b} ha hb hab => ?_
  -- What is sorted are the qubits paired with their usage.
  have hcount : ∀ p ∈ c.usage.zipIdx.mergeSort comesFirst, c.touched.count p.2 = p.1 :=
    fun p hp => (getElem?_usage_eq_some.mp
      (List.mem_zipIdx_iff_getElem?.mp (List.mem_mergeSort.mp hp))).2
  rw [comesFirst_iff, ← hcount a ha, ← hcount b hb] at hab
  unfold Busier
  omega

/-- The order of usage is the only one that is sorted. -/
theorem usageOrder_eq {c : Circuit R} {order : List Nat}
    (hperm : order.Perm (List.range c.numQubits)) (hsorted : order.Pairwise c.Busier) :
    c.usageOrder = order :=
  (c.usageOrder_perm.trans hperm.symm).eq_of_pairwise
    (fun _ _ _ _ hab hba => absurd hba hab.asymm) c.pairwise_usageOrder hsorted

/-- A register whose usage never increases is in order already. -/
theorem usageOrder_eq_range {c : Circuit R}
    (h : ∀ a b, a < b → b < c.numQubits → c.touched.count b ≤ c.touched.count a) :
    c.usageOrder = List.range c.numQubits := by
  refine usageOrder_eq (List.Perm.refl _) ?_
  refine List.pairwise_lt_range.imp_of_mem fun {a b} _ hb hab => ?_
  have := h a b hab (List.mem_range.mp hb)
  unfold Busier
  omega

/-- The new label of a qubit is its position in the order of usage. -/
theorem usageMapping_eq_inverse (c : Circuit R) : c.usageMapping = inverse c.usageOrder := by
  rw [inverse, c.usageOrder_perm.length_eq, List.length_range]
  rfl

/-- Of two qubits the busier one gets the smaller label. -/
theorem label_usageMapping_lt_iff {c : Circuit R} {a b : Nat} (ha : a < c.numQubits)
    (hb : b < c.numQubits) :
    label c.usageMapping a < label c.usageMapping b ↔ c.Busier a b := by
  have hperm := c.usageOrder_perm
  rw [usageMapping_eq_inverse, label_inverse hperm ha, label_inverse hperm hb]
  have hlt : ∀ q, q < c.numQubits → origin c.usageOrder q < c.usageOrder.length := fun q hq => by
    rw [hperm.length_eq, List.length_range]
    exact (renaming_origin hperm).lt q hq
  have hbusier : ∀ p q, p < c.numQubits → q < c.numQubits →
      origin c.usageOrder p < origin c.usageOrder q → c.Busier p q := by
    intro p q hp hq hpq
    have h := List.pairwise_iff_getElem.mp c.pairwise_usageOrder _ _ (hlt p hp) (hlt q hq) hpq
    rwa [← label_eq_getElem, ← label_eq_getElem, label_origin hperm hp,
      label_origin hperm hq] at h
  refine ⟨hbusier a b ha hb, fun h => ?_⟩
  -- Of two different positions one is in front, and it belongs to the busier qubit.
  rcases Nat.lt_trichotomy (origin c.usageOrder a) (origin c.usageOrder b) with hab | hab | hab
  · exact hab
  · obtain rfl := (renaming_origin hperm).inj a b ha hb hab
    exact absurd h h.asymm
  · exact absurd h (hbusier b a hb ha hab).asymm

end Order

section Relabelling

open Transition

variable {c d : Circuit R} {mapping : List Nat}

/-- The usage has moved along with the qubits. -/
theorem usage_relabelled (hc : c.Placed) {q : Nat} (hq : q < c.numQubits) :
    (c.mapQubits (label c.usageMapping)).touched.count (label c.usageMapping q)
      = c.touched.count q :=
  count_touched_mapQubits hc (renaming_label c.usageMapping_perm) hq

/-- So it never increases along the register. -/
theorem usage_relabelled_le (hc : c.Placed) {a b : Nat} (hab : a < b) (hb : b < c.numQubits) :
    (c.mapQubits (label c.usageMapping)).touched.count b
      ≤ (c.mapQubits (label c.usageMapping)).touched.count a := by
  have hperm := c.usageMapping_perm
  have hback := renaming_origin hperm
  have ha : a < c.numQubits := by omega
  -- Go back to the qubits that the labels belong to.
  rw [← label_origin hperm ha, ← label_origin hperm hb] at hab ⊢
  rw [usage_relabelled hc (hback.lt a ha), usage_relabelled hc (hback.lt b hb)]
  rcases (label_usageMapping_lt_iff (hback.lt a ha) (hback.lt b hb)).mp hab with hlt | ⟨heq, -⟩
  · omega
  · omega

/-- After relabelling the mapping is the identity. -/
theorem usageMapping_relabelled (hc : c.Placed) :
    (c.mapQubits (label c.usageMapping)).usageMapping = List.range c.numQubits := by
  have horder : (c.mapQubits (label c.usageMapping)).usageOrder = List.range c.numQubits :=
    usageOrder_eq_range fun _ _ hab hb => usage_relabelled_le hc hab hb
  rw [usageMapping_eq_inverse, horder, inverse, List.length_range]
  refine (List.map_congr_left fun q hq => ?_).trans (List.map_id _)
  have hq := List.mem_range.mp hq
  have hself := origin_label (List.Perm.refl (List.range c.numQubits)) hq
  rwa [label_range hq] at hself

/-- The usage mapping is a permutation of the register that gives busier qubits smaller
    labels, and equally busy ones labels in their order. When a circuit is relabelled by it,
    the usage of a qubit is found at its new label, so the register is sorted by usage. The
    mapping of the circuit is then the identity, and relabelling it again does nothing. -/
theorem relabelByUsage_sorts (c : Circuit R) :
    c.usageMapping.Perm (List.range c.numQubits) ∧
    (∀ a b u v, c.usage[a]? = some u → c.usage[b]? = some v →
      (label c.usageMapping a < label c.usageMapping b ↔ v < u ∨ u = v ∧ a < b)) ∧
    ∀ mapping d, Answers relabelByUsage c mapping d →
      mapping = c.usageMapping ∧
      (∀ q, q < c.numQubits → d.usage[label mapping q]? = c.usage[q]?) ∧
      d.usage.Pairwise (· ≥ ·) ∧
      d.usageMapping = List.range d.numQubits ∧
      Answers relabelByUsage d (List.range d.numQubits) d := by
  have hf := renaming_label c.usageMapping_perm
  refine ⟨c.usageMapping_perm, fun a b u v ha hb => ?_, fun mapping d h => ?_⟩
  · rcases getElem?_usage_eq_some.mp ha with ⟨halt, rfl⟩
    rcases getElem?_usage_eq_some.mp hb with ⟨hblt, rfl⟩
    exact label_usageMapping_lt_iff halt hblt
  · rcases (answers_relabelByUsage_iff c d mapping).mp h with ⟨hc, rfl, rfl⟩
    have hmapping := usageMapping_relabelled hc
    refine ⟨rfl, fun q hq => ?_, ?_, hmapping, ?_⟩
    · have hnew : (c.mapQubits (label c.usageMapping)).usage[label c.usageMapping q]?
          = some (c.touched.count q) :=
        getElem?_usage_eq_some.mpr ⟨hf.lt q hq, usage_relabelled hc hq⟩
      rw [hnew, getElem?_usage_eq_some.mpr ⟨hq, rfl⟩]
    · rw [usage_eq, List.pairwise_map]
      exact List.pairwise_lt_range.imp_of_mem fun _ hb hab =>
        usage_relabelled_le hc hab (List.mem_range.mp hb)
    · refine (answers_relabelByUsage_iff _ _ _).mpr ⟨hc.mapQubits hf, hmapping.symm, ?_⟩
      rw [hmapping]
      exact ((hc.mapQubits hf).mapQubits_eq_self fun q hq => label_range hq).symm

/-- Two of the four qubits are used, equally often. -/
def halfUsed : Circuit Float where
  numQubits := 4
  numClbits := 1
  gates := [⟨.h, [1], [], none⟩, ⟨.h, [3], [], none⟩]
  measurements := [(3, 0)]
  name := none

/-- The labels go round in a circle, so that the mapping is not its own inverse. -/
theorem halfUsed_sorted :
    ∃ d, Answers relabelByUsage halfUsed [2, 0, 3, 1] d ∧ d.usage.Pairwise (· ≥ ·) ∧
      Answers relabelByUsage d [0, 1, 2, 3] d := by
  have horder : halfUsed.usageOrder = [1, 3, 0, 2] :=
    usageOrder_eq (by decide) (by unfold Busier; decide)
  have hmapping : [2, 0, 3, 1] = halfUsed.usageMapping := by
    rw [usageMapping_eq_inverse, horder]
    decide
  have h := (answers_relabelByUsage_iff halfUsed _ _).mpr
    ⟨by unfold Placed; decide, hmapping, rfl⟩
  rcases (relabelByUsage_sorts halfUsed).2.2 _ _ h with ⟨-, -, hsorted, -, hagain⟩
  exact ⟨_, h, hsorted, hagain⟩

end Relabelling

end Circuit

end QubitLab
