import QubitLab.Proofs.Rewrite.Meaning

/-!
# The pass that cancels

The scan looks at one position after the other, and after taking a pair out it goes
back. Two facts about it are proved here: it keeps the meaning of the gates, and
when it ends there is no pair left to take out. The first one holds of pairs that are
taken out in any order, and all that is asked of the scan is that it takes out pairs.

The second fact rests on how far the scan goes back. While it stands at a position,
no pair that starts before this position can be taken out. Taking a pair out can
only give a new partner to a gate whose next neighbour was one of the two. Such a
gate stands before the first gate of the pair, touches one of its qubits, and is the
last one to do so. The earliest of these gates is where the scan goes back to, so
the gates before that have kept their neighbours. `settledBelow_removePair` is this
step, and the invariant of the scan is that it holds at every position.

## Main definitions

* `Rewrite.Cancels`: The kinds of two gates undo each other.
* `Rewrite.skip`, `Rewrite.lift`: The old position after one item or a pair was taken out.
* `Rewrite.Deletes`, `Rewrite.Deletions`: A pair is taken out, and so many pairs are.

## Theorems

* `partner?_eq_some`: What the pass looks for.
* `exists_between_of_lt_earliest`: A gate before the position that the scan goes
  back to has another gate behind it on each wire of the pair.
* `settledBelow_removePair`: Going back that far is enough.
* `cancel_settled`: Nothing is left to cancel.
* `Deletions.length`, `Deletions.sublist`, `Deletions.sameMeaning`: What holds of any pairs that
  are taken out.
* `cancelFrom_deletions`: The scan takes pairs out, and counts the gates.
* `cancel_sameMeaning`: The meaning is kept.
* `cancel_of_settled`: A list without such pairs is left alone.
-/

namespace QubitLab

namespace Rewrite

universe u

variable {R : Type}

/-- The kinds of two gates undo each other. -/
def Cancels (g h : Gate R) : Prop := g.kind.cancels h.kind = true

/-- The pass looks for the next neighbour, and takes it when the two undo each other. -/
theorem partner?_eq_some (gates : List (Gate R)) (i j : Nat) (qubits : List Nat) :
    partner? gates i = some (j, qubits) ↔
      ∃ g h, WireAdjacent gates i j g h ∧ Cancels g h ∧ g.qubits = qubits := by
  unfold partner? areInverse Cancels
  simp only [Option.bind_eq_bind, Option.bind_eq_some_iff, nextOnWires?_eq_some]
  constructor
  · -- The search and the test that follows it look at the same two gates.
    rintro ⟨j', ⟨hij, g, h, hg, hh, hover, hmin⟩, g', hg', h', hh', hif⟩
    rw [hg, Option.some.injEq] at hg'
    rw [hh, Option.some.injEq] at hh'
    subst hg' hh'
    by_cases hinv : (g.qubits == h.qubits && g.kind.cancels h.kind) = true
    · rw [if_pos hinv, Option.some.injEq, Prod.mk.injEq] at hif
      rcases hif with ⟨rfl, rfl⟩
      rw [Bool.and_eq_true, beq_iff_eq] at hinv
      exact ⟨g, h, ⟨hij, hg, hh, hover, hmin, hinv.1⟩, hinv.2, rfl⟩
    · rw [if_neg hinv] at hif
      exact absurd hif (by simp only [reduceCtorEq, not_false_eq_true])
  · rintro ⟨g, h, hadj, hc, rfl⟩
    refine ⟨j, ⟨hadj.lt, g, h, hadj.left, hadj.right, hadj.shared, hadj.between⟩,
      g, hadj.left, h, hadj.right, ?_⟩
    rw [hadj.same, beq_self_eq_true, hc]
    rfl

theorem not_cancels_of_partner?_eq_none {gates : List (Gate R)} {i : Nat}
    (hn : partner? gates i = none) :
    ∀ j g h, WireAdjacent gates i j g h → ¬ Cancels g h := by
  intro j g h hadj hc
  have hsome := (partner?_eq_some gates i j g.qubits).mpr ⟨g, h, hadj, hc, rfl⟩
  rw [hn] at hsome
  exact absurd hsome (by simp only [reduceCtorEq, not_false_eq_true])

section Back

/-- A gate on a wire is at or before the last one that the search finds there. -/
theorem lastOnWire?_spec (gates : List (Gate R)) (i q k : Nat) (g : Gate R) (hk : k < i)
    (hg : gates[k]? = some g) (hq : q ∈ g.qubits) :
    ∃ m f, lastOnWire? gates i q = some m ∧ k ≤ m ∧ m < i ∧ gates[m]? = some f ∧
      q ∈ f.qubits := by
  have hmem : (g, k) ∈ (gates.take i).zipIdx.reverse := by
    rw [List.mem_reverse, List.mem_zipIdx_iff_getElem?, List.getElem?_take, if_pos hk]
    exact hg
  -- The search runs backwards, so the first hit is the latest gate.
  have hord : (gates.take i).zipIdx.reverse.Pairwise fun a b => b.2 < a.2 := by
    have hlt : ((gates.take i).zipIdx.map Prod.snd).Pairwise (· < ·) := by
      rw [List.zipIdx_map_snd]
      exact List.pairwise_lt_range' 1 Nat.one_pos
    exact List.pairwise_reverse.mpr (List.pairwise_map.mp hlt)
  cases hfind : (gates.take i).zipIdx.reverse.find? fun p => p.1.actsOn q with
  | none =>
      have := List.find?_eq_none.mp hfind (g, k) hmem
      exact absurd ((Gate.actsOn_iff g q).mpr hq) this
  | some p =>
      rcases List.find?_eq_some_iff_append.mp hfind with ⟨hp, before, after, hsplit, hnot⟩
      have hpmem : p ∈ (gates.take i).zipIdx.reverse := List.mem_of_find?_eq_some hfind
      rw [List.mem_reverse, List.mem_zipIdx_iff_getElem?, List.getElem?_take] at hpmem
      by_cases hpi : p.2 < i
      · rw [if_pos hpi] at hpmem
        refine ⟨p.2, p.1, ?_, ?_, hpi, hpmem, (Gate.actsOn_iff _ _).mp hp⟩
        · rw [lastOnWire?, hfind, Option.map_some]
        · -- Nothing in front of the hit touches the qubit, so the gate is behind it.
          rw [hsplit] at hmem hord
          rcases List.mem_append.mp hmem with hb | ha
          · have := hnot (g, k) hb
            rw [(Gate.actsOn_iff g q).mpr hq] at this
            exact absurd this (by simp only [Bool.not_true, Bool.false_eq_true,
              not_false_eq_true])
          · rcases List.mem_cons.mp ha with heq | ha
            · exact Nat.le_of_eq (congrArg Prod.snd heq)
            · have := (List.pairwise_cons.mp (List.pairwise_append.mp hord).2.1).1 (g, k) ha
              exact Nat.le_of_lt this
      · rw [if_neg hpi] at hpmem
        exact absurd hpmem (by simp only [reduceCtorEq, not_false_eq_true])

/-- The scan goes back and never forward. -/
theorem earliestNeighbour?_le (gates : List (Gate R)) (i : Nat) (qubits : List Nat) :
    (earliestNeighbour? gates i qubits).getD i ≤ i := by
  unfold earliestNeighbour?
  cases hmin : (qubits.filterMap (lastOnWire? gates i)).min? with
  | none => exact Nat.le_refl i
  | some e =>
      rcases List.mem_filterMap.mp (List.min?_eq_some_iff.mp hmin).1 with ⟨q, -, hlast⟩
      rw [lastOnWire?, Option.map_eq_some_iff] at hlast
      rcases hlast with ⟨p, hp, rfl⟩
      have hmem := List.mem_of_find?_eq_some hp
      rw [List.mem_reverse, List.mem_zipIdx_iff_getElem?] at hmem
      have hlt := (List.getElem?_eq_some_iff.mp hmem).1
      rw [List.length_take] at hlt
      rw [Option.getD_some]
      omega

/-- A gate on a wire of the pair that stands before the position that the scan goes
    back to is not the last one on this wire. -/
theorem exists_between_of_lt_earliest {gates : List (Gate R)} {i k q : Nat}
    {qubits : List Nat} {g : Gate R}
    (hk : k < (earliestNeighbour? gates i qubits).getD i) (hq : q ∈ qubits)
    (hg : gates[k]? = some g) (hgq : q ∈ g.qubits) :
    ∃ m f, k < m ∧ m < i ∧ gates[m]? = some f ∧ q ∈ f.qubits := by
  have hki : k < i := Nat.lt_of_lt_of_le hk (earliestNeighbour?_le gates i qubits)
  rcases lastOnWire?_spec gates i q k g hki hg hgq with ⟨m, f, hlast, hkm, hmi, hf, hfq⟩
  -- The last gate before `i` on the common wire is among those whose least place is taken.
  have hmem : m ∈ qubits.filterMap (lastOnWire? gates i) :=
    List.mem_filterMap.mpr ⟨q, hq, hlast⟩
  refine ⟨m, f, ?_, hmi, hf, hfq⟩
  unfold earliestNeighbour? at hk
  cases hmin : (qubits.filterMap (lastOnWire? gates i)).min? with
  | none =>
      rw [List.min?_eq_none_iff] at hmin
      rw [hmin] at hmem
      exact absurd hmem List.not_mem_nil
  | some e =>
      have hle := (List.min?_eq_some_iff.mp hmin).2 m hmem
      rw [hmin, Option.getD_some] at hk
      omega

end Back

section Removal

/-- The position that an item had before the one at `j` was taken out. -/
def skip (j k : Nat) : Nat := if k < j then k else k + 1

theorem skip_of_lt {j k : Nat} (h : k < j) : skip j k = k := if_pos h

/-- The items that stay keep their order. -/
theorem skip_lt_skip {j k l : Nat} : skip j k < skip j l ↔ k < l := by
  unfold skip
  split_ifs <;> omega

/-- Every item but the one that is taken out stays. -/
theorem exists_skip_eq {j m : Nat} (h : m ≠ j) : ∃ k, skip j k = m := by
  by_cases hm : m < j
  · exact ⟨m, skip_of_lt hm⟩
  · refine ⟨m - 1, ?_⟩
    rw [skip, if_neg (by omega)]
    omega

theorem le_of_lt_skip {j k : Nat} (h : j < skip j k) : j ≤ k := by
  unfold skip at h
  split_ifs at h <;> omega

theorem getElem?_eraseIdx_eq_skip {α : Type} (l : List α) (j k : Nat) :
    (l.eraseIdx j)[k]? = l[skip j k]? := by
  rw [List.getElem?_eraseIdx, skip, apply_ite fun m => l[m]?]

/-- The position that a gate had before the gates at `i` and `j` were taken out. -/
def lift (i j k : Nat) : Nat := if k < i then k else if k + 1 < j then k + 1 else k + 2

/-- The later gate of a pair is taken out first. -/
theorem lift_eq_skip {i j : Nat} (hij : i < j) (k : Nat) : lift i j k = skip j (skip i k) := by
  unfold lift skip
  split_ifs <;> omega

/-- The gates that stay, by their old positions. -/
theorem getElem?_removePair (gates : List (Gate R)) {i j : Nat} (hij : i < j) (k : Nat) :
    (removePair gates i j)[k]? = gates[lift i j k]? := by
  rw [removePair, getElem?_eraseIdx_eq_skip, getElem?_eraseIdx_eq_skip, lift_eq_skip hij]

theorem removePair_split {before middle after : List (Gate R)} {g h : Gate R} {i j : Nat}
    (hi : before.length = i) (hj : i + 1 + middle.length = j) :
    removePair (before ++ g :: (middle ++ h :: after)) i j = before ++ (middle ++ after) := by
  unfold removePair
  rw [List.eraseIdx_append_of_length_le (by omega),
    show j - before.length = middle.length + 1 by omega, List.eraseIdx_cons_succ,
    List.eraseIdx_append_of_length_le (Nat.le_refl _), Nat.sub_self, List.eraseIdx_cons_zero,
    List.eraseIdx_append_of_length_le (by omega), hi, Nat.sub_self, List.eraseIdx_cons_zero]

theorem lift_lt_lift {i j k l : Nat} (hij : i < j) : lift i j k < lift i j l ↔ k < l := by
  rw [lift_eq_skip hij, lift_eq_skip hij, skip_lt_skip, skip_lt_skip]

/-- Every gate that is not one of the pair stays. -/
theorem exists_lift_eq {i j m : Nat} (hij : i < j) (hi : m ≠ i) (hj : m ≠ j) :
    ∃ k, lift i j k = m := by
  rcases exists_skip_eq hj with ⟨l, rfl⟩
  have hl : l ≠ i := by
    rintro rfl
    exact hi (skip_of_lt hij)
  rcases exists_skip_eq hl with ⟨k, rfl⟩
  exact ⟨k, lift_eq_skip hij k⟩

theorem le_of_lt_lift {i j k : Nat} (h : i < lift i j k) : i ≤ k := by
  by_contra hk
  rw [lift, if_pos (Nat.not_le.mp hk)] at h
  exact hk (Nat.le_of_lt h)

/-- After a pair is taken out, the gates before the position that the scan goes back
    to have the neighbours that they had before. -/
theorem settledBelow_removePair {P : Gate R → Gate R → Prop} {gates : List (Gate R)}
    {i j : Nat} {g h : Gate R} (hadj : WireAdjacent gates i j g h)
    (hs : SettledBelow P gates i) :
    SettledBelow P (removePair gates i j)
      ((earliestNeighbour? (removePair gates i j) i g.qubits).getD i) := by
  intro k l g' h' hk hkl
  have hki := Nat.lt_of_lt_of_le hk (earliestNeighbour?_le _ i g.qubits)
  have hij := hadj.lt
  have hkeep : lift i j k = k := if_pos hki
  have hleft := hkl.left
  have hright := hkl.right
  rw [getElem?_removePair gates hij] at hleft hright
  rw [hkeep] at hleft
  -- Neighbours in the new list were neighbours in the old one: a gate that stood between them
  -- and overlaps the first is still there, or it was one of the pair.
  refine hs k (lift i j l) g' h' hki ⟨?_, hleft, hright, hkl.shared, ?_, hkl.same⟩
  · exact hkeep.symm.trans_lt ((lift_lt_lift hij).mpr hkl.lt)
  · intro m f hkm hml hf
    rw [← Bool.not_eq_true]
    intro hover
    -- The first gate is not the last one in front of `i` on a wire that it shares with the pair,
    -- since the scan would have gone back to it. So the one behind it stands in between, too.
    have hpair : i ≤ l → g'.overlaps g = true → False := by
      intro hli hgg
      rcases (Gate.overlaps_iff _ _).mp hgg with ⟨q, hq', hq⟩
      rcases exists_between_of_lt_earliest hk hq hkl.left hq' with ⟨m', e, hkm', hmi', he, heq⟩
      have hclear := hkl.between m' e hkm' (Nat.lt_of_lt_of_le hmi' hli) he
      rw [(Gate.overlaps_iff _ _).mpr ⟨q, hq', heq⟩] at hclear
      exact Bool.false_ne_true hclear.symm
    by_cases hmi : m = i
    · rw [hmi, hadj.left, Option.some.injEq] at hf
      exact hpair (le_of_lt_lift (hmi ▸ hml)) (hf ▸ hover)
    by_cases hmj : m = j
    · rw [hmj, hadj.right, Option.some.injEq] at hf
      have hjl : j < lift i j l := hmj ▸ hml
      refine hpair (le_of_lt_lift (Nat.lt_trans hij hjl)) ?_
      rw [Gate.overlaps_comm, Gate.overlaps_congr hadj.same, hf, Gate.overlaps_comm]
      exact hover
    rcases exists_lift_eq hij hmi hmj with ⟨m', rfl⟩
    rw [← hkeep, lift_lt_lift hij] at hkm
    rw [lift_lt_lift hij] at hml
    have hclear := hkl.between m' f hkm hml (by rw [getElem?_removePair gates hij]; exact hf)
    rw [hover] at hclear
    exact Bool.false_ne_true hclear.symm

end Removal

section Deleting

/-- A pair that cancels is taken out. -/
def Deletes (a b : List (Gate R)) : Prop :=
  ∃ i j g h, WireAdjacent a i j g h ∧ Cancels g h ∧ b = removePair a i j

/-- So many pairs are taken out, one after the other. -/
inductive Deletions : Nat → List (Gate R) → List (Gate R) → Prop
  /-- None at all. -/
  | none (a : List (Gate R)) : Deletions 0 a a
  /-- A pair, and others after it. -/
  | next {k : Nat} {a b c : List (Gate R)} : Deletes a b → Deletions k b c → Deletions (k + 1) a c

variable {a b c : List (Gate R)} {k l : Nat}

/-- No pair can be taken out exactly when no two neighbours undo each other. -/
theorem not_deletes_iff_settled : (∀ b, ¬ Deletes a b) ↔ Settled Cancels a := by
  constructor
  · exact fun h i j g g' hadj hc => h _ ⟨i, j, g, g', hadj, hc, rfl⟩
  · rintro h b ⟨i, j, g, g', hadj, hc, -⟩
    exact h i j g g' hadj hc

/-- The lists around a pair that is taken out. -/
theorem Deletes.split (h : Deletes a b) :
    ∃ before g middle g' after, a = before ++ g :: (middle ++ g' :: after) ∧
      b = before ++ (middle ++ after) ∧ (∀ f ∈ middle, g.overlaps f = false) ∧
      g.overlaps g' = true ∧ g.qubits = g'.qubits ∧ Cancels g g' := by
  rcases h with ⟨i, j, g, g', hadj, hc, rfl⟩
  rcases hadj.split with ⟨before, middle, after, rfl, hi, hj, hd⟩
  exact ⟨before, g, middle, g', after, rfl, removePair_split hi hj, hd, hadj.shared, hadj.same, hc⟩

theorem Deletes.length (h : Deletes a b) : b.length + 2 = a.length := by
  rcases h.split with ⟨before, g, middle, g', after, rfl, rfl, -⟩
  simp only [List.length_append, List.length_cons]
  omega

theorem Deletes.sublist (h : Deletes a b) : b.Sublist a := by
  rcases h with ⟨i, j, -, -, -, -, rfl⟩
  exact (List.eraseIdx_sublist _ _).trans (List.eraseIdx_sublist _ _)

theorem Deletions.append (h : Deletions k a b) (h' : Deletions l b c) : Deletions (k + l) a c := by
  induction h with
  | none a => exact (Nat.zero_add l).symm ▸ h'
  | next hfirst _ ih => exact Nat.add_right_comm _ 1 l ▸ Deletions.next hfirst (ih h')

/-- Each pair is two gates. -/
theorem Deletions.length (h : Deletions k a b) : b.length + 2 * k = a.length := by
  induction h with
  | none a => rfl
  | next hfirst _ ih =>
      have hpair := hfirst.length
      omega

theorem Deletions.sublist (h : Deletions k a b) : b.Sublist a := by
  induction h with
  | none a => exact List.Sublist.refl a
  | next hfirst _ ih => exact ih.trans hfirst.sublist

end Deleting

section Scan

/-- The scan ends with no pair left. -/
theorem cancelFrom_settled {gates : List (Gate R)} {i removed : Nat}
    (hs : SettledBelow Cancels gates i) : Settled Cancels (cancelFrom gates i removed).1 := by
  -- The invariant of the scan: every gate before `i` is settled.
  induction gates, i, removed using cancelFrom.induct with
  | case1 gates i removed hlt hn ih =>
      rw [cancelFrom, dif_pos hlt, hn]
      exact ih (settledBelow_succ hs (not_cancels_of_partner?_eq_none hn))
  | case2 gates i removed hlt j qubits hp rest ih =>
      rw [cancelFrom, dif_pos hlt, hp]
      rcases (partner?_eq_some _ _ _ _).mp hp with ⟨g, h, hadj, -, rfl⟩
      exact ih (settledBelow_removePair hadj hs)
  | case3 gates i removed hlt =>
      rw [cancelFrom, dif_neg hlt]
      exact settled_of_below (Nat.le_of_not_lt hlt) hs

/-- The pass leaves nothing to cancel. -/
theorem cancel_settled (gates : List (Gate R)) : Settled Cancels (cancel gates).1 :=
  cancelFrom_settled (settledBelow_zero Cancels gates)

/-- The scan leaves a list without such pairs alone. -/
theorem cancelFrom_of_settled {gates : List (Gate R)} (hs : Settled Cancels gates)
    (i removed : Nat) : cancelFrom gates i removed = (gates, removed) := by
  induction gates, i, removed using cancelFrom.induct with
  | case1 gates i removed hlt hn ih =>
      rw [cancelFrom, dif_pos hlt, hn]
      exact ih hs
  | case2 gates i removed hlt j qubits hp rest ih =>
      rcases (partner?_eq_some _ _ _ _).mp hp with ⟨g, h, hadj, hc, -⟩
      exact absurd hc (hs i j g h hadj)
  | case3 gates i removed hlt => rw [cancelFrom, dif_neg hlt]

theorem cancel_of_settled {gates : List (Gate R)} (hs : Settled Cancels gates) :
    cancel gates = (gates, 0) :=
  cancelFrom_of_settled hs 0 0

/-- The scan takes pairs out, and counts the gates. -/
theorem cancelFrom_deletions (gates : List (Gate R)) (i removed : Nat) :
    ∃ pairs, Deletions pairs gates (cancelFrom gates i removed).1 ∧
      (cancelFrom gates i removed).2 = removed + 2 * pairs := by
  induction gates, i, removed using cancelFrom.induct with
  | case1 gates i removed hlt hn ih =>
      rw [cancelFrom, dif_pos hlt, hn]
      exact ih
  | case2 gates i removed hlt j qubits hp rest ih =>
      rw [cancelFrom, dif_pos hlt, hp]
      rcases (partner?_eq_some _ _ _ _).mp hp with ⟨g, h, hadj, hc, -⟩
      -- One pair now, and those of the rest of the scan.
      rcases ih with ⟨pairs, hdel, hcount⟩
      exact ⟨pairs + 1, .next ⟨i, j, g, h, hadj, hc, rfl⟩ hdel, hcount.trans (by omega)⟩
  | case3 gates i removed hlt =>
      rw [cancelFrom, dif_neg hlt]
      exact ⟨0, .none gates, rfl⟩

/-- What the pass does is to take pairs out, and the count that it reports is that of their
    gates. -/
theorem cancel_deletions (gates : List (Gate R)) :
    ∃ pairs, Deletions pairs gates (cancel gates).1 ∧ (cancel gates).2 = 2 * pairs := by
  rcases cancelFrom_deletions gates 0 0 with ⟨pairs, hdel, hcount⟩
  exact ⟨pairs, hdel, hcount.trans (Nat.zero_add _)⟩

theorem cancel_sublist (gates : List (Gate R)) : (cancel gates).1.Sublist gates := by
  rcases cancel_deletions gates with ⟨pairs, hdel, -⟩
  exact hdel.sublist

theorem mem_of_mem_cancel {gates : List (Gate R)} {g : Gate R} (h : g ∈ (cancel gates).1) :
    g ∈ gates :=
  (cancel_sublist gates).subset h

variable [Scalar R] {n k : Nat} {a b : List (Gate R)}

/-- Pairs can be taken out in any order without a change of meaning. -/
theorem Deletions.sameMeaning (h : Deletions k a b) (hfit : ∀ g ∈ a, g.Fits n) :
    SameMeaning.{u} n a b := by
  induction h with
  | none a => exact SameMeaning.refl a
  | next hfirst _ ih =>
      refine SameMeaning.trans ?_ (ih fun g hg => hfit g (hfirst.sublist.subset hg))
      rcases hfirst.split with ⟨before, g, middle, g', after, rfl, rfl, hd, -, hq, hc⟩
      exact sameMeaning_cancel hfit hd hq hc

theorem cancel_sameMeaning {gates : List (Gate R)} (hfit : ∀ g ∈ gates, g.Fits n) :
    SameMeaning.{u} n gates (cancel gates).1 := by
  rcases cancel_deletions gates with ⟨pairs, hdel, -⟩
  exact hdel.sameMeaning hfit

end Scan

end Rewrite

end QubitLab
