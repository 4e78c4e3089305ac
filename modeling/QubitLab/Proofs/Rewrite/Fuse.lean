import QubitLab.Proofs.Rewrite.Cancel

/-!
# The pass that fuses

The scan puts the sum of two rotations in the place of the first one and takes the
second one out. It never goes back, and need not: the gate of the sum has the kind,
the qubits and the number of angles of the gate whose place it takes, so for every
gate before it nothing has changed.

Fusing comes after cancelling and must not bring two inverse gates together. It
does not, for two reasons. The gate that is taken out was nobody's next neighbour
but the first rotation's, because whoever shares a qubit with it shares one with the
first rotation. And a rotation has no inverse among the kinds. Both are read off one
statement, `WireAdjacent.of_fused`: a pair after a fusion was a pair before it,
unless it starts at the sum, and up to the sum standing where the first rotation
stood.

## Main definitions

* `Rewrite.Fusible`: Two gates of one angle whose kinds add up.

## Theorems

* `fusion?_eq_some`: What the pass looks for.
* `WireAdjacent.of_fused`: The pairs after a fusion were pairs before it.
* `fuse_settled`: Nothing is left to fuse.
* `fuse_keeps_cancelled`: Fusing leaves nothing to cancel where nothing was.
* `fuse_sameMeaning`: The meaning is kept, and every gate still fits.
* `fuse_of_settled`: A list without such pairs is left alone.
-/

namespace QubitLab

namespace Rewrite

universe u

variable {R : Type}

/-- Two gates of one angle each whose kinds add up. -/
def Fusible (g h : Gate R) : Prop :=
  (∃ kind, g.kind.fused? h.kind = some kind) ∧ g.params.length = 1 ∧ h.params.length = 1

section Kinds

/-- Only rotations of one kind add up, and the sum is of this kind again. -/
theorem fused?_eq_some {k l m : GateKind} (h : k.fused? l = some m) :
    l = k ∧ m = k ∧ k.isAdditive = true := by
  unfold GateKind.fused? at h
  by_cases hc : k = l ∧ k.isAdditive
  · rw [if_pos hc, Option.some.injEq] at h
    exact ⟨hc.1.symm, h.symm, hc.2⟩
  · rw [if_neg hc] at h
    exact absurd h (by simp only [reduceCtorEq, not_false_eq_true])

/-- A kind whose angles add up does not undo any kind. -/
theorem cancels_additive_right {k l : GateKind} (hl : l.isAdditive = true) :
    k.cancels l = false := by
  rw [← Bool.not_eq_true, GateKind.cancels, beq_iff_eq]
  intro h
  cases k <;> simp only [GateKind.inverse?, Option.some.injEq, reduceCtorEq] at h <;>
    subst h <;> simp only [GateKind.isAdditive, Bool.false_eq_true] at hl

/-- A kind whose angles add up is not undone by any kind. -/
theorem cancels_additive_left {k l : GateKind} (hk : k.isAdditive = true) :
    k.cancels l = false := by
  rw [← Bool.not_eq_true, GateKind.cancels, beq_iff_eq]
  intro h
  cases k <;> simp only [GateKind.isAdditive, Bool.false_eq_true] at hk <;>
    simp only [GateKind.inverse?, reduceCtorEq] at h

end Kinds

section Search

/-- A gate has a single angle when its list of angles has length one. -/
theorem singleAngle?_eq_some (g : Gate R) (a : R) :
    singleAngle? g = some a ↔ g.params = [a] := by
  unfold singleAngle?
  rcases g.params with _ | ⟨b, _ | ⟨c, rest⟩⟩
  · simp only [reduceCtorEq]
  · simp only [Option.some.injEq, List.cons.injEq, and_true]
  · simp only [reduceCtorEq, List.cons.injEq, and_false]

variable [Scalar R]

/-- The pass looks for the next neighbour on the same qubits, and adds the two angles when the
    kinds allow it. -/
theorem fusion?_eq_some (gates : List (Gate R)) (i j : Nat) (kind : GateKind)
    (qubits : List Nat) (angle : R) :
    fusion? gates i = some (j, kind, qubits, angle) ↔
      ∃ g h a b, WireAdjacent gates i j g h ∧ g.kind.fused? h.kind = some kind ∧
        g.params = [a] ∧ h.params = [b] ∧ g.qubits = qubits ∧ a + b = angle := by
  unfold fusion?
  simp only [Option.bind_eq_bind, Option.bind_eq_some_iff, nextOnWires?_eq_some]
  constructor
  · intro hs
    -- The search and the tests that follow it look at the same two gates.
    rcases hs with ⟨j', ⟨hij, g, h, hg, hh, hover, hmin⟩, g', hg', h', hh', k, hk, hif⟩
    rw [hg, Option.some.injEq] at hg'
    rw [hh, Option.some.injEq] at hh'
    subst hg' hh'
    by_cases hq : (g.qubits == h.qubits) = true
    · rw [if_pos hq] at hif
      simp only [Option.bind_eq_some_iff, singleAngle?_eq_some, Option.some.injEq,
        Prod.mk.injEq] at hif
      rcases hif with ⟨a, ha, b, hb, rfl, rfl, rfl, rfl⟩
      exact ⟨g, h, a, b, ⟨hij, hg, hh, hover, hmin, beq_iff_eq.mp hq⟩, hk, ha, hb, rfl, rfl⟩
    · rw [if_neg hq] at hif
      exact absurd hif (by simp only [reduceCtorEq, not_false_eq_true])
  · intro hs
    rcases hs with ⟨g, h, a, b, hadj, hk, ha, hb, rfl, rfl⟩
    refine ⟨j, ⟨hadj.lt, g, h, hadj.left, hadj.right, hadj.shared, hadj.between⟩,
      g, hadj.left, h, hadj.right, kind, hk, ?_⟩
    rw [if_pos (beq_iff_eq.mpr hadj.same), (singleAngle?_eq_some g a).mpr ha,
      (singleAngle?_eq_some h b).mpr hb]
    rfl

/-- Where the pass finds nothing, no pair can be fused. -/
theorem not_fusible_of_fusion?_eq_none {gates : List (Gate R)} {i : Nat}
    (hn : fusion? gates i = none) :
    ∀ j g h, WireAdjacent gates i j g h → ¬ Fusible g h := by
  intro j g h hadj hf
  rcases hf with ⟨⟨kind, hk⟩, hg, hh⟩
  rcases List.length_eq_one_iff.mp hg with ⟨a, ha⟩
  rcases List.length_eq_one_iff.mp hh with ⟨b, hb⟩
  have hsome := (fusion?_eq_some gates i j kind g.qubits (a + b)).mpr
    ⟨g, h, a, b, hadj, hk, ha, hb, rfl, rfl⟩
  rw [hn] at hsome
  exact absurd hsome (by simp only [reduceCtorEq, not_false_eq_true])

end Search

section Fusion

/-- The list after a fusion, position by position. -/
theorem getElem?_fused {gates : List (Gate R)} {i j : Nat} {f : Gate R} (hij : i < j)
    (hi : i < gates.length) (k : Nat) :
    ((gates.set i f).eraseIdx j)[k]? = if k = i then some f else gates[skip j k]? := by
  rw [getElem?_eraseIdx_eq_skip]
  by_cases hki : k = i
  · rw [if_pos hki, hki, skip_of_lt hij, List.getElem?_set_self hi]
  · -- No other position goes back to the first rotation.
    have hne : i ≠ skip j k := by
      unfold skip
      split_ifs <;> omega
    rw [if_neg hki, List.getElem?_set_ne hne]

/-- A fusion on the list around the pair. -/
theorem fused_split {before middle after : List (Gate R)} {g h f : Gate R} {i j : Nat}
    (hi : before.length = i) (hj : i + 1 + middle.length = j) :
    ((before ++ g :: (middle ++ h :: after)).set i f).eraseIdx j
      = before ++ f :: (middle ++ after) := by
  rw [List.set_append_right _ _ (by omega), hi, Nat.sub_self, List.set_cons_zero,
    List.eraseIdx_append_of_length_le (by omega),
    show j - before.length = middle.length + 1 by omega, List.eraseIdx_cons_succ,
    List.eraseIdx_append_of_length_le (Nat.le_refl _), Nat.sub_self, List.eraseIdx_cons_zero]

/-- A pair after a fusion that does not start at the sum was a pair before the fusion,
    with the first rotation in the place of the sum. -/
theorem WireAdjacent.of_fused {gates : List (Gate R)} {i j k l : Nat}
    {g h f g' h' : Gate R} (hadj : WireAdjacent gates i j g h) (hf : f.qubits = g.qubits)
    (hkl : WireAdjacent ((gates.set i f).eraseIdx j) k l g' h') (hki : k ≠ i) :
    ∃ l' h'', WireAdjacent gates (skip j k) l' g' h'' ∧ (h'' = h' ∨ h' = f ∧ h'' = g) := by
  have hij := hadj.lt
  have hi := (List.getElem?_eq_some_iff.mp hadj.left).1
  have hget := fun m => @getElem?_fused R gates i j f hij hi m
  have hsum : ((gates.set i f).eraseIdx j)[i]? = some f := by rw [hget, if_pos rfl]
  have hleft := hkl.left
  have hright := hkl.right
  rw [hget, if_neg hki] at hleft
  -- No gate between the two in the old list shares a qubit with the first one. Such a gate is
  -- the second rotation, or it is still between them, with the sum for the first rotation.
  have hbetween : ∀ m e, skip j k < m → m < skip j l → gates[m]? = some e →
      g'.overlaps e = false := by
    intro m e hkm hml he
    by_cases hmj : m = j
    · -- A gate that shares a qubit with the second rotation meets the sum first.
      rw [hmj, hadj.right, Option.some.injEq] at he
      rw [← he, Gate.overlaps_comm, ← Gate.overlaps_congr hadj.same]
      have hjl : j ≤ l := le_of_lt_skip (hmj ▸ hml)
      by_cases hk : k < i
      · rw [← Gate.overlaps_congr hf, Gate.overlaps_comm]
        exact hkl.between i f hk (Nat.lt_of_lt_of_le hij hjl) hsum
      · have hkj : k < j := by
          by_contra hjk
          rw [skip, if_neg hjk] at hkm
          omega
        rw [skip_of_lt hkj] at hleft
        exact hadj.between k g' (by omega) hkj hleft
    · rcases exists_skip_eq hmj with ⟨m', rfl⟩
      rw [skip_lt_skip] at hkm hml
      by_cases hmi : m' = i
      · rw [hmi, skip_of_lt hij, hadj.left, Option.some.injEq] at he
        have hclear := hkl.between i f (hmi ▸ hkm) (hmi ▸ hml) hsum
        rwa [Gate.overlaps_comm, Gate.overlaps_congr hf, Gate.overlaps_comm, he] at hclear
      · exact hkl.between m' e hkm hml (by rw [hget, if_neg hmi]; exact he)
  have hpos : skip j k < skip j l := skip_lt_skip.mpr hkl.lt
  rw [hget] at hright
  by_cases hli : l = i
  · rw [if_pos hli, Option.some.injEq] at hright
    refine ⟨_, g, ⟨hpos, hleft, ?_, ?_, hbetween, ?_⟩, Or.inr ⟨hright.symm, rfl⟩⟩
    · rw [hli, skip_of_lt hij]
      exact hadj.left
    · rw [Gate.overlaps_comm, ← Gate.overlaps_congr hf, Gate.overlaps_comm, hright]
      exact hkl.shared
    · rw [hkl.same, ← hright, hf]
  · rw [if_neg hli] at hright
    exact ⟨_, h', ⟨hpos, hleft, hright, hkl.shared, hbetween, hkl.same⟩, Or.inl rfl⟩

variable [Scalar R]

/-- What the gate of the sum has in common with the first rotation. -/
theorem builtin_fused {g h f : Gate R} {kind : GateKind} {angle : R}
    (hk : g.kind.fused? h.kind = some kind)
    (hf : Gate.builtin kind g.qubits [angle] = .ok f) :
    f.qubits = g.qubits ∧ f.kind = g.kind ∧ f.kind.isAdditive = true ∧ f.params = [angle] := by
  rcases (Gate.builtin_eq_ok _ _ _ _).mp hf with ⟨-, -, -, rfl⟩
  rcases fused?_eq_some hk with ⟨-, rfl, hadd⟩
  exact ⟨rfl, rfl, hadd, rfl⟩

/-- A fusion changes nothing for the gates before it. -/
theorem settledBelow_fused {gates : List (Gate R)} {i j : Nat} {g h f : Gate R}
    {kind : GateKind} {a b : R} (hadj : WireAdjacent gates i j g h)
    (hk : g.kind.fused? h.kind = some kind) (ha : g.params = [a])
    (hf : Gate.builtin kind g.qubits [a + b] = .ok f) (hs : SettledBelow Fusible gates i) :
    SettledBelow Fusible ((gates.set i f).eraseIdx j) i := by
  rcases builtin_fused hk hf with ⟨hq, hkind, -, hparams⟩
  intro k l g' h' hki hkl hfus
  rcases hadj.of_fused hq hkl (by omega) with ⟨l', h'', hadj', hcase⟩
  rw [skip_of_lt (Nat.lt_trans hki hadj.lt)] at hadj'
  refine hs k l' g' h'' hki hadj' ?_
  -- The sum has the kind and the number of angles of the first rotation, so it is fused with the
  -- same gates.
  rcases hcase with rfl | ⟨rfl, rfl⟩
  · exact hfus
  · refine ⟨?_, hfus.2.1, ?_⟩
    · rw [← hkind]
      exact hfus.1
    · rw [ha, List.length_singleton]

/-- A fusion brings no two inverse gates together. -/
theorem settled_cancels_fused {gates : List (Gate R)} {i j : Nat} {g h f : Gate R}
    {kind : GateKind} {angle : R} (hadj : WireAdjacent gates i j g h)
    (hk : g.kind.fused? h.kind = some kind)
    (hf : Gate.builtin kind g.qubits [angle] = .ok f) (hs : Settled Cancels gates) :
    Settled Cancels ((gates.set i f).eraseIdx j) := by
  rcases builtin_fused hk hf with ⟨hq, -, hadd, -⟩
  intro k l g' h' hkl hc
  by_cases hki : k = i
  · -- The pair starts at the sum, which no gate undoes.
    have hi := (List.getElem?_eq_some_iff.mp hadj.left).1
    have hleft := hkl.left
    rw [getElem?_fused hadj.lt hi, if_pos hki, Option.some.injEq] at hleft
    rw [Cancels, ← hleft, cancels_additive_left hadd] at hc
    exact absurd hc (by simp only [Bool.false_eq_true, not_false_eq_true])
  · rcases hadj.of_fused hq hkl hki with ⟨l', h'', hadj', rfl | ⟨rfl, rfl⟩⟩
    · exact hs _ _ _ _ hadj' hc
    · rw [Cancels, cancels_additive_right hadd] at hc
      exact absurd hc (by simp only [Bool.false_eq_true, not_false_eq_true])

end Fusion

section Scan

variable [Scalar R]

theorem fuseFrom_step {gates : List (Gate R)} {i : Nat} (fused : Nat)
    (hlt : i < gates.length) (hn : fusion? gates i = none) :
    fuseFrom gates i fused = fuseFrom gates (i + 1) fused := by
  rw [fuseFrom, if_pos hlt]
  split
  · rfl
  · next hs =>
      rw [hn] at hs
      exact absurd hs (by simp only [reduceCtorEq, not_false_eq_true])

theorem fuseFrom_fusion {gates : List (Gate R)} {i j : Nat} (fused : Nat)
    {kind : GateKind} {qubits : List Nat} {angle : R} (hlt : i < gates.length)
    (hs : fusion? gates i = some (j, kind, qubits, angle)) :
    fuseFrom gates i fused =
      match Gate.builtin kind qubits [angle] with
      | .error e => (gates, .error e)
      | .ok g => fuseFrom ((gates.set i g).eraseIdx j) i (fused + 1) := by
  rw [fuseFrom, if_pos hlt]
  split
  · next hn =>
      rw [hs] at hn
      exact absurd hn (by simp only [reduceCtorEq, not_false_eq_true])
  · next hs' =>
      rw [hs, Option.some.injEq, Prod.mk.injEq, Prod.mk.injEq, Prod.mk.injEq] at hs'
      rcases hs' with ⟨rfl, rfl, rfl, rfl⟩
      rfl

/-- One property of every list that the scan passes through: what moving on and what
    a fusion keeps holds of the list that the scan ends with, at the position where it
    ends. -/
theorem fuseFrom_invariant {I : List (Gate R) → Nat → Prop}
    (hnext : ∀ gates i, fusion? gates i = none → I gates i → I gates (i + 1))
    (hfuse : ∀ gates i j g h f kind a b, WireAdjacent gates i j g h →
      g.kind.fused? h.kind = some kind → g.params = [a] → h.params = [b] →
      Gate.builtin kind g.qubits [a + b] = .ok f → I gates i →
      I ((gates.set i f).eraseIdx j) i)
    {gates : List (Gate R)} {i : Nat} (fused : Nat) (h : I gates i) :
    ∃ m, I (fuseFrom gates i fused).1 m ∧
      ∀ count, (fuseFrom gates i fused).2 = .ok count →
        (fuseFrom gates i fused).1.length ≤ m := by
  induction gates, i, fused using fuseFrom.induct with
  | case1 gates i fused hlt hn ih =>
      rw [fuseFrom_step fused hlt hn]
      exact ih (hnext gates i hn h)
  | case2 gates i fused hlt j kind qubits angle hs e he =>
      rw [fuseFrom_fusion fused hlt hs, he]
      -- The pass stops here with an error, and leaves what it has reached.
      exact ⟨i, h, fun _ hc => absurd hc (by simp only [reduceCtorEq, not_false_eq_true])⟩
  | case3 gates i fused hlt j kind qubits angle hs f hf ih =>
      rw [fuseFrom_fusion fused hlt hs, hf]
      rcases (fusion?_eq_some _ _ _ _ _ _).mp hs with
        ⟨g, h', a, b, hadj, hk, ha, hb, rfl, rfl⟩
      exact ih (hfuse gates i j g h' f kind a b hadj hk ha hb hf h)
  | case4 gates i fused hlt =>
      rw [fuseFrom, if_neg hlt]
      exact ⟨i, h, fun _ _ => Nat.le_of_not_lt hlt⟩

/-- When the scan comes to its end, no pair is left. -/
theorem fuse_settled {gates : List (Gate R)} {count : Nat} (h : (fuse gates).2 = .ok count) :
    Settled Fusible (fuse gates).1 := by
  rcases fuseFrom_invariant
    (fun gates i hn hs => settledBelow_succ hs (not_fusible_of_fusion?_eq_none hn))
    (fun gates i j g h f kind a b hadj hk ha _ hf hs => settledBelow_fused hadj hk ha hf hs)
    0 (settledBelow_zero Fusible gates) with ⟨m, hs, hm⟩
  exact settled_of_below (hm count h) hs

/-- Fusing leaves nothing to cancel where nothing was. -/
theorem fuse_keeps_cancelled {gates : List (Gate R)} (hs : Settled Cancels gates) :
    Settled Cancels (fuse gates).1 := by
  rcases @fuseFrom_invariant R _ (fun gates _ => Settled Cancels gates)
    (fun gates i _ hs => hs)
    (fun gates i j g h f kind a b hadj hk _ _ hf hs => settled_cancels_fused hadj hk hf hs)
    gates 0 0 hs with ⟨m, hs, -⟩
  exact hs

theorem fusion?_eq_none_of_settled {gates : List (Gate R)} (hs : Settled Fusible gates)
    (i : Nat) : fusion? gates i = none := by
  cases hf : fusion? gates i with
  | none => rfl
  | some p =>
      rcases p with ⟨j, kind, qubits, angle⟩
      rcases (fusion?_eq_some _ _ _ _ _ _).mp hf with ⟨g, h, a, b, hadj, hk, ha, hb, -, -⟩
      refine absurd ⟨⟨kind, hk⟩, ?_, ?_⟩ (hs i j g h hadj)
      · rw [ha, List.length_singleton]
      · rw [hb, List.length_singleton]

/-- The scan leaves a list without such pairs alone. -/
theorem fuseFrom_of_settled {gates : List (Gate R)} (hs : Settled Fusible gates)
    (i fused : Nat) : fuseFrom gates i fused = (gates, .ok fused) := by
  by_cases hlt : i < gates.length
  · rw [fuseFrom_step fused hlt (fusion?_eq_none_of_settled hs i)]
    exact fuseFrom_of_settled hs (i + 1) fused
  · rw [fuseFrom, if_neg hlt]
termination_by gates.length - i

theorem fuse_of_settled {gates : List (Gate R)} (hs : Settled Fusible gates) :
    fuse gates = (gates, .ok 0) :=
  fuseFrom_of_settled hs 0 0

/-- The pass keeps the meaning, and every gate still fits. This holds also of the list
    that is left behind when a sum of two angles is not finite. -/
theorem fuse_sameMeaning {n : Nat} {gates : List (Gate R)} (hfit : ∀ g ∈ gates, g.Fits n) :
    SameMeaning.{u} n gates (fuse gates).1 ∧ ∀ g ∈ (fuse gates).1, g.Fits n := by
  have hstep : ∀ now i j g h f kind a b, WireAdjacent now i j g h →
      g.kind.fused? h.kind = some kind → g.params = [a] → h.params = [b] →
      Gate.builtin kind g.qubits [a + b] = .ok f →
      (SameMeaning.{u} n gates now ∧ ∀ g ∈ now, g.Fits n) →
      SameMeaning.{u} n gates ((now.set i f).eraseIdx j) ∧
        ∀ g ∈ (now.set i f).eraseIdx j, g.Fits n := by
    intro now i j g h f kind a b hadj hk ha hb hf hnow
    -- The second rotation moves up to the first one, since nothing between them is on its qubits.
    rcases hadj.split with ⟨before, middle, after, rfl, hi, hj, hd⟩
    rw [fused_split hi hj]
    refine ⟨hnow.1.trans (sameMeaning_fuse hnow.2 hd hadj.same hk ha hb hf), fun e he => ?_⟩
    rcases List.mem_append.mp he with he | he
    · exact hnow.2 e (List.mem_append.mpr (Or.inl he))
    · rcases List.mem_cons.mp he with rfl | he
      · exact Gate.fits_builtin (hnow.2 g (by simp)).1 hf
      · refine hnow.2 e ?_
        simp only [List.mem_append, List.mem_cons] at he ⊢
        rcases he with he | he
        · exact Or.inr (Or.inr (Or.inl he))
        · exact Or.inr (Or.inr (Or.inr (Or.inr he)))
  rcases @fuseFrom_invariant R _
    (fun now _ => SameMeaning.{u} n gates now ∧ ∀ g ∈ now, g.Fits n)
    (fun _ _ _ h => h) hstep gates 0 0 ⟨SameMeaning.refl gates, hfit⟩ with ⟨m, h, -⟩
  exact h

end Scan

end Rewrite

end QubitLab
