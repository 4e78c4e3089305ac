import QubitLab.Proofs.Rewrite.Fuse
import QubitLab.Proofs.Rewrite.Usage
import QubitLab.Rewrite.Pipeline

/-!
# A round of the rewriter

A round is a sequence of passes, each of which may be switched off, and most of what
it does besides is bookkeeping. `answers_round` does away with the bookkeeping once
and for all: on a well-formed circuit a round succeeds exactly when its fusing does,
and then the circuit and the whole report are plain functions of the circuit that it
started from. Neither putting the gates back nor relabelling can fail, since every
pass keeps the gates inside the register and the mapping is a permutation.

After that each property of a round is a property of `roundGates`, the gates that
its passes lead to, and follows from the theorems about the single passes.

## Main definitions

* `Rewrite.cancelIf`, `Rewrite.fuseIf`, `Rewrite.bubbleIf`, `Rewrite.layerIf`: A
  pass that may be switched off, with the count that it reports.
* `Rewrite.roundGates`: The gates after all of the passes.
* `Rewrite.roundMapping`: The mapping of the relabelling, if there is one.
* `Rewrite.relabelled`: The circuit after the relabelling, if there is one.
* `Rewrite.roundReport`: The report of a round.

## Theorems

* `answers_round`: What a round does.
* `roundGates_fits`, `roundGates_sameMeaning`: The passes keep the gates inside the
  register, and keep their meaning.
* `roundGates_settled_cancels`, `roundGates_settled_fusible`: After the passes there
  is nothing left to cancel and nothing left to fuse.
-/

namespace QubitLab

namespace Rewrite

universe u

variable {R : Type}

section Passes

/-- Cancelling, if it is enabled: the gates and how many were taken out. -/
def cancelIf (enabled : Bool) (gates : List (Gate R)) : List (Gate R) × Nat :=
  if enabled then cancel gates else (gates, 0)

/-- Fusing, if it is enabled: the gates and the number of fusions. -/
def fuseIf [Scalar R] (enabled : Bool) (gates : List (Gate R)) :
    List (Gate R) × Except (Error R) Nat :=
  if enabled then fuse gates else (gates, .ok 0)

/-- Bubbling, if it is enabled: the gates and the number of changes of place. -/
def bubbleIf (enabled : Bool) (gates : List (Gate R)) : List (Gate R) × Nat :=
  if enabled then bubble gates else (gates, 0)

/-- Layering, if it is enabled: the gates and the number of layers. -/
def layerIf (enabled : Bool) (n : Nat) (gates : List (Gate R)) : List (Gate R) × Nat :=
  if enabled then layer gates n else (gates, 0)

/-- A pass that cancels never fails, and reports what it has taken out. -/
theorem answers_cancelPass (enabled : Bool) (gates : List (Gate R)) (p : Passed R)
    (c d : Circuit R) :
    Transition.Answers (cancelPass enabled ⟨gates, 0, 0, 0, 0⟩) c p d ↔
      p = ⟨(cancelIf enabled gates).1, (cancelIf enabled gates).2, 0, 0, 0⟩ ∧ d = c := by
  cases enabled <;> simp [cancelPass, cancelIf]

theorem answers_bubblePass (enabled : Bool) (gates : List (Gate R)) (cancelled merged : Nat)
    (p : Passed R) (c d : Circuit R) :
    Transition.Answers (bubblePass enabled ⟨gates, cancelled, merged, 0, 0⟩) c p d ↔
      p = ⟨(bubbleIf enabled gates).1, cancelled, merged, (bubbleIf enabled gates).2, 0⟩ ∧
        d = c := by
  cases enabled <;> simp [bubblePass, bubbleIf]

theorem answers_layerPass (enabled : Bool) (n : Nat) (gates : List (Gate R))
    (cancelled merged commuted : Nat) (p : Passed R) (c d : Circuit R) :
    Transition.Answers (layerPass enabled n ⟨gates, cancelled, merged, commuted, 0⟩) c p d ↔
      p = ⟨(layerIf enabled n gates).1, cancelled, merged, commuted,
        (layerIf enabled n gates).2⟩ ∧ d = c := by
  cases enabled <;> simp [layerPass, layerIf]

variable [Scalar R]

/-- The pass that fuses answers when no sum of angles has gone wrong. -/
theorem answers_fusePass (enabled : Bool) (gates : List (Gate R)) (cancelled : Nat)
    (p : Passed R) (c d : Circuit R) :
    Transition.Answers (fusePass enabled ⟨gates, cancelled, 0, 0, 0⟩) c p d ↔
      ∃ merged, (fuseIf enabled gates).2 = .ok merged ∧
        p = ⟨(fuseIf enabled gates).1, cancelled, merged, 0, 0⟩ ∧ d = c := by
  cases enabled <;> simp [fusePass, fuseIf, and_assoc, and_comm]

end Passes

section Relabelling

/-- The mapping of the relabelling that ends a round, if it is enabled. -/
def roundMapping (s : RewriteSettings) (c : Circuit R) : Option (List Nat) :=
  if s.relabeling then some c.usageMapping else none

/-- The circuit after a relabelling, if there was one. -/
def relabelled (c : Circuit R) : Option (List Nat) → Circuit R
  | none => c
  | some mapping => c.mapQubits (Circuit.label mapping)

/-- On a well-formed circuit the relabelling that ends a round never fails. -/
theorem answers_relabelPass [Scalar R] {c : Circuit R} (hc : c.WellFormed)
    (s : RewriteSettings) (mapping : Option (List Nat)) (d : Circuit R) :
    Transition.Answers (relabelPass s.relabeling) c mapping d ↔
      mapping = roundMapping s c ∧ d = relabelled c (roundMapping s c) := by
  unfold relabelPass roundMapping ofEdit
  by_cases hs : s.relabeling = true
  · rw [if_pos hs, if_pos hs]
    simp only [Transition.answers_bind, Transition.answers_mapJournal,
      Circuit.answers_relabelByUsage hc, Transition.answers_note, Transition.answers_pure,
      relabelled]
    constructor
    · rintro ⟨m, c', ⟨rfl, rfl⟩, u, t, rfl, rfl, rfl⟩
      exact ⟨rfl, rfl⟩
    · rintro ⟨rfl, rfl⟩
      exact ⟨_, _, ⟨rfl, rfl⟩, (), _, rfl, rfl, rfl⟩
  · rw [if_neg hs, if_neg hs, Transition.answers_pure, relabelled]

/-- The mapping of a round is a permutation, also when nothing is relabelled. -/
theorem roundMapping_perm (s : RewriteSettings) (c : Circuit R) :
    ((roundMapping s c).getD (List.range c.numQubits)).Perm (List.range c.numQubits) := by
  unfold roundMapping
  by_cases hs : s.relabeling = true
  · rw [if_pos hs, Option.getD_some]
    exact c.usageMapping_perm
  · rw [if_neg hs, Option.getD_none]

/-- Relabelling renames every qubit to its label, also when it is switched off. -/
theorem relabelled_eq_mapQubits [Scalar R] {c : Circuit R} (hc : c.WellFormed)
    (mapping : Option (List Nat)) :
    relabelled c mapping
      = c.mapQubits (Circuit.label (mapping.getD (List.range c.numQubits))) := by
  cases mapping with
  | some mapping => rfl
  | none =>
      rw [relabelled, Option.getD_none]
      exact (hc.placed.mapQubits_eq_self fun q hq => Circuit.label_range hq).symm

end Relabelling

section Round

variable [Scalar R]

/-- The gates after the passes of a round that work on gates. -/
def roundGates (s : RewriteSettings) (c : Circuit R) : List (Gate R) :=
  let cancelled := (cancelIf s.cancellation c.gates).1
  let fused := (fuseIf s.merging cancelled).1
  (layerIf s.layering c.numQubits (bubbleIf s.commutation fused).1).1

/-- The circuit with the gates after the passes, before it is relabelled. -/
def passed (s : RewriteSettings) (c : Circuit R) : Circuit R :=
  { c with gates := roundGates s c }

/-- The circuit that a round leaves behind. -/
def roundCircuit (s : RewriteSettings) (c : Circuit R) : Circuit R :=
  relabelled (passed s c) (roundMapping s (passed s c))

/-- The report of a round with so many fusions. -/
def roundReport (s : RewriteSettings) (c : Circuit R) (merged : Nat) : RewriteReport :=
  let cancelled := cancelIf s.cancellation c.gates
  let bubbled := bubbleIf s.commutation (fuseIf s.merging cancelled.1).1
  { gatesBefore := c.size
    gatesAfter := (roundCircuit s c).size
    depthBefore := c.depth
    depthAfter := (roundCircuit s c).depth
    cancelled := cancelled.2
    merged
    commuted := bubbled.2
    layers := (layerIf s.layering c.numQubits bubbled.1).2
    rounds := 1
    mapping := roundMapping s (passed s c) }

/-- Cancelling leaves only gates that were there. -/
theorem cancelIf_fits {n : Nat} {gates : List (Gate R)} (hfit : ∀ g ∈ gates, g.Fits n)
    (enabled : Bool) :
    ∀ g ∈ (cancelIf enabled gates).1, g.Fits n := by
  intro g hg
  cases enabled with
  | true => exact hfit g (mem_of_mem_cancel hg)
  | false => exact hfit g hg

theorem cancelIf_sameMeaning {n : Nat} {gates : List (Gate R)}
    (hfit : ∀ g ∈ gates, g.Fits n) (enabled : Bool) :
    SameMeaning.{u} n gates (cancelIf enabled gates).1 := by
  cases enabled with
  | true => exact cancel_sameMeaning hfit
  | false => exact SameMeaning.refl gates

/-- Fusing keeps the meaning, and its gates fit. -/
theorem fuseIf_sameMeaning {n : Nat} {gates : List (Gate R)} (hfit : ∀ g ∈ gates, g.Fits n)
    (enabled : Bool) :
    SameMeaning.{u} n gates (fuseIf enabled gates).1 ∧
      ∀ g ∈ (fuseIf enabled gates).1, g.Fits n := by
  cases enabled with
  | true => exact fuse_sameMeaning hfit
  | false => exact ⟨SameMeaning.refl gates, hfit⟩

omit [Scalar R] in
theorem bubbleIf_reorders (enabled : Bool) (gates : List (Gate R)) :
    Reorders gates (bubbleIf enabled gates).1 := by
  cases enabled with
  | true => exact bubble_reorders gates
  | false => exact Reorders.refl gates

omit [Scalar R] in
/-- Layering puts the gates in another order at most. -/
theorem layerIf_reorders {n : Nat} {gates : List (Gate R)}
    (hr : ∀ g ∈ gates, ∀ q ∈ g.qubits, q < n) (enabled : Bool) :
    Reorders gates (layerIf enabled n gates).1 := by
  cases enabled with
  | true => exact layer_reorders hr
  | false => exact Reorders.refl gates

/-- The two passes that reorder, one after the other. -/
theorem roundGates_reorders {c : Circuit R} (hc : c.WellFormed) (s : RewriteSettings) :
    Reorders (fuseIf s.merging (cancelIf s.cancellation c.gates).1).1 (roundGates s c) := by
  have hfit := (@fuseIf_sameMeaning.{0} R _ _ _ (cancelIf_fits hc.1 s.cancellation) s.merging).2
  have hbubble := bubbleIf_reorders s.commutation
    (fuseIf s.merging (cancelIf s.cancellation c.gates).1).1
  refine hbubble.trans (layerIf_reorders (fun g hg => ?_) s.layering)
  exact (hfit g (hbubble.perm.mem_iff.mpr hg)).1

/-- The passes keep the gates inside the register. -/
theorem roundGates_fits {c : Circuit R} (hc : c.WellFormed) (s : RewriteSettings) :
    ∀ g ∈ roundGates s c, g.Fits c.numQubits := by
  intro g hg
  refine (@fuseIf_sameMeaning.{0} R _ _ _ (cancelIf_fits hc.1 s.cancellation) s.merging).2 g ?_
  exact (roundGates_reorders hc s).perm.mem_iff.mpr hg

/-- The passes keep the meaning, one after the other. -/
theorem roundGates_sameMeaning {c : Circuit R} (hc : c.WellFormed) (s : RewriteSettings) :
    SameMeaning.{u} c.numQubits c.gates (roundGates s c) := by
  have hfit := cancelIf_fits hc.1 s.cancellation
  have hfuse := fuseIf_sameMeaning.{u} hfit s.merging
  exact ((cancelIf_sameMeaning hc.1 s.cancellation).trans hfuse.1).trans
    ((roundGates_reorders hc s).sameMeaning hfuse.2)

theorem wellFormed_passed {c : Circuit R} (hc : c.WellFormed) (s : RewriteSettings) :
    (passed s c).WellFormed :=
  ⟨roundGates_fits hc s, hc.2⟩

/-- What a round leaves is well-formed. -/
theorem wellFormed_roundCircuit {c : Circuit R} (hc : c.WellFormed) (s : RewriteSettings) :
    (roundCircuit s c).WellFormed := by
  have hpassed := wellFormed_passed hc s
  -- A relabelling that is switched off is one that gives each qubit its own label.
  rw [roundCircuit, relabelled_eq_mapQubits hpassed]
  exact Circuit.wellFormed_mapQubits
    (Circuit.renaming_label (roundMapping_perm s (passed s c))) hpassed

/-- A round succeeds on a circuit exactly when the circuit is well-formed and its
    fusing succeeds. It leaves `roundCircuit` behind, and answers with `roundReport`. -/
theorem answers_round (s : RewriteSettings) (c d : Circuit R) (r : RewriteReport) :
    Transition.Answers (round s) c r d ↔
      c.WellFormed ∧
        ∃ merged, (fuseIf s.merging (cancelIf s.cancellation c.gates).1).2 = .ok merged ∧
          r = roundReport s c merged ∧ d = roundCircuit s c := by
  simp only [round, Transition.answers_bind, Transition.answers_current,
    Transition.answers_require, ofEdit, Transition.answers_mapJournal]
  constructor
  · rintro ⟨_, _, ⟨rfl, rfl⟩, _, _, ⟨hvalid, rfl⟩, _, _, hcancel, h⟩
    have hc := (Circuit.validate_eq_ok _).mp hvalid
    -- The passes are inverted one after the other, in the order in which they run.
    rcases (answers_cancelPass _ _ _ _ _).mp hcancel with ⟨rfl, rfl⟩
    rcases h with ⟨_, _, hfuse, _, _, hbubble, h⟩
    rcases (answers_fusePass _ _ _ _ _ _).mp hfuse with ⟨merged, hmerged, rfl, rfl⟩
    rcases (answers_bubblePass _ _ _ _ _ _ _).mp hbubble with ⟨rfl, rfl⟩
    rcases h with ⟨_, _, hlayer, _, _, hset, _, _, hrelabel, _, _, ⟨rfl, rfl⟩, h⟩
    rcases (answers_layerPass _ _ _ _ _ _ _ _ _).mp hlayer with ⟨rfl, rfl⟩
    rcases (Circuit.answers_setGates _ _ _).mp hset with ⟨-, rfl⟩
    rcases (answers_relabelPass (wellFormed_passed hc s) s _ _).mp hrelabel with ⟨rfl, rfl⟩
    rcases (Transition.answers_pure _ _ _ _).mp h with ⟨rfl, rfl⟩
    exact ⟨hc, merged, hmerged, rfl, rfl⟩
  · rintro ⟨hc, merged, hmerged, rfl, rfl⟩
    exact ⟨c, c, ⟨rfl, rfl⟩, (), c, ⟨(Circuit.validate_eq_ok c).mpr hc, rfl⟩, _, c,
      (answers_cancelPass _ _ _ _ _).mpr ⟨rfl, rfl⟩, _, c,
      (answers_fusePass _ _ _ _ _ _).mpr ⟨merged, hmerged, rfl, rfl⟩, _, c,
      (answers_bubblePass _ _ _ _ _ _ _).mpr ⟨rfl, rfl⟩, _, c,
      (answers_layerPass _ _ _ _ _ _ _ _ _).mpr ⟨rfl, rfl⟩, (), passed s c,
      (Circuit.answers_setGates _ _ _).mpr ⟨roundGates_fits hc s, rfl⟩, _, roundCircuit s c,
      (answers_relabelPass (wellFormed_passed hc s) s _ _).mpr ⟨rfl, rfl⟩, _, _,
      ⟨rfl, rfl⟩, (Transition.answers_pure _ _ _ _).mpr ⟨rfl, rfl⟩⟩

/-- Nothing is left to cancel, although other passes came after the one that cancels. -/
theorem roundGates_settled_cancels {c : Circuit R} (hc : c.WellFormed) {s : RewriteSettings}
    (hs : s.cancellation = true) : Settled Cancels (roundGates s c) := by
  refine Settled.reorders ?_ (roundGates_reorders hc s)
  have hcancel : Settled Cancels (cancelIf s.cancellation c.gates).1 := by
    rw [hs]
    exact cancel_settled c.gates
  cases s.merging with
  | true => exact fuse_keeps_cancelled hcancel
  | false => exact hcancel

/-- Nothing is left to fuse, although the gates have been reordered since. -/
theorem roundGates_settled_fusible {c : Circuit R} (hc : c.WellFormed) {s : RewriteSettings}
    (hs : s.merging = true) {merged : Nat}
    (hm : (fuseIf s.merging (cancelIf s.cancellation c.gates).1).2 = .ok merged) :
    Settled Fusible (roundGates s c) := by
  refine Settled.reorders ?_ (roundGates_reorders hc s)
  rw [hs] at hm ⊢
  exact fuse_settled hm

end Round

end Rewrite

end QubitLab
