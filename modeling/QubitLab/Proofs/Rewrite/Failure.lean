import QubitLab.Proofs.Rewrite.FixedPoint

/-!
# Rewritings that fail

A rewriting can fail for two reasons. The circuit may break its rules, which is found
out before anything is done. Or two rotations are to be fused whose angles have a sum
that is not finite, and then the passes have only worked on a copy of the gates. So a
round that fails leaves the circuit as it was, and `fails_round` says when it fails.

Rounds until nothing changes fail in the first round or not at all. The second round
finds nothing to fuse, and there is no third one.

What a rewriting keeps in any case are the widths of the registers, the name, and the
classical bits of the measurements.

## Main definitions

* `Rewrite.Overflow`: Two angles whose sum is not finite.
* `Rewrite.SameFrame`: Two circuits agree in all that is not rewritten.

## Theorems

* `fuseFrom_overflow`: Why fusing stops.
* `fails_round`, `fails_untilStable`: When a rewriting fails, and what it leaves.
* `round_sameFrame`, `untilStable_sameFrame`: What a rewriting keeps.
* `failed_rewriting_untouched`: All of it in one.
-/

namespace QubitLab

namespace Rewrite

variable {R : Type} [Scalar R]

section Overflow

theorem paramCount_of_isAdditive {k : GateKind} (h : k.isAdditive = true) :
    k.paramCount = 1 := by
  cases k <;> first | rfl | exact absurd h (by decide)

/-- A rotation that passes its checks. It is no custom gate, so they are those of the
    constructor for its kind. -/
theorem checks_of_additive {n : Nat} {g : Gate R} (hg : g.Fits n)
    (hadd : g.kind.isAdditive = true) :
    g.kind.arity? = some g.qubits.length ∧ (∀ x ∈ g.params, Scalar.isFinite x = true) ∧
      g.qubits.Nodup := by
  rcases (Gate.validate_eq_ok g).mp hg.2 with ⟨_, -, hk, -⟩ | ⟨harity, hparams, hd⟩
  · rw [hk] at hadd
    exact absurd hadd (by decide)
  · exact ⟨harity, ((Gate.checkParams_eq_ok _ _).mp hparams).2, hd⟩

/-- A rotation can be given any finite angle, so its constructor fails for one reason. -/
theorem builtin_eq_error {n : Nat} {g : Gate R} (hg : g.Fits n)
    (hadd : g.kind.isAdditive = true) {x : R} {e : Error R}
    (h : Gate.builtin g.kind g.qubits [x] = .error e) :
    Scalar.isFinite x = false ∧ e = .invalidParameter (.notFinite g.kind.name x) := by
  rcases checks_of_additive hg hadd with ⟨harity, -, hd⟩
  have hcount := paramCount_of_isAdditive hadd
  -- All checks but the one for the angle have been passed by the rotation already.
  cases hx : Scalar.isFinite x with
  | true =>
      have hparams : (Gate.checkParams g.kind [x] : Except (Error R) Unit) = .ok () :=
        (Gate.checkParams_eq_ok _ _).mpr
          ⟨hcount.symm, fun y hy => by rwa [List.mem_singleton.mp hy]⟩
      rw [(Gate.builtin_eq_ok _ _ _ _).mpr ⟨harity, hparams, hd, rfl⟩] at h
      exact absurd h (by simp)
  | false =>
      have hparams : (Gate.checkParams g.kind [x] : Except (Error R) Unit)
          = .error (.invalidParameter (.notFinite g.kind.name x)) := by
        unfold Gate.checkParams
        rw [if_neg (by rw [hcount]; simp)]
        simp [hx]
      unfold Gate.builtin at h
      rw [harity] at h
      dsimp only at h
      rw [(Gate.checkArity_eq_ok _ _ _).mpr rfl, hparams] at h
      exact ⟨rfl, (Except.error.inj h).symm⟩

/-- Two rotations stand next to each other whose angles are finite and have a sum that
    is not, and the error is that of the sum. -/
def Overflow (gates : List (Gate R)) (e : Error R) : Prop :=
  ∃ i j g h a b, WireAdjacent gates i j g h ∧ g.kind.fused? h.kind = some g.kind ∧
    g.params = [a] ∧ h.params = [b] ∧ Scalar.isFinite a = true ∧ Scalar.isFinite b = true ∧
    Scalar.isFinite (a + b) = false ∧
    e = .invalidParameter (.notFinite g.kind.name (a + b))

/-- A fusion that is refused is one of two finite angles with a sum that is not. -/
theorem overflow_of_error {n : Nat} {gates : List (Gate R)} (hfit : ∀ g ∈ gates, g.Fits n)
    {i j : Nat} {kind : GateKind} {qubits : List Nat} {angle : R} {e : Error R}
    (hs : fusion? gates i = some (j, kind, qubits, angle))
    (he : Gate.builtin kind qubits [angle] = .error e) : Overflow gates e := by
  rcases (fusion?_eq_some _ _ _ _ _ _).mp hs with ⟨g, h, a, b, hadj, hk, ha, hb, rfl, rfl⟩
  -- Both are of the additive kind that is built, so both have passed its check of angles.
  rcases fused?_eq_some hk with ⟨hsame, rfl, hadd⟩
  have hg := hfit g (List.mem_of_getElem? hadj.left)
  have hh := hfit h (List.mem_of_getElem? hadj.right)
  rcases builtin_eq_error hg hadd he with ⟨hsum, herror⟩
  refine ⟨i, j, g, h, a, b, hadj, hk, ha, hb, ?_, ?_, hsum, herror⟩
  · exact (checks_of_additive hg hadd).2.1 a (by rw [ha]; exact List.mem_singleton_self a)
  · exact (checks_of_additive hh (hsame ▸ hadd)).2.1 b (by rw [hb]; exact List.mem_singleton_self b)

/-- A fusion keeps all gates inside the register. -/
theorem fits_fused {n : Nat} {gates : List (Gate R)} (hfit : ∀ g ∈ gates, g.Fits n)
    {i j : Nat} {kind : GateKind} {qubits : List Nat} {angle : R} {f : Gate R}
    (hs : fusion? gates i = some (j, kind, qubits, angle))
    (hf : Gate.builtin kind qubits [angle] = .ok f) :
    ∀ g ∈ (gates.set i f).eraseIdx j, g.Fits n := by
  rcases (fusion?_eq_some _ _ _ _ _ _).mp hs with ⟨g, h, a, b, hadj, -, -, -, rfl, -⟩
  intro e he
  rcases List.mem_or_eq_of_mem_set (List.mem_of_mem_eraseIdx he) with he | rfl
  · exact hfit e he
  · exact Gate.fits_builtin (hfit g (List.mem_of_getElem? hadj.left)).1 hf

/-- When the scan stops with an error, it has come to two such rotations. -/
theorem fuseFrom_overflow {n : Nat} {gates : List (Gate R)} {i fused : Nat} {e : Error R}
    (hfit : ∀ g ∈ gates, g.Fits n) (he : (fuseFrom gates i fused).2 = .error e) :
    Overflow (fuseFrom gates i fused).1 e := by
  -- Every list that the scan comes to has gates that fit, so what it stops at is a pair of
  -- rotations with finite angles.
  induction gates, i, fused using fuseFrom.induct with
  | case1 gates i fused hlt hn ih =>
      rw [fuseFrom_step fused hlt hn] at he ⊢
      exact ih hfit he
  | case2 gates i fused hlt j kind qubits angle hs e' hbuild =>
      rw [fuseFrom_fusion fused hlt hs, hbuild] at he ⊢
      rw [← Except.error.inj he]
      exact overflow_of_error hfit hs hbuild
  | case3 gates i fused hlt j kind qubits angle hs f hbuild ih =>
      rw [fuseFrom_fusion fused hlt hs, hbuild] at he ⊢
      exact ih (fits_fused hfit hs hbuild) he
  | case4 gates i fused hlt =>
      rw [fuseFrom, if_neg hlt] at he
      exact absurd he (by simp)

theorem fuseIf_overflow {n : Nat} {gates : List (Gate R)} {enabled : Bool} {e : Error R}
    (hfit : ∀ g ∈ gates, g.Fits n) (he : (fuseIf enabled gates).2 = .error e) :
    enabled = true ∧ Overflow (fuseIf enabled gates).1 e := by
  cases enabled with
  | true => exact ⟨rfl, fuseFrom_overflow hfit he⟩
  | false => exact absurd he (by simp [fuseIf])

end Overflow

section Failing

open Transition

/-- The pass that fuses fails when a sum of angles has gone wrong. -/
theorem fails_fusePass (enabled : Bool) (p : Passed R) (c d : Circuit R) (e : Error R) :
    Fails (fusePass enabled p) c e d ↔ (fuseIf enabled p.gates).2 = .error e ∧ d = c := by
  cases enabled <;> simp [fusePass, fuseIf]

/-- A round fails on its check or on its fusing, and leaves the circuit as it was. -/
theorem fails_round (s : RewriteSettings) (c d : Circuit R) (e : Error R) :
    Fails (round s) c e d ↔
      d = c ∧ (c.validate = .error e ∨ c.validate = .ok () ∧
        (fuseIf s.merging (cancelIf s.cancellation c.gates).1).2 = .error e) := by
  have hcheck : ∀ e', c.validate = .error e' → Fails (round s) c e' c := by
    intro e' hv
    simp only [round, fails_bind, fails_require]
    exact Or.inr ⟨c, c, ⟨rfl, rfl⟩, Or.inl ⟨hv, rfl⟩⟩
  have hfuse : ∀ e', c.validate = .ok () →
      (fuseIf s.merging (cancelIf s.cancellation c.gates).1).2 = .error e' →
        Fails (round s) c e' c := by
    intro e' hv hf
    simp only [round, fails_bind, fails_require, fails_fusePass]
    exact Or.inr ⟨c, c, ⟨rfl, rfl⟩, Or.inr ⟨(), c, ⟨hv, rfl⟩, Or.inr ⟨_, c,
      (answers_cancelPass _ _ _ _ _).mpr ⟨rfl, rfl⟩, Or.inl ⟨hf, rfl⟩⟩⟩⟩
  constructor
  · -- Where neither goes wrong the round answers, and a step cannot do both.
    intro h
    cases hv : c.validate with
    | error e' =>
        rcases fails_unique h (hcheck e' hv) with ⟨rfl, rfl⟩
        exact ⟨rfl, Or.inl rfl⟩
    | ok =>
        cases hf : (fuseIf s.merging (cancelIf s.cancellation c.gates).1).2 with
        | error e' =>
            rcases fails_unique h (hfuse e' hv hf) with ⟨rfl, rfl⟩
            exact ⟨rfl, Or.inr ⟨rfl, rfl⟩⟩
        | ok merged =>
            have hok := (answers_round s c (roundCircuit s c) _).mpr
              ⟨(Circuit.validate_eq_ok c).mp hv, merged, hf, rfl, rfl⟩
            exact absurd h (not_fails_of_answers hok)
  · rintro ⟨rfl, hv | ⟨hv, hf⟩⟩
    · exact hcheck e hv
    · exact hfuse e hv hf

/-- Rounds until nothing changes fail in the first of them or not at all. -/
theorem fails_untilStable {s : RewriteSettings} (hs : 1 ≤ s.maxRounds) (c d : Circuit R)
    (e : Error R) : Fails (untilStable s) c e d ↔ Fails (round s) c e d := by
  constructor
  · intro h
    cases hround : (round s c).result with
    | error e' =>
        have hfirst := (result_eq_error_iff _ c e').mp hround
        have hall : Fails (untilStable s) c e' (round s c).state :=
          (fails_bind _ _ c _ e').mpr (Or.inl hfirst)
        rcases fails_unique h hall with ⟨rfl, rfl⟩
        exact hfirst
    | ok r =>
        rcases untilStable_of_round hs ((result_eq_ok_iff _ c r).mp hround) with ⟨_, _, hok, -⟩
        exact absurd h (not_fails_of_answers hok)
  · intro h
    exact (fails_bind _ _ c d e).mpr (Or.inl h)

end Failing

section Frame

open Transition

/-- Two circuits agree in the widths of their registers, in the name, and in the classical
    bits that are measured into. -/
structure SameFrame (c d : Circuit R) : Prop where
  /-- The quantum registers have the same width. -/
  numQubits : d.numQubits = c.numQubits
  /-- The classical registers have the same width. -/
  numClbits : d.numClbits = c.numClbits
  /-- The names are the same. -/
  name : d.name = c.name
  /-- The classical bits of the measurements are the same, in the same order. -/
  clbits : d.measurements.map Prod.snd = c.measurements.map Prod.snd

omit [Scalar R] in
theorem SameFrame.refl (c : Circuit R) : SameFrame c c := ⟨rfl, rfl, rfl, rfl⟩

omit [Scalar R] in
/-- What two rewritings keep one after the other, they keep together. -/
theorem SameFrame.trans {c d e : Circuit R} (h1 : SameFrame c d) (h2 : SameFrame d e) :
    SameFrame c e :=
  ⟨h2.numQubits.trans h1.numQubits, h2.numClbits.trans h1.numClbits, h2.name.trans h1.name,
    h2.clbits.trans h1.clbits⟩

omit [Scalar R] in
/-- Relabelling renames the qubits of the measurements and nothing else of the frame. -/
theorem relabelled_sameFrame (c : Circuit R) (mapping : Option (List Nat)) :
    SameFrame c (relabelled c mapping) := by
  cases mapping with
  | none => exact SameFrame.refl c
  | some mapping =>
      refine ⟨rfl, rfl, rfl, ?_⟩
      rw [relabelled, Circuit.mapQubits_measurements, List.map_map]
      rfl

/-- A round keeps the frame of the circuit. -/
theorem round_sameFrame {s : RewriteSettings} {c d : Circuit R} {r : RewriteReport}
    (h : Answers (round s) c r d) : SameFrame c d := by
  rcases (answers_round s c d r).mp h with ⟨-, _, -, -, rfl⟩
  -- The passes on the gates leave the frame as it is.
  have hpassed : SameFrame c (passed s c) := ⟨rfl, rfl, rfl, rfl⟩
  exact hpassed.trans (relabelled_sameFrame (passed s c) (roundMapping s (passed s c)))

theorem moreRounds_sameFrame {s : RewriteSettings} {n : Nat} {c d : Circuit R}
    {total r : RewriteReport} (h : Answers (moreRounds s n total) c r d) : SameFrame c d := by
  induction n generalizing total c with
  | zero =>
      rw [moreRounds, answers_pure] at h
      rw [h.2]
      exact SameFrame.refl c
  | succ n ih =>
      simp only [moreRounds, answers_bind, answers_reading] at h
      rcases h with ⟨_, before, ⟨rfl, rfl⟩, report, _, hround, _, after, ⟨rfl, rfl⟩, h⟩
      have hfirst := round_sameFrame hround
      by_cases hsize : after.size = before.size
      · rw [if_pos hsize, answers_pure] at h
        rw [h.2]
        exact hfirst
      · rw [if_neg hsize] at h
        exact hfirst.trans (ih h)

/-- Rounds until nothing changes keep the frame as well. -/
theorem untilStable_sameFrame {s : RewriteSettings} {c d : Circuit R} {r : RewriteReport}
    (h : Answers (untilStable s) c r d) : SameFrame c d := by
  simp only [untilStable, answers_bind, answers_note, answers_pure] at h
  rcases h with ⟨_, _, hfirst, _, _, hmore, _, _, rfl, rfl, rfl⟩
  exact (round_sameFrame hfirst).trans (moreRounds_sameFrame hmore)

end Frame

section Rewriting

open Transition

/-- A rewriting that fails leaves the circuit as it was, and it is the first round that
    fails. If the circuit keeps its rules, then two finite angles had a sum that is not
    finite. A rewriting that succeeds keeps the frame of the circuit. -/
theorem failed_rewriting_untouched {s : RewriteSettings} (hs : 1 ≤ s.maxRounds)
    (c : Circuit R) {rewriting : Rewriting R RewriteReport}
    (hkind : rewriting = round s ∨ rewriting = untilStable s) :
    (∀ e, (rewriting c).result = .error e →
      (rewriting c).state = c ∧ (round s c).result = .error e ∧
        (c.validate = .ok () → s.merging = true ∧
          Overflow (fuseIf s.merging (cancelIf s.cancellation c.gates).1).1 e)) ∧
    ∀ r, (rewriting c).result = .ok r → SameFrame c (rewriting c).state := by
  constructor
  · intro e he
    have hfails : Fails (round s) c e (rewriting c).state := by
      have h := (result_eq_error_iff rewriting c e).mp he
      rcases hkind with rfl | rfl
      · exact h
      · exact (fails_untilStable hs c _ e).mp h
    rcases (fails_round s c _ e).mp hfails with ⟨hstate, hcause⟩
    refine ⟨hstate, hfails.1, fun hvalid => ?_⟩
    rcases hcause with hv | ⟨hv, hf⟩
    · -- The check went through, so it is not what failed.
      rw [hvalid] at hv
      exact absurd hv (by simp)
    · have hfit := ((Circuit.validate_eq_ok c).mp hvalid).1
      exact fuseIf_overflow (cancelIf_fits hfit s.cancellation) hf
  · intro r hr
    have h := (result_eq_ok_iff rewriting c r).mp hr
    rcases hkind with rfl | rfl
    · exact round_sameFrame h
    · exact untilStable_sameFrame h

/-- A circuit with a pair of gates that cancel, and a measurement of a qubit that it does
    not have. -/
def misread : Circuit ℝ where
  numQubits := 2
  numClbits := 1
  gates := [⟨.h, [1], [], none⟩, ⟨.h, [1], [], none⟩]
  measurements := [(2, 0)]
  name := some "misread"

theorem misread_untouched :
    (untilStable .full misread).result = .error (.qubitOutOfRange 2 2) ∧
      (untilStable .full misread).state = misread := by
  have herror : (untilStable .full misread).result = .error (.qubitOutOfRange 2 2) := by
    cbv
  exact ⟨herror, ((failed_rewriting_untouched (s := .full) (by decide) misread
    (Or.inr rfl)).1 _ herror).1⟩

end Rewriting

end Rewrite

end QubitLab
