import Mathlib.Analysis.Real.Sqrt
import QubitLab.Noise.Channel
import QubitLab.Proofs.Exact.Unitary

/-!
# Complete sets of operators

A channel replaces a state by one of several others, one for each of its operators, and
these keep the total probability when the products of the operators with their adjoints add
up to the identity. For every channel here each of these products is diagonal, with two
weights on the diagonal, so it is the weights that have to add up. A Pauli operator has the
same weight on both basis states, which is its probability. The damping channels divide the
weight of the excited state alone, between what is kept and what decays or loses its phase.

The weights are squares of roots, so this is where the rate has to be a probability, and where
nothing may be rounded.

## Main definitions

* `Matrix2.Weighs`: The adjoint of an operator times the operator is diagonal.
* `NoiseChannel.weights`: The weights of the operators of a channel.

## Theorems

* `weighs_scale`, `weighs_diagonal`, `weighs_lowering`: The shapes that operators have.
* `completenessSum_of_weighs`: Products add up when weights do.
* `weighs_operators`, `sum_weights`: The operators of the channels.
* `isTracePreserving_of_complete`: An exact sum passes the check with every tolerance.
* `krausOperators_complete`: The operators are told for probabilities only, and they are
  complete.
-/

namespace QubitLab

open QubitLab.Complex

namespace Matrix2

/-- The adjoint of an operator times the operator has the weights on its diagonal, and zeros
    beside it. -/
def Weighs (m : Matrix2 (Complex ℝ)) (weights : ℝ × ℝ) : Prop :=
  m.dagger.mul m = diagonal (ofReal weights.1) (ofReal weights.2)

/-- A matrix that is the identity after its adjoint, scaled by a root, weighs both basis
    states by the number under the root. -/
theorem weighs_scale {m : Matrix2 (Complex ℝ)} (hm : m.dagger.mul m = Unitary.identity) {x : ℝ}
    (hx : 0 ≤ x) : (m.scale (Scalar.sqrt x)).Weighs (x, x) := by
  have hroot : √x * √x = x := Real.mul_self_sqrt hx
  have hscale : (m.scale (Scalar.sqrt x)).dagger.mul (m.scale (Scalar.sqrt x))
      = (m.dagger.mul m).scale (√x * √x) := by
    ext <;> simp [mul, dagger, scale, Complex.scale] <;> ring
  rw [Weighs, hscale, hm, hroot]
  ext <;> simp [Unitary.identity, diagonal, scale, Complex.scale]

theorem weighs_diagonal (a b : ℝ) : (diagonal (ofReal a) (ofReal b)).Weighs (a * a, b * b) := by
  ext <;> simp [mul, dagger, diagonal]

/-- What takes the excited state down weighs this state alone. -/
theorem weighs_lowering (b : ℝ) :
    (⟨0, ofReal b, 0, 0⟩ : Matrix2 (Complex ℝ)).Weighs (0, b * b) := by
  ext <;> simp [mul, dagger, diagonal]

theorem diagonal_add (a b c d : ℝ) :
    (diagonal (ofReal a) (ofReal b)).add (diagonal (ofReal c) (ofReal d))
      = diagonal (ofReal (a + c)) (ofReal (b + d)) := by
  ext <;> simp [add, diagonal]

theorem maxDiff_self (m : Matrix2 (Complex ℝ)) : m.maxDiff m = 0 := by
  simp [maxDiff, entries, Complex.norm, Scalar.larger]

end Matrix2

namespace Unitary

theorem dagger_mul_identity : (identity : Matrix2 (Complex ℝ)).dagger.mul identity = identity := by
  ext <;> simp [Matrix2.mul, Matrix2.dagger, identity]

theorem dagger_pauliX : (pauliX : Matrix2 (Complex ℝ)).dagger = pauliX := by
  ext <;> simp [Matrix2.dagger, pauliX]

theorem dagger_pauliY : (pauliY : Matrix2 (Complex ℝ)).dagger = pauliY := by
  ext <;> simp [Matrix2.dagger, pauliY]

theorem dagger_pauliZ : (pauliZ : Matrix2 (Complex ℝ)).dagger = pauliZ := by
  ext <;> simp [Matrix2.dagger, pauliZ]

/-- Each Pauli operator is its own adjoint and its own inverse. -/
theorem dagger_mul_pauliX : (pauliX : Matrix2 (Complex ℝ)).dagger.mul pauliX = identity := by
  rw [dagger_pauliX, pauliX_mul_pauliX]

theorem dagger_mul_pauliY : (pauliY : Matrix2 (Complex ℝ)).dagger.mul pauliY = identity := by
  rw [dagger_pauliY, pauliY_mul_pauliY]

theorem dagger_mul_pauliZ : (pauliZ : Matrix2 (Complex ℝ)).dagger.mul pauliZ = identity := by
  rw [dagger_pauliZ, pauliZ_mul_pauliZ]

end Unitary

namespace Kraus

open Matrix2

/-- The products of the operators with their adjoints add up as their weights do. -/
theorem completenessSum_of_weighs {ops : List (Matrix2 (Complex ℝ))} {weights : List (ℝ × ℝ)}
    (h : List.Forall₂ Weighs ops weights) :
    completenessSum ops
      = diagonal (ofReal (weights.map Prod.fst).sum) (ofReal (weights.map Prod.snd).sum) := by
  have hfrom : ∀ a b : ℝ,
      ops.foldl (fun acc k => acc.add (k.dagger.mul k)) (diagonal (ofReal a) (ofReal b))
        = diagonal (ofReal (a + (weights.map Prod.fst).sum))
            (ofReal (b + (weights.map Prod.snd).sum)) := by
    induction h with
    | nil => simp
    | cons hfirst _ ih =>
        intro a b
        rw [List.foldl_cons, hfirst, diagonal_add, ih, List.map_cons, List.map_cons, List.sum_cons,
          List.sum_cons, add_assoc, add_assoc]
  have hsum := hfrom 0 0
  rw [zero_add, zero_add] at hsum
  exact hsum

/-- What is exactly the identity is within every distance of it. -/
theorem isTracePreserving_of_complete {ops : List (Matrix2 (Complex ℝ))}
    (h : completenessSum ops = Unitary.identity) {tolerance : ℝ} (ht : 0 ≤ tolerance) :
    isTracePreserving ops tolerance = true := by
  rw [isTracePreserving, h, maxDiff_self, Exact.le_iff]
  exact ht

end Kraus

namespace NoiseChannel

open Matrix2 QubitLab.Unitary

/-- The weights that the operators of a channel give to the two basis states. -/
noncomputable def weights (c : NoiseChannel) (rate : ℝ) : List (ℝ × ℝ) :=
  match c with
  | depolarizing =>
    let each := rate / Scalar.ofNat 3
    [(1 - rate, 1 - rate), (each, each), (each, each), (each, each)]
  | amplitudeDamping | phaseDamping => [(1, 1 - rate), (0, rate)]
  | bitFlip | phaseFlip | bitPhaseFlip => [(1 - rate, 1 - rate), (rate, rate)]

section Weights

variable {rate : ℝ}

theorem weighs_keep_damped (h : rate ≤ 1) :
    (diagonal 1 (ofReal (Scalar.sqrt (1 - rate)))).Weighs (1, 1 - rate) := by
  have hdiagonal := weighs_diagonal 1 √(1 - rate)
  rw [mul_one, Real.mul_self_sqrt (sub_nonneg.mpr h)] at hdiagonal
  exact hdiagonal

theorem weighs_flipOperators (h : 0 ≤ rate ∧ rate ≤ 1) {pauli : Matrix2 (Complex ℝ)}
    (hp : pauli.dagger.mul pauli = identity) :
    List.Forall₂ Weighs (flipOperators (Scalar.sqrt (1 - rate)) (Scalar.sqrt rate) pauli)
      [(1 - rate, 1 - rate), (rate, rate)] :=
  .cons (weighs_scale dagger_mul_identity (sub_nonneg.mpr h.2)) (.cons (weighs_scale hp h.1) .nil)

theorem weighs_operators (c : NoiseChannel) (h : 0 ≤ rate ∧ rate ≤ 1) :
    List.Forall₂ Weighs (c.operators rate) (c.weights rate) := by
  have hroot : √rate * √rate = rate := Real.mul_self_sqrt h.1
  cases c with
  | depolarizing =>
      have hthird : 0 ≤ rate / Scalar.ofNat 3 := div_nonneg h.1 (Nat.cast_nonneg 3)
      exact .cons (weighs_scale dagger_mul_identity (sub_nonneg.mpr h.2))
        (.cons (weighs_scale dagger_mul_pauliX hthird)
          (.cons (weighs_scale dagger_mul_pauliY hthird)
            (.cons (weighs_scale dagger_mul_pauliZ hthird) .nil)))
  | amplitudeDamping =>
      have hdecay := weighs_lowering √rate
      rw [hroot] at hdecay
      exact .cons (weighs_keep_damped h.2) (.cons hdecay .nil)
  | phaseDamping =>
      have hlost := weighs_diagonal 0 √rate
      rw [mul_zero, hroot] at hlost
      exact .cons (weighs_keep_damped h.2) (.cons hlost .nil)
  | bitFlip => exact weighs_flipOperators h dagger_mul_pauliX
  | phaseFlip => exact weighs_flipOperators h dagger_mul_pauliZ
  | bitPhaseFlip => exact weighs_flipOperators h dagger_mul_pauliY

/-- Nothing is gained or lost on either basis state. -/
theorem sum_weights (c : NoiseChannel) (rate : ℝ) :
    ((c.weights rate).map Prod.fst).sum = 1 ∧ ((c.weights rate).map Prod.snd).sum = 1 := by
  cases c with
  | depolarizing =>
      have hthirds : 1 - rate + (rate / 3 + (rate / 3 + rate / 3)) = 1 := by ring
      simp [weights, hthirds]
  | amplitudeDamping | phaseDamping => simp [weights]
  | bitFlip | phaseFlip | bitPhaseFlip => simp [weights]

end Weights

section Rates

theorem krausOperators_of_unit (c : NoiseChannel) {rate : ℝ} (h : 0 ≤ rate ∧ rate ≤ 1) :
    c.krausOperators rate = .ok (c.operators rate) := by
  have hunit : Scalar.le 0 rate = true ∧ Scalar.le rate 1 = true :=
    ⟨(Exact.le_iff 0 rate).mpr h.1, (Exact.le_iff rate 1).mpr h.2⟩
  rw [krausOperators, Probability.ofScalar, dif_pos hunit]
  rfl

theorem krausOperators_of_not_unit (c : NoiseChannel) {rate : ℝ} (h : ¬ (0 ≤ rate ∧ rate ≤ 1)) :
    c.krausOperators rate = .error (.invalidProbability rate) := by
  rw [krausOperators, Probability.ofScalar, dif_neg]
  · rfl
  · rwa [Exact.le_iff, Exact.le_iff]

/-- The operators have the identity as the sum of their products with their adjoints. -/
theorem completenessSum_operators (c : NoiseChannel) {rate : ℝ} (h : 0 ≤ rate ∧ rate ≤ 1) :
    Kraus.completenessSum (c.operators rate) = identity := by
  rw [Kraus.completenessSum_of_weighs (weighs_operators c h), (sum_weights c rate).1,
    (sum_weights c rate).2]
  rfl

end Rates

/-- The operators of a channel are told exactly for the rates that are probabilities, and
    other rates are refused as such. With nothing rounded, the products of the operators with
    their adjoints add up to the identity, so they are trace preserving up to every
    tolerance. -/
theorem krausOperators_complete (c : NoiseChannel) (rate : ℝ) :
    ((∃ ops, c.krausOperators rate = .ok ops) ↔ 0 ≤ rate ∧ rate ≤ 1) ∧
      (¬ (0 ≤ rate ∧ rate ≤ 1) → c.krausOperators rate = .error (.invalidProbability rate)) ∧
      ∀ ops, c.krausOperators rate = .ok ops →
        Kraus.completenessSum ops = identity ∧
          ∀ tolerance, 0 ≤ tolerance → Kraus.isTracePreserving ops tolerance = true := by
  have hunit : ∀ ops, c.krausOperators rate = .ok ops → 0 ≤ rate ∧ rate ≤ 1 := by
    intro ops hops
    by_contra h
    rw [krausOperators_of_not_unit c h] at hops
    exact absurd hops (by simp)
  refine ⟨⟨fun ⟨ops, hops⟩ => hunit ops hops, fun h => ⟨_, krausOperators_of_unit c h⟩⟩,
    krausOperators_of_not_unit c, fun ops hops => ?_⟩
  · have hrate := hunit ops hops
    rw [krausOperators_of_unit c hrate, Except.ok.injEq] at hops
    have hsum := hops ▸ completenessSum_operators c hrate
    exact ⟨hsum, fun _ ht => Kraus.isTracePreserving_of_complete hsum ht⟩

/-- A rate that is no square, and the strictest tolerance. -/
theorem depolarizing_complete :
    ∃ ops, depolarizing.krausOperators (Scalar.half : ℝ) = .ok ops ∧
      Kraus.completenessSum ops = identity ∧ Kraus.isTracePreserving ops 0 = true := by
  rcases krausOperators_complete depolarizing Scalar.half with ⟨haccepted, -, hcomplete⟩
  have hrate : (0 : ℝ) ≤ Scalar.half ∧ (Scalar.half : ℝ) ≤ 1 := by norm_num
  rcases haccepted.mpr hrate with ⟨ops, hops⟩
  rcases hcomplete ops hops with ⟨hsum, hpreserving⟩
  exact ⟨ops, hops, hsum, hpreserving 0 (le_refl 0)⟩

end NoiseChannel

end QubitLab
