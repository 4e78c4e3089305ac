import QubitLab.Proofs.Simulator.Reading
import QubitLab.Proofs.Simulator.Shots
import QubitLab.Statevector.Observable

/-!
# The Born rule

Qubits that are read one after the other are each read from what the readings before have
left, and each reading divides by the root of a share of its own. The shares of the norm
that these readings compute multiply to the share of the whole list, since each of them
takes the share of the rest up to a share of the norm before it. The share of a list does not
depend on its order, and so neither do the product and what is left in the end.

The rule is about outcomes whose probabilities do not count as zero, in the order in which
they are read. Every such list of outcomes comes about: the draw zero makes an outcome one,
and a draw that is as large as the share of the ones makes it zero.

When all qubits are read, one basis state agrees with the outcomes, and the share is the
probability that the simulator tells of it.

## Main definitions

* `Simulator.stepProbabilities`: The probabilities of outcomes that are read in turn.
* `Simulator.probabilitiesAlong`: The same as a run computes them.
* `Simulator.onTape`: A simulator with other random numbers.

## Theorems

* `likely_cons`: Probabilities that do not count as zero, one at a time.
* `prod_stepProbabilities`: The probabilities multiply to the share.
* `answers_collect_projects`: What a run computes and leaves.
* `exists_draws`: Outcomes can be drawn.
* `measureAll_projects`: What is left when all qubits are read.
* `readings_follow_born_rule`: All of it in one.
-/

namespace QubitLab

open Statevector

namespace Simulator

open Transition

section Products

/-- The probabilities of outcomes that are read in turn, each from what the ones before have
    left. -/
noncomputable def stepProbabilities : List (Nat × Bool) → Buffer (Complex ℝ) → List ℝ
  | [], _ => []
  | (q, b) :: rest, s =>
      s.outcomeShare q b :: stepProbabilities rest (s.collapse q b (divisor (s.outcomeShare q b)))

variable {n q : Nat} {b : Bool} {readings rest : List (Nat × Bool)} {s : Buffer (Complex ℝ)}

theorem stepProbabilities_cons (h : Scalar.zeroNorm < s.outcomeShare q b) :
    stepProbabilities ((q, b) :: rest) s = s.outcomeShare q b ::
      stepProbabilities rest (s.collapse q b (s.outcomeShare q b)) := by
  rw [stepProbabilities, divisor_of_lt h]

/-- The first probability does not count as zero, and so it is divided by. -/
theorem likely_cons (h : ∀ p ∈ stepProbabilities ((q, b) :: rest) s, Scalar.zeroNorm < p) :
    Scalar.zeroNorm < s.outcomeShare q b ∧
      ∀ p ∈ stepProbabilities rest (s.collapse q b (s.outcomeShare q b)), Scalar.zeroNorm < p := by
  have hfirst : Scalar.zeroNorm < s.outcomeShare q b := h _ List.mem_cons_self
  rw [stepProbabilities_cons hfirst] at h
  exact List.forall_mem_cons.mp h

/-- Each probability divides the share of the rest, and so they multiply to the share of all
    of them. -/
theorem prod_stepProbabilities (hs : s.IsState n)
    (hlikely : ∀ p ∈ stepProbabilities readings s, Scalar.zeroNorm < p) :
    (stepProbabilities readings s).prod = s.share readings := by
  induction readings generalizing s with
  | nil => rw [stepProbabilities, List.prod_nil, Buffer.share_nil, hs.normSq]
  | cons x rest ih =>
      rcases x with ⟨q, b⟩
      rcases likely_cons hlikely with ⟨hfirst, hlater⟩
      have hpos := Buffer.zeroNorm_pos.trans hfirst
      -- The share of the rest is taken from the collapsed buffer, where it has been divided by the
      -- first probability.
      rw [stepProbabilities_cons hfirst, List.prod_cons, ih (hs.collapse q hfirst rfl) hlater,
        Buffer.share_collapse q b hpos, ← mul_assoc, mul_one_div_cancel hpos.ne', one_mul]

end Products

section Runs

variable {G : Type} {n : Nat} [RandomSource ℝ G] {s t u : Simulator ℝ G} {q : Nat} {b : Bool}
  {readings : List (Nat × Bool)}

/-- The probabilities that a run computes of what it reads. -/
noncomputable def probabilitiesAlong : List Nat → Simulator ℝ G → List ℝ
  | [], _ => []
  | q :: rest, s => outcomeProbability q s :: probabilitiesAlong rest (measure q s).state

/-- A reading gives the outcome of its draw, and leaves the buffer collapsed onto it. -/
theorem answers_measure_iff (hq : q < s.numQubits) :
    Answers (measure q) s b t ↔ b = readOutcome q s ∧
      t = s.drawn.withBuffer (s.buffer.collapse q b (divisor (s.buffer.outcomeShare q b))) := by
  constructor
  · intro h
    rcases answers_unique h (answers_measure hq) with ⟨rfl, ht⟩
    exact ⟨rfl, ht⟩
  · rintro ⟨rfl, rfl⟩
    exact answers_measure hq

/-- What a run of readings computes, and what it leaves. -/
theorem answers_collect_projects (hwidth : s.HasWidth n) (hs : s.buffer.IsState n)
    (hq : ∀ x ∈ readings, x.1 < n)
    (hlikely : ∀ p ∈ stepProbabilities readings s.buffer, Scalar.zeroNorm < p)
    (h : Answers (collect measure (readings.map Prod.fst)) s (readings.map Prod.snd) u) :
    probabilitiesAlong (readings.map Prod.fst) s = stepProbabilities readings s.buffer ∧
      Buffer.Projects readings s.buffer u.buffer := by
  -- By induction on what is read, with the state free. The share that a reading divides by is the
  -- probability that it has computed, and what it leaves is a state again.
  induction readings generalizing s with
  | nil =>
      rcases (answers_answer _ _ s u).mp h with ⟨-, rfl⟩
      exact ⟨rfl, Buffer.projects_nil hs.normSq⟩
  | cons x rest ih =>
      rcases x with ⟨q, b⟩
      rcases likely_cons hlikely with ⟨hfirst, hlater⟩
      rcases (answers_collect_cons measure q _ _ s u).mp h with ⟨b', t, bits, hread, hrest, hbits⟩
      obtain ⟨rfl, rfl⟩ : b = b' ∧ rest.map Prod.snd = bits := List.cons.inj hbits
      have hin : q < s.numQubits := hwidth.symm ▸ hq _ List.mem_cons_self
      rcases (answers_measure_iff hin).mp hread with ⟨hb, ht⟩
      rw [divisor_of_lt hfirst] at ht
      have hbuf : t.buffer = s.buffer.collapse q b (s.buffer.outcomeShare q b) :=
        congrArg Simulator.buffer ht
      have hstate : (measure q s).state = t := hread.2
      -- The rest is read from the collapsed buffer.
      rcases ih (ht ▸ hwidth) (hbuf ▸ hs.collapse q hfirst rfl)
        (fun x hx => hq x (List.mem_cons_of_mem _ hx)) (hbuf ▸ hlater) hrest with ⟨hprobs, hleft⟩
      rw [hbuf] at hprobs hleft
      -- The projections compose, since the first one divides by a share that is not zero.
      refine ⟨?_, Buffer.Projects.cons (Buffer.zeroNorm_pos.trans hfirst) hleft⟩
      rw [stepProbabilities_cons hfirst, List.map_cons, probabilitiesAlong, hstate, hprobs, hb]
      rfl

end Runs

section Draws

variable {G : Type} {n : Nat} {s : Simulator ℝ G} {readings : List (Nat × Bool)}

/-- The simulator with random numbers that are given. -/
def onTape (s : Simulator ℝ G) (draws : List ℝ) : Simulator ℝ Exact.Tape where
  numQubits := s.numQubits
  buffer := s.buffer
  snapshots := s.snapshots
  noise := s.noise
  generator := ⟨draws, []⟩

/-- An outcome with a share of the norm can be drawn. -/
theorem exists_draw (hs : s.buffer.normSq = 1) {q : Nat} {b : Bool}
    (hpos : 0 < s.buffer.outcomeShare q b) :
    ∃ r ∈ Set.Ico (0 : ℝ) 1, ∀ draws, readOutcome q (s.onTape (r :: draws)) = b := by
  cases b with
  | true => exact ⟨0, ⟨le_refl 0, one_pos⟩, fun draws => (Exact.lt_iff _ _).mpr hpos⟩
  | false =>
      -- The share of the ones is itself a draw, and the least one that gives a zero.
      have hbelow : s.buffer.outcomeShare q true < 1 := by
        have hless : 0 < s.buffer.normSq - s.buffer.outcomeShare q true := hpos
        linarith
      have hzero : 0 ≤ s.buffer.outcomeShare q true :=
        Buffer.share_single q true s.buffer ▸ Buffer.share_nonneg _ _
      refine ⟨s.buffer.outcomeShare q true, ⟨hzero, hbelow⟩, fun draws => ?_⟩
      rw [← Bool.not_eq_true]
      exact fun h => lt_irrefl _ ((Exact.lt_iff _ _).mp h)

/-- Outcomes whose probabilities do not count as zero can be drawn one after the other. -/
theorem exists_draws (hwidth : s.HasWidth n) (hs : s.buffer.IsState n)
    (hq : ∀ x ∈ readings, x.1 < n)
    (hlikely : ∀ p ∈ stepProbabilities readings s.buffer, Scalar.zeroNorm < p) :
    ∃ draws : List ℝ, (∀ r ∈ draws, r ∈ Set.Ico (0 : ℝ) 1) ∧
      ∃ u, Answers (collect measure (readings.map Prod.fst)) (s.onTape draws)
        (readings.map Prod.snd) u := by
  -- The draws are found from the first reading on, each for the state that the ones before have
  -- left.
  induction readings generalizing s with
  | nil =>
      exact ⟨[], fun r hr => absurd hr List.not_mem_nil, _, (answers_answer _ _ _ _).mpr ⟨rfl, rfl⟩⟩
  | cons x rest ih =>
      rcases x with ⟨q, b⟩
      rcases likely_cons hlikely with ⟨hfirst, hlater⟩
      rcases exists_draw hs.normSq (Buffer.zeroNorm_pos.trans hfirst) with ⟨r, hr, hread⟩
      -- What the first reading leaves does not depend on the draws that are still to come.
      have hrest : ∃ draws : List ℝ, (∀ r ∈ draws, r ∈ Set.Ico (0 : ℝ) 1) ∧ ∃ u,
          Answers (collect measure (rest.map Prod.fst)) ((s.withBuffer (s.buffer.collapse q b
            (s.buffer.outcomeShare q b))).onTape draws) (rest.map Prod.snd) u :=
        ih hwidth (hs.collapse q hfirst rfl) (fun x hx => hq x (List.mem_cons_of_mem _ hx)) hlater
      rcases hrest with ⟨draws, hdraws, u, hu⟩
      rw [← divisor_of_lt hfirst] at hu
      have hin : q < (s.onTape (r :: draws)).numQubits := hwidth.symm ▸ hq _ List.mem_cons_self
      refine ⟨r :: draws, List.forall_mem_cons.mpr ⟨hr, hdraws⟩, u, ?_⟩
      rw [List.map_cons, List.map_cons, answers_collect_cons]
      exact ⟨b, _, _, (answers_measure_iff hin).mpr ⟨(hread draws).symm, rfl⟩, hu, rfl⟩

end Draws

section Registers

variable {G : Type} {n : Nat} [RandomSource ℝ G] {s u : Simulator ℝ G}
  {readings : List (Nat × Bool)}

/-- To read all qubits is to read one after the other. -/
theorem answers_measureAll_iff (hwidth : s.HasWidth n)
    (hall : readings.map Prod.fst = List.range n) {bits : Bitstring} :
    Answers measureAll s bits u ↔ Answers (collect measure (readings.map Prod.fst)) s bits u := by
  rw [hall, ← hwidth]
  exact (answers_collect_measure fun q hq => List.mem_range.mp hq).symm

/-- When all qubits are read, the only amplitude left is that of the outcomes. -/
theorem measureAll_projects (hwidth : s.HasWidth n) (hs : s.buffer.IsState n)
    (hlikely : ∀ p ∈ stepProbabilities readings s.buffer, Scalar.zeroNorm < p)
    (hall : readings.map Prod.fst = List.range n)
    (h : Answers measureAll s (readings.map Prod.snd) u) :
    Buffer.Projects readings s.buffer u.buffer ∧
      ∀ i, i < 2 ^ n → (u.buffer.amplitude i ≠ 0 ↔ i = basisIndex (readings.map Prod.snd)) := by
  have hq : ∀ x ∈ readings, x.1 < n := fun x hx =>
    List.mem_range.mp (hall ▸ List.mem_map_of_mem hx)
  have hpos : 0 < s.buffer.share readings :=
    prod_stepProbabilities hs hlikely ▸
      List.prod_pos fun p hp => Buffer.zeroNorm_pos.trans (hlikely p hp)
  have hleft := (answers_collect_projects hwidth hs hq hlikely
    ((answers_measureAll_iff hwidth hall).mp h)).2
  exact ⟨hleft, fun i hi => hleft.ne_zero_iff hs.size hpos hall hi⟩

end Registers

section Rule

variable {G : Type} {n : Nat} [RandomSource ℝ G] {s : Simulator ℝ G} {readings : List (Nat × Bool)}

/-- The Born rule. The probabilities of outcomes that are read in turn multiply to the share
    of the norm that agrees with all of them, and what is left is the projection onto it.
    These probabilities are the ones that a run computes, in another order the product and
    what is left are the same, and the outcomes can be drawn. All qubits can be read at once,
    and each gives a bit. Then the product is the probability that the simulator tells of the
    bits, they can be drawn, and the only amplitude left is theirs. -/
theorem readings_follow_born_rule (hwidth : s.HasWidth n) (hs : s.buffer.IsState n)
    (hq : ∀ x ∈ readings, x.1 < n)
    (hlikely : ∀ p ∈ stepProbabilities readings s.buffer, Scalar.zeroNorm < p) :
    (stepProbabilities readings s.buffer).prod = s.buffer.share readings ∧
      (∀ u, Answers (collect measure (readings.map Prod.fst)) s (readings.map Prod.snd) u →
        probabilitiesAlong (readings.map Prod.fst) s = stepProbabilities readings s.buffer ∧
          Buffer.Projects readings s.buffer u.buffer) ∧
      (∀ order, order.Perm readings →
        (∀ p ∈ stepProbabilities order s.buffer, Scalar.zeroNorm < p) →
          (stepProbabilities order s.buffer).prod = (stepProbabilities readings s.buffer).prod ∧
          ∀ s' u u' : Simulator ℝ G, s'.HasWidth n → s'.buffer = s.buffer →
            Answers (collect measure (readings.map Prod.fst)) s (readings.map Prod.snd) u →
            Answers (collect measure (order.map Prod.fst)) s' (order.map Prod.snd) u' →
              u'.buffer = u.buffer) ∧
      (∃ draws : List ℝ, (∀ r ∈ draws, r ∈ Set.Ico (0 : ℝ) 1) ∧
        ∃ u, Answers (collect measure (readings.map Prod.fst)) (s.onTape draws)
          (readings.map Prod.snd) u ∧ Buffer.Projects readings s.buffer u.buffer) ∧
      (∃ bits u, Answers measureAll s bits u ∧ bits.length = n) ∧
      (readings.map Prod.fst = List.range n →
        s.probabilityOfBits (readings.map Prod.snd)
            = .ok (stepProbabilities readings s.buffer).prod ∧
          (∃ draws : List ℝ, (∀ r ∈ draws, r ∈ Set.Ico (0 : ℝ) 1) ∧
            ∃ u, Answers measureAll (s.onTape draws) (readings.map Prod.snd) u ∧
              Buffer.Projects readings s.buffer u.buffer ∧ ∀ i, i < 2 ^ n →
                (u.buffer.amplitude i ≠ 0 ↔ i = basisIndex (readings.map Prod.snd))) ∧
          ∀ u, Answers measureAll s (readings.map Prod.snd) u →
            Buffer.Projects readings s.buffer u.buffer ∧ ∀ i, i < 2 ^ n →
              (u.buffer.amplitude i ≠ 0 ↔ i = basisIndex (readings.map Prod.snd))) := by
  have hprod := prod_stepProbabilities hs hlikely
  rcases exists_draws hwidth hs hq hlikely with ⟨draws, hdraws, v, hread⟩
  -- Other random numbers change neither the width nor the amplitudes.
  have hwidth' : (s.onTape draws).HasWidth n := hwidth
  have hs' : (s.onTape draws).buffer.IsState n := hs
  refine ⟨hprod, fun u h => answers_collect_projects hwidth hs hq hlikely h,
    fun order hperm hlikely' => ⟨?_, fun s' u u' hwidth' hbuf h h' => ?_⟩,
    ⟨draws, hdraws, v, hread, (answers_collect_projects hwidth' hs' hq hlikely hread).2⟩,
    ?_, fun hall => ⟨?_, ?_, fun u h => ?_⟩⟩
  · rw [prod_stepProbabilities hs hlikely', hprod, Buffer.share_perm hperm]
  · -- Both orders leave a projection, and a projection does not depend on the order.
    have hleft := (answers_collect_projects hwidth hs hq hlikely h).2
    rw [← hbuf] at hs hlikely' hleft
    have hleft' := (answers_collect_projects hwidth' hs
      (fun x hx => hq x (hperm.mem_iff.mp hx)) hlikely' h').2
    exact hleft'.eq_of_perm hperm hleft
  · rcases exists_reading s with ⟨bits, u, h, hlength⟩
    exact ⟨bits, u, h, hlength.trans hwidth⟩
  · have hlength : (readings.map Prod.snd).length = s.numQubits := by
      rw [hwidth, List.length_map, ← List.length_map Prod.fst, hall, List.length_range]
    rw [probabilityOfBits, if_neg (not_not_intro hlength), hprod, Buffer.share_range hall hs.size]
  · -- The draws for one reading after the other serve for all of them at once.
    have hboth : Answers measureAll (s.onTape draws) (readings.map Prod.snd) v :=
      (answers_measureAll_iff hwidth' hall).mpr hread
    exact ⟨draws, hdraws, v, hboth, measureAll_projects hwidth' hs' hlikely hall hboth⟩
  · exact measureAll_projects hwidth hs hlikely hall h

/-- Two qubits with three amplitudes. -/
noncomputable def lopsided : Simulator ℝ Exact.Tape where
  numQubits := 2
  buffer := #[⟨Scalar.ofNat 2 / Scalar.ofNat 3, 0⟩, 0, ⟨0, 1 / Scalar.ofNat 3⟩,
    ⟨Scalar.ofNat 2 / Scalar.ofNat 3, 0⟩]
  snapshots := .empty
  noise := none
  generator := ⟨[], []⟩

theorem lopsided_follows_born_rule :
    (stepProbabilities [(0, false), (1, true)] lopsided.buffer).prod = 1 / 9 ∧
      lopsided.probabilityOfBits [false, true] = .ok (1 / 9) ∧
      (∃ draws u, Answers (collect measure [0, 1]) (lopsided.onTape draws) [false, true] u) ∧
      (∃ bits u, Answers measureAll lopsided bits u ∧ bits.length = 2) ∧
      ∃ draws u, Answers measureAll (lopsided.onTape draws) [false, true] u ∧
        u.buffer.amplitude 2 ≠ 0 ∧ u.buffer.amplitude 3 = 0 := by
  have hnorm : lopsided.buffer.normSq = 1 := by
    rw [Buffer.normSq_eq_sum]
    simp [lopsided, Finset.sum_range_succ, Buffer.amplitude, Complex.normSq]
    norm_num
  have hzero : lopsided.buffer.share [(0, false)] = 5 / 9 := by
    simp [Buffer.share, agrees_single, lopsided, Finset.sum_range_succ, Buffer.amplitude,
      Complex.normSq, Nat.testBit]
    norm_num
  have hboth : lopsided.buffer.share [(0, false), (1, true)] = 1 / 9 := by
    have hsize : lopsided.buffer.size = 2 ^ 2 := rfl
    have hindex : basisIndex [false, true] = 2 := rfl
    rw [Buffer.share_range rfl hsize, List.map_cons, List.map_cons, List.map_nil, hindex]
    simp [lopsided, Buffer.amplitude, Complex.normSq]
    norm_num
  -- The first reading keeps five parts of nine, and the second one keeps one of these five.
  have hsteps : stepProbabilities [(0, false), (1, true)] lopsided.buffer = [5 / 9, 1 / 5] := by
    have hlt : (Scalar.zeroNorm : ℝ) < 5 / 9 := by
      rw [Scalar.zeroNorm, Exact.ofNat_eq]
      norm_num
    simp only [stepProbabilities, ← Buffer.share_single, hzero, divisor_of_lt hlt]
    rw [Buffer.share_collapse 0 false (by norm_num), hboth]
    norm_num
  have hlikely : ∀ p ∈ stepProbabilities [(0, false), (1, true)] lopsided.buffer,
      Scalar.zeroNorm < p := by
    rw [hsteps, Scalar.zeroNorm, Exact.ofNat_eq]
    norm_num
  rcases readings_follow_born_rule (n := 2) (s := lopsided) rfl ⟨rfl, hnorm⟩ (by decide) hlikely
    with ⟨hprod, -, -, ⟨draws, -, u, hrun, -⟩, hreads, hall⟩
  rcases hall rfl with ⟨htold, ⟨draws', -, u', hread, -, hleft⟩, -⟩
  refine ⟨hprod.trans hboth, ?_, ⟨draws, u, hrun⟩, hreads, draws', u', hread, ?_, ?_⟩
  · rw [← hboth, ← hprod]
    exact htold
  · exact (hleft 2 (by decide)).mpr rfl
  · exact not_not.mp fun h => absurd ((hleft 3 (by decide)).mp h) (by decide)

end Rule

end Simulator

end QubitLab
