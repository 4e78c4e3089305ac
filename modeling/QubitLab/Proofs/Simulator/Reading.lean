import QubitLab.Proofs.Simulator.Normalized
import QubitLab.Proofs.Statevector.Share

/-!
# The law of a reading

A reading of a qubit draws a number from the unit interval and compares it with the share of
the norm that the ones hold. The outcome then has a share that is not zero, because no draw
is below zero or reaches one. What is left of the amplitudes depends on whether this share
counts as zero.

If it does not, the reading is a projection: what disagrees with the outcome is gone, what
agrees is divided by the root of the share, and the same outcome is read again as often as one
likes, with no further effect. If it does, what agrees is left undivided. The simulator tries
to divide by the norm in this case, but the norm that is left is the share, and a norm that
counts as zero is not divided by. So the amplitudes are divided by the root of `divisor` in
either case, and `answers_measure` is the one rule about a reading that all others come from.

## Main definitions

* `Simulator.nextDraw`: The draw that the next reading goes by.
* `Simulator.divisor`: What a share is divided by, as a reading does it.

## Theorems

* `answers_measure`: What a reading answers and what it leaves.
* `share_pos_of_draw`: An outcome that is drawn has a share of the norm.
* `answers_measure_again`: A projected qubit is read as before.
* `measure_projects`: The law of a reading.
* `faint_not_projected`: It fails for a share that counts as zero.
-/

namespace QubitLab

open Statevector

namespace Buffer

variable {s : Buffer (Complex ℝ)}

/-- A norm that counts as zero is not divided by. -/
theorem rescale_of_le (h : s.normSq ≤ Scalar.zeroNorm) : (s.rescale Scalar.zeroNorm).2 = s := by
  unfold rescale
  dsimp only
  rw [if_neg fun hlt => absurd ((Exact.lt_iff _ _).mp hlt) (not_lt.mpr h)]

/-- A collapse that divides by nothing leaves what agrees with the outcome as it is. -/
theorem amplitude_collapse_one {q i : Nat} {b : Bool} (hi : i < s.size) (hbit : i.testBit q = b) :
    (s.collapse q b 1).amplitude i = s.amplitude i := by
  rw [amplitude_collapse q b 1 hi, if_pos hbit, Complex.scale, Exact.sqrt_eq, Real.sqrt_one,
    one_div_one, mul_one, mul_one]

/-- After a reading the outcome has the whole of what is left, and the other one nothing. -/
theorem share_repeated (q : Nat) (b c : Bool) (s : Buffer (Complex ℝ)) :
    s.share [(q, b), (q, c)] = if c = b then s.share [(q, b)] else 0 := by
  -- Both readings are of one bit, so an index agrees with both or they ask for different values.
  have hagrees : ∀ i, Agrees [(q, b), (q, c)] i ↔ i.testBit q = b ∧ c = b := by
    intro i
    rw [agrees_cons, agrees_single]
    exact ⟨fun ⟨hb, hc⟩ => ⟨hb, hc.symm.trans hb⟩, fun ⟨hb, hc⟩ => ⟨hb, hb.trans hc.symm⟩⟩
  by_cases hcb : c = b
  · rw [if_pos hcb, share, share]
    refine Finset.sum_congr rfl fun i _ => ?_
    rw [if_congr (hagrees i) rfl rfl, if_congr agrees_single rfl rfl]
    simp only [hcb, and_true]
  · rw [if_neg hcb, share]
    simp only [hagrees, hcb, and_false, if_false, Finset.sum_const_zero]

end Buffer

namespace Simulator

open Transition

variable {G : Type} {n q : Nat} [RandomSource ℝ G] {s : Simulator ℝ G}

/-- The draw that the next reading goes by. -/
def nextDraw (s : Simulator ℝ G) : ℝ := (RandomSource.unit s.generator).1

/-- The outcome is divided by the root of its share, or not at all when the share counts as
    zero. -/
noncomputable def divisor (p : ℝ) : ℝ := if Scalar.zeroNorm < p then p else 1

theorem divisor_of_lt {p : ℝ} (h : Scalar.zeroNorm < p) : divisor p = p := if_pos h

theorem divisor_of_le {p : ℝ} (h : p ≤ Scalar.zeroNorm) : divisor p = 1 := if_neg (not_lt.mpr h)

section OneReading

omit [RandomSource ℝ G] in
/-- A division by the norm cannot fail. -/
theorem answers_rescale (s t : Simulator ℝ G) :
    Answers rescale s () t ↔ t = s.withBuffer (s.buffer.rescale Scalar.zeroNorm).2 :=
  ⟨fun h => h.2.symm, fun h => ⟨rfl, h.symm⟩⟩

omit [RandomSource ℝ G] in
/-- A collapse by the share of the outcome. When the share counts as zero, so does the norm
    that is left, and the division that is tried is not made. -/
theorem answers_collapseTo (q : Nat) (b : Bool) (s t : Simulator ℝ G) :
    Answers (collapseTo q b (s.buffer.outcomeShare q b)) s () t ↔
      t = s.withBuffer (s.buffer.collapse q b (divisor (s.buffer.outcomeShare q b))) := by
  unfold collapseTo
  by_cases hlt : Scalar.zeroNorm < s.buffer.outcomeShare q b
  · rw [if_pos ((Exact.lt_iff _ _).mpr hlt), divisor_of_lt hlt, answers_change]
  · -- An undivided collapse leaves the share as its norm.
    have hnorm : (s.buffer.collapse q b 1).normSq = s.buffer.outcomeShare q b := by
      rw [← Buffer.share_nil, Buffer.share_collapse q b one_pos, Buffer.share_single, one_div_one,
        one_mul]
    have hstay := Buffer.rescale_of_le (hnorm.trans_le (not_lt.mp hlt))
    rw [if_neg (fun h => hlt ((Exact.lt_iff _ _).mp h)), divisor_of_le (not_lt.mp hlt)]
    simp only [answers_bind, answers_note, answers_change, answers_rescale]
    constructor
    · rintro ⟨_, _, hnote, _, _, hchange, ht⟩
      rw [ht, hchange, hnote]
      exact congrArg s.withBuffer hstay
    · rintro rfl
      exact ⟨(), s, rfl, (), _, rfl, (congrArg s.withBuffer hstay).symm⟩

/-- The outcome is the one of the draw, and the buffer collapses onto it. -/
theorem answers_measure (hq : q < s.numQubits) :
    Answers (measure q) s (readOutcome q s)
      (s.drawn.withBuffer (s.buffer.collapse q (readOutcome q s)
        (divisor (s.buffer.outcomeShare q (readOutcome q s))))) := by
  have hcheck : (checkQubit q : Step ℝ G Unit) s = ⟨.ok (), s, []⟩ := checkQubit_of_lt hq
  have hcollapse := (answers_collapseTo q (readOutcome q s) s.drawn _).mpr rfl
  unfold measure
  rw [answers_bind]
  refine ⟨(), s, ⟨congrArg Outcome.result hcheck, congrArg Outcome.state hcheck⟩, ?_⟩
  unfold Answers
  rw [observe_eq]
  exact (answers_bind _ _ _ _ _).mpr ⟨(), _, hcollapse, (answers_pure _ _ _ _).mpr ⟨rfl, rfl⟩⟩

/-- The outcome is one when the draw is below the share of the ones. -/
theorem readOutcome_iff (q : Nat) (s : Simulator ℝ G) :
    readOutcome q s = true ↔ s.nextDraw < s.buffer.share [(q, true)] := by
  rw [Buffer.share_single]
  exact Exact.lt_iff _ _

/-- An outcome that is drawn has a share of the norm. -/
theorem share_pos_of_draw (hs : s.buffer.normSq = 1) (hdraw : s.nextDraw ∈ Set.Ico (0 : ℝ) 1)
    (q : Nat) : 0 < s.buffer.share [(q, readOutcome q s)] := by
  have hiff := readOutcome_iff q s
  cases hread : readOutcome q s with
  | true =>
      rw [hread] at hiff
      exact hdraw.1.trans_lt (hiff.mp rfl)
  | false =>
      -- The draw is not below the share of the ones, and so that share is below one.
      rw [hread, Buffer.share_single] at hiff
      have hle : s.buffer.outcomeShare q true ≤ s.nextDraw :=
        not_lt.mp fun h => Bool.false_ne_true (hiff.mpr h)
      rw [Buffer.share_single]
      change 0 < s.buffer.normSq - s.buffer.outcomeShare q true
      rw [hs]
      linarith [hdraw.2]

end OneReading

section Again

/-- A qubit that has been projected is read as before, whatever is drawn, and stays as it
    is. -/
theorem answers_measure_again {b : Bool} {r t : Buffer (Complex ℝ)}
    (hproj : Buffer.Projects [(q, b)] r t) (hpos : 0 < r.share [(q, b)])
    (hq : q < s.numQubits) (hbuf : s.buffer = t) (hdraw : s.nextDraw ∈ Set.Ico (0 : ℝ) 1) :
    ∃ u, Answers (measure q) s b u ∧ u.buffer = t := by
  have hcollapsed : t = r.collapse q b (r.outcomeShare q b) :=
    hproj.eq_of_perm (List.Perm.refl _) (Buffer.projects_collapse q b r)
  have hshare : ∀ c, s.buffer.share [(q, c)] = if c = b then 1 else 0 := by
    intro c
    rw [hbuf, hcollapsed, ← Buffer.share_single, Buffer.share_collapse q b hpos,
      Buffer.share_repeated, mul_ite, mul_zero, one_div, inv_mul_cancel₀ hpos.ne']
  -- The ones hold the whole or nothing, and every draw is below the one and above the other.
  have hread : readOutcome q s = b := by
    rw [Bool.eq_iff_iff, readOutcome_iff, hshare]
    cases b with
    | true => exact ⟨fun _ => rfl, fun _ => by rw [if_pos rfl]; exact hdraw.2⟩
    | false =>
        rw [if_neg Bool.true_eq_false.mp]
        exact ⟨fun h => absurd h (not_lt.mpr hdraw.1), fun h => absurd h Bool.false_ne_true⟩
  have hdivisor : divisor (s.buffer.outcomeShare q b) = 1 := by
    rw [← Buffer.share_single, hshare, if_pos rfl, divisor, ite_self]
  have hmeasure := answers_measure hq
  rw [hread, hdivisor] at hmeasure
  refine ⟨_, hmeasure, ?_⟩
  change s.buffer.collapse q b 1 = t
  rw [hbuf]
  -- Nothing is divided by, and what the collapse takes away is gone already.
  refine Buffer.ext_amplitude (Buffer.size_collapse q b 1) fun i hi => ?_
  rw [Buffer.size_collapse] at hi
  by_cases hbit : i.testBit q = b
  · exact Buffer.amplitude_collapse_one hi hbit
  · rw [Buffer.amplitude_collapse q b 1 hi, if_neg hbit,
      hproj.gone i (hproj.size ▸ hi) fun h => hbit (agrees_single.mp h)]

end Again

section Law

/-- The law of a reading. The outcome goes by the draw and has a share of the norm, and the
    amplitudes that disagree with it vanish. If its share does not count as zero, the others
    are divided by the root of the share, the norm is one again, and any further reading of
    the qubit gives the same outcome and changes nothing. If it does count as zero, the
    others are left as they are. -/
theorem measure_projects (hwidth : s.HasWidth n) (hs : s.buffer.IsState n) (hq : q < n)
    (hdraw : s.nextDraw ∈ Set.Ico (0 : ℝ) 1) :
    ∃ b t, Answers (measure q) s b t ∧
      (b = true ↔ s.nextDraw < s.buffer.share [(q, true)]) ∧
      0 < s.buffer.share [(q, b)] ∧
      (∀ i, i < 2 ^ n → i.testBit q ≠ b → t.buffer.amplitude i = 0) ∧
      (Scalar.zeroNorm < s.buffer.share [(q, b)] →
        Buffer.Projects [(q, b)] s.buffer t.buffer ∧ t.buffer.IsState n ∧
        ∀ t' : Simulator ℝ G, t'.HasWidth n → t'.buffer = t.buffer →
          t'.nextDraw ∈ Set.Ico (0 : ℝ) 1 →
            ∃ u, Answers (measure q) t' b u ∧ u.buffer = t.buffer) ∧
      (s.buffer.share [(q, b)] ≤ Scalar.zeroNorm →
        ∀ i, i < 2 ^ n → i.testBit q = b → t.buffer.amplitude i = s.buffer.amplitude i) := by
  have hpos := share_pos_of_draw hs.normSq hdraw q
  have hsize := hs.size
  -- One reading is made, and the two cases differ only in what it divides by.
  refine ⟨readOutcome q s, _, answers_measure (hwidth.symm ▸ hq), readOutcome_iff q s, hpos,
    fun i hi hbit => ?_, fun hlikely => ?_, fun hfaint i hi hbit => ?_⟩
  · change (s.buffer.collapse q _ _).amplitude i = 0
    rw [Buffer.amplitude_collapse q _ _ (hsize ▸ hi), if_neg hbit]
  · have hproj : Buffer.Projects [(q, readOutcome q s)] s.buffer
        (s.buffer.collapse q (readOutcome q s)
          (divisor (s.buffer.outcomeShare q (readOutcome q s)))) := by
      rw [← Buffer.share_single, divisor_of_lt hlikely, Buffer.share_single]
      exact Buffer.projects_collapse q _ s.buffer
    refine ⟨hproj, hproj.isState hsize hpos, fun t' hwidth' hbuf hdraw' => ?_⟩
    exact answers_measure_again hproj hpos (hwidth'.symm ▸ hq) hbuf hdraw'
  · change (s.buffer.collapse q _ _).amplitude i = _
    rw [← Buffer.share_single, divisor_of_le hfaint]
    exact Buffer.amplitude_collapse_one (hsize ▸ hi) hbit

/-- Two qubits of which the second one is read, with a draw that makes it one. -/
noncomputable def entangled : Simulator ℝ Exact.Tape where
  numQubits := 2
  buffer := #[⟨Scalar.ofNat 3 / Scalar.ofNat 5, 0⟩, 0, 0, ⟨Scalar.ofNat 4 / Scalar.ofNat 5, 0⟩]
  snapshots := .empty
  noise := none
  generator := ⟨[Scalar.half], []⟩

theorem entangled_measure_projects :
    ∃ t, Answers (measure 1) entangled true t ∧ t.buffer.amplitude 0 = 0 ∧
      t.buffer.amplitude 3 = 1 ∧ t.buffer.IsState 2 := by
  have hshare : ∀ b, entangled.buffer.share [(1, b)] = if b = true then 16 / 25 else 9 / 25 := by
    intro b
    cases b <;>
      simp [Buffer.share, agrees_single, entangled, Finset.sum_range_succ, Buffer.amplitude,
        Complex.normSq, Nat.testBit] <;> norm_num
  have hnorm : entangled.buffer.normSq = 1 := by
    rw [Buffer.normSq_eq_sum]
    simp [entangled, Finset.sum_range_succ, Buffer.amplitude, Complex.normSq]
    norm_num
  have hdraw : entangled.nextDraw = 1 / 2 := Exact.half_eq
  rcases measure_projects (q := 1) (s := entangled) rfl ⟨rfl, hnorm⟩ (by decide)
    (by rw [hdraw]; norm_num) with ⟨b, t, hread, hb, -, hgone, hlikely, -⟩
  have hone : b = true := hb.mpr (by rw [hdraw, hshare, if_pos rfl]; norm_num)
  subst hone
  rcases hlikely (by rw [hshare, if_pos rfl, Scalar.zeroNorm, Exact.ofNat_eq]; norm_num)
    with ⟨hproj, hstate, -⟩
  refine ⟨t, hread, hgone 0 (by decide) (by decide), ?_, hstate⟩
  rw [hproj.kept 3 (by decide) (agrees_single.mpr (by decide)), hshare, if_pos rfl,
    show (16 / 25 : ℝ) = (4 / 5) * (4 / 5) by norm_num, Real.sqrt_mul_self (by norm_num)]
  ext
  · exact div_self (by norm_num : (4 / 5 : ℝ) ≠ 0)
  · exact zero_div _

/-- A qubit that is almost certainly one, with a draw that makes it zero. -/
noncomputable def faint : Simulator ℝ Exact.Tape where
  numQubits := 1
  buffer := #[⟨0, -(Scalar.ofNat (2 * 10 ^ 8) / Scalar.ofNat (10 ^ 16 + 1))⟩,
    ⟨Scalar.ofNat (10 ^ 16 - 1) / Scalar.ofNat (10 ^ 16 + 1), 0⟩]
  snapshots := .empty
  noise := none
  generator := ⟨[1 - 1 / Scalar.ofNat (2 ^ 52)], []⟩

/-- The zero has a share of the norm, and yet reading it is no projection: its amplitude is
    left as it was, and the norm is not one. -/
theorem faint_not_projected :
    faint.buffer.IsState 1 ∧ faint.nextDraw ∈ Set.Ico (0 : ℝ) 1 ∧
      0 < faint.buffer.share [(0, false)] ∧
      ∃ t, Answers (measure 0) faint false t ∧
        t.buffer.amplitude 0 = faint.buffer.amplitude 0 ∧
        ¬ Buffer.Projects [(0, false)] faint.buffer t.buffer ∧ ¬ t.buffer.IsState 1 := by
  have hshare : ∀ b, faint.buffer.share [(0, b)]
      = if b = true then ((10 ^ 16 - 1) / (10 ^ 16 + 1)) ^ 2 else (2 * 10 ^ 8 / (10 ^ 16 + 1)) ^ 2 := by
    intro b
    cases b <;>
      simp [Buffer.share, agrees_single, faint, Finset.sum_range_succ, Buffer.amplitude,
        Complex.normSq, Nat.testBit] <;> norm_num
  have hnorm : faint.buffer.normSq = 1 := by
    rw [Buffer.normSq_eq_sum]
    simp [faint, Finset.sum_range_succ, Buffer.amplitude, Complex.normSq]
    norm_num
  have hdraw : faint.nextDraw = 1 - 1 / 2 ^ 52 := by
    change 1 - 1 / Scalar.ofNat (2 ^ 52) = _
    rw [Exact.ofNat_eq, Nat.cast_pow, Nat.cast_ofNat]
  have hpos : 0 < faint.buffer.share [(0, false)] := by
    rw [hshare, if_neg Bool.false_ne_true]
    positivity
  have hread : readOutcome 0 faint = false := by
    rw [← Bool.not_eq_true, readOutcome_iff, hdraw, hshare, if_pos rfl]
    norm_num
  -- The share counts as zero, so nothing is divided by.
  have hfaint : divisor (faint.buffer.outcomeShare 0 false) = 1 := by
    refine divisor_of_le ?_
    rw [← Buffer.share_single, hshare, if_neg Bool.false_ne_true, Scalar.zeroNorm, Exact.ofNat_eq]
    norm_num
  have hmeasure := answers_measure (q := 0) (s := faint) (by decide)
  rw [hread, hfaint] at hmeasure
  -- What is left undivided has the share of the outcome as its norm.
  have hleft : ¬ (faint.buffer.collapse 0 false 1).IsState 1 := by
    intro h
    have hone := h.normSq
    rw [← Buffer.share_nil, Buffer.share_collapse 0 false one_pos, hshare,
      if_neg Bool.false_ne_true] at hone
    norm_num at hone
  refine ⟨⟨rfl, hnorm⟩, by rw [hdraw]; norm_num, hpos, _, hmeasure, ?_, ?_, hleft⟩
  · exact Buffer.amplitude_collapse_one (by decide) (by decide)
  · exact fun hproj => hleft (hproj.isState rfl hpos)

end Law

end Simulator

end QubitLab
