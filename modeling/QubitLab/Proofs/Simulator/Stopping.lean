import QubitLab.Proofs.Exact.Scalar
import QubitLab.Proofs.Invariant
import QubitLab.Proofs.Simulator.Running

/-!
# Where a run stops

A circuit that comes from elsewhere may have gates that the simulator does not accept, and
then a run stops in the middle. It stops at the first of these gates, and the simulator is
left as the gates before it have left it.

Three things make this exact. A gate is accepted or refused for its own shape and matrix and
for the width of the register, so which gate is the first can be said before the run. All
checks of a gate come before anything is written, so the refused one leaves no trace. And
the noise behind an accepted gate acts on qubits that have passed these checks, so it is
never the noise that stops a run. The division by the norm at the end is not reached.

## Main definitions

* `Simulator.Accepted`: A gate is accepted by simulators of a given width.
* `Simulator.noised`, `Simulator.played`: The simulator after the noise behind a gate, and
  after gates one after the other.
* `Simulator.StopsAtRefusal`: How a run ends.

## Theorems

* `applyGate_eq_ok`, `fails_applyGate`: When a gate is accepted, and what a refusal leaves.
* `answers_applyNoisyGate`, `fails_applyNoisyGate`: One gate with its noise.
* `answers_played`, `accepted_of_answers`: Gates one after the other.
* `fails_simulate`: A run that comes to a gate that is refused.
* `simulate_stops_at_refusal`: All of it in one.
-/

namespace QubitLab

namespace Simulator

open Transition

variable {R G : Type} [Scalar R] {n : Nat}

section Gates

/-- The gate has the right shape for a register of `n` qubits, and it has an action. -/
def Accepted (n : Nat) (g : Gate R) : Prop := g.Shaped n ∧ ∃ a, g.action = .ok a

/-- A simulator takes the gates that are accepted at its width. -/
theorem applyGate_eq_ok (g : Gate R) (s : Simulator R G) :
    (applyGate g s).result = .ok () ↔ Accepted s.numQubits g := by
  rw [result_eq_ok_iff, answers_applyGate]
  exact ⟨fun ⟨hg, a, ha, _⟩ => ⟨hg, a, ha⟩,
    fun ⟨hg, a, ha⟩ => ⟨hg, a, ha, ((answers_applyGate g s _).mpr ⟨hg, a, ha, rfl⟩).2⟩⟩

/-- All checks come before the change of the buffer, and none of them reads it. -/
theorem fails_applyGate (g : Gate R) (s t : Simulator R G) (e : Error R) :
    Fails (applyGate g) s e t ↔
      (g.checkShape s.numQubits = .error e ∨ g.checkShape s.numQubits = .ok () ∧
        g.action = .error e) ∧ t = s := by
  unfold applyGate
  simp only [fails_bind, fails_reading, fails_require, fails_note, fails_change, answers_reading,
    answers_require, answers_note, false_or, and_false, exists_false, or_false]
  constructor
  · rintro ⟨_, _, ⟨rfl, rfl⟩, ⟨he, rfl⟩ | ⟨_, _, ⟨hg, rfl⟩, _, _, rfl, he, rfl⟩⟩
    · exact ⟨Or.inl he, rfl⟩
    · exact ⟨Or.inr ⟨hg, he⟩, rfl⟩
  · rintro ⟨he | ⟨hg, he⟩, rfl⟩
    · exact ⟨_, t, ⟨rfl, rfl⟩, Or.inl ⟨he, rfl⟩⟩
    · exact ⟨_, t, ⟨rfl, rfl⟩, Or.inr ⟨(), t, ⟨hg, rfl⟩, (), t, rfl, he, rfl⟩⟩

/-- Two simulators of one width accept the same gates, and refuse the others alike. -/
theorem result_applyGate (g : Gate R) {s t : Simulator R G} (h : t.numQubits = s.numQubits) :
    (applyGate g t).result = (applyGate g s).result := by
  have hagree : Agree (fun s t : Simulator R G => t.numQubits = s.numQubits) (applyGate g)
      (applyGate g) := by
    -- The width is all that is read before the verdict.
    refine agree_bind (agree_reading fun _ _ hst => hst) fun width => ?_
    refine agree_bind (agree_require rfl) fun _ => ?_
    refine agree_bind (agree_note _ _) fun _ => ?_
    exact agree_bind (agree_require rfl) fun _ => agree_change fun _ _ hst => hst
  exact (hagree s t h).1

variable [RandomSource R G]

/-- The simulator after the noise has acted on each qubit of a gate. -/
def noised (g : Gate R) (s : Simulator R G) : Simulator R G :=
  g.qubits.foldl (fun s q => (applyNoise q s).state) s

/-- The simulator after gates one after the other, each with the noise behind it. -/
def played (gates : List (Gate R)) (s : Simulator R G) : Simulator R G :=
  gates.foldl (fun s g => noised g (applyGate g s).state) s

/-- Without a noise model nothing acts on a qubit. -/
theorem applyNoise_of_noiseless (q : Nat) {s : Simulator R G} (h : s.noise = none) :
    (applyNoise q s).state = s := by
  have hkeeps : Keeps (fun _ => True) (fun t => t = s) (applyNoise q : Step R G Unit) := by
    unfold applyNoise
    refine keeps_bind (keeps_of_state fun _ ht => ht) fun _ => ?_
    refine keeps_reading_bind (V := fun noise => noise = none) (fun t ht => ht ▸ h) ?_
    rintro _ rfl
    exact keeps_pure ()
  exact hkeeps s rfl fun _ _ => trivial

theorem noised_of_noiseless (g : Gate R) {s : Simulator R G} (h : s.noise = none) :
    noised g s = s := by
  unfold noised
  induction g.qubits with
  | nil => rfl
  | cons q rest ih => rw [List.foldl_cons, applyNoise_of_noiseless q h, ih]

/-- An accepted gate and the noise behind it do not fail, and keep the width. -/
theorem answers_applyNoisyGate {g : Gate R} (hg : Accepted n g) {s : Simulator R G}
    (hs : HasWidth n s) :
    Answers (applyNoisyGate g) s () (noised g (applyGate g s).state) ∧
      HasWidth n (noised g (applyGate g s).state) := by
  rcases hg with ⟨hshape, a, ha⟩
  have hgate := (answers_applyGate g s _).mpr ⟨hs ▸ hshape, a, ha, rfl⟩
  rw [hgate.2]
  -- From here on only the width of what the gate has left matters.
  have hwidth : HasWidth n (s.withBuffer (a.apply s.buffer)) := hs
  generalize s.withBuffer (a.apply s.buffer) = t at hgate hwidth
  unfold applyNoisyGate
  simp only [answers_bind, answers_reading]
  cases hnoise : t.noise with
  | none =>
      -- The run leaves the qubits out, and asking for the noise changes nothing.
      rw [noised_of_noiseless g hnoise]
      refine ⟨⟨(), t, hgate, none, t, ⟨hnoise.symm, rfl⟩, ?_⟩, hwidth⟩
      exact (answers_pure _ _ _ _).mpr ⟨rfl, rfl⟩
  | some model =>
      -- The qubits have passed the check of the gate, so the noise finds them inside.
      have hloop := answers_forEach_foldl (P := HasWidth n) (l := g.qubits)
        (fun q hq => succeeds_applyNoise (hshape.1 q hq)) hwidth
      exact ⟨⟨(), t, hgate, some model, t, ⟨hnoise.symm, rfl⟩, hloop.1⟩, hloop.2⟩

theorem fails_applyNoisyGate {g : Gate R} {s t : Simulator R G} {e : Error R}
    (h : Fails (applyGate g) s e t) : Fails (applyNoisyGate g) s e t :=
  (fails_bind _ _ s t e).mpr (Or.inl h)

end Gates

section Runs

variable [RandomSource R G]

/-- Accepted gates are applied one after the other to the end. -/
theorem answers_played {gates : List (Gate R)} (hgates : ∀ g ∈ gates, Accepted n g)
    {s : Simulator R G} (hs : HasWidth n s) :
    Answers (forEach applyNoisyGate gates) s () (played gates s) ∧
      HasWidth n (played gates s) := by
  -- Each gate leaves a register of the same width, where the others are still accepted.
  induction gates generalizing s with
  | nil => exact ⟨⟨rfl, rfl⟩, hs⟩
  | cons g rest ih =>
      rcases answers_applyNoisyGate (hgates g List.mem_cons_self) hs with ⟨hfirst, hwidth⟩
      rcases ih (fun h hh => hgates h (List.mem_cons_of_mem g hh)) hwidth with ⟨hrest, hlast⟩
      exact ⟨(answers_forEach_cons _ g rest () s _).mpr ⟨_, hfirst, hrest⟩, hlast⟩

/-- Gates that have all been applied have all been accepted. -/
theorem accepted_of_answers {gates : List (Gate R)} {s t : Simulator R G} (hs : HasWidth n s)
    (h : Answers (forEach applyNoisyGate gates) s () t) : ∀ g ∈ gates, Accepted n g := by
  induction gates generalizing s with
  | nil =>
      intro g hg
      exact absurd hg List.not_mem_nil
  | cons g rest ih =>
      rcases (answers_forEach_cons _ g rest () s t).mp h with ⟨u, hfirst, hrest⟩
      have hg : Accepted n g := by
        rcases (answers_bind _ _ s u ()).mp hfirst with ⟨_, _, hgate, -⟩
        exact hs ▸ (applyGate_eq_ok g s).mp hgate.1
      -- The other gates start from a simulator of the same width.
      rcases answers_applyNoisyGate hg hs with ⟨hfirst', hwidth⟩
      rw [← (answers_unique hfirst hfirst').2] at hwidth
      intro h' hh'
      rcases List.mem_cons.mp hh' with rfl | hh'
      · exact hg
      · exact ih hwidth hrest h' hh'

variable {c : Circuit R} {shots : Nat} {s : Simulator R G}

omit [Scalar R] [RandomSource R G] in
theorem checkShots_eq_ok (hshots : 1 ≤ shots) :
    (checkShots shots : Except (Error R) Unit) = .ok () := by
  unfold checkShots
  rw [if_neg (by omega)]

/-- A run ends well when its gates do, and divides by the norm behind them. -/
theorem answers_simulate (hwidth : c.numQubits ≤ s.numQubits) (hshots : 1 ≤ shots)
    (t : Simulator R G) :
    Answers (simulate c shots) s () t ↔
      ∃ u, Answers (forEach applyNoisyGate c.gates) s () u ∧ t = (rescale u).state := by
  simp only [simulate, answers_bind, answers_require, answers_reading, answers_note]
  constructor
  · rintro ⟨_, _, ⟨-, rfl⟩, _, _, ⟨rfl, rfl⟩, _, _, ⟨-, rfl⟩, _, _, rfl, _, u, hgates, _, _,
      hrescale, _, _, ⟨rfl, rfl⟩, rfl⟩
    exact ⟨u, hgates, hrescale.2.symm⟩
  · rintro ⟨u, hgates, rfl⟩
    exact ⟨(), s, ⟨checkShots_eq_ok hshots, rfl⟩, _, s, ⟨rfl, rfl⟩, (), s,
      ⟨checkWidth_eq_ok hwidth, rfl⟩, (), s, rfl, (), u, hgates, (), _, ⟨rfl, rfl⟩, _, _,
      ⟨rfl, rfl⟩, rfl⟩

/-- A run that comes to a gate that is refused ends there. -/
theorem fails_simulate (hwidth : c.numQubits ≤ s.numQubits) (hshots : 1 ≤ shots)
    {before after : List (Gate R)} {g : Gate R} (hc : c.gates = before ++ g :: after)
    (hbefore : ∀ h ∈ before, Accepted s.numQubits h) {e : Error R}
    (hg : (applyGate g s).result = .error e) :
    Fails (simulate c shots) s e (played before s) := by
  -- The verdict on the gate is the same where the run comes to it.
  rcases answers_played hbefore rfl with ⟨hplayed, hsame⟩
  have hrefused : Fails (applyGate g) (played before s) e (played before s) := by
    have herror := (result_applyGate g hsame).trans hg
    have hfails := (result_eq_error_iff _ _ e).mp herror
    exact ⟨herror, ((fails_applyGate g _ _ e).mp hfails).2⟩
  have hloop : Fails (forEach applyNoisyGate c.gates) s e (played before s) := by
    rw [hc]
    exact fails_forEach_split hplayed (fails_applyNoisyGate hrefused)
  simp only [simulate, fails_bind, answers_require, answers_reading, answers_note]
  exact Or.inr ⟨(), s, ⟨checkShots_eq_ok hshots, rfl⟩, Or.inr ⟨_, s, ⟨rfl, rfl⟩, Or.inr ⟨(), s,
    ⟨checkWidth_eq_ok hwidth, rfl⟩, Or.inr ⟨(), s, rfl, Or.inl hloop⟩⟩⟩⟩

/-- If not every gate is accepted, there is a first one that is refused. -/
theorem exists_first_refused {gates : List (Gate R)} (h : ¬ ∀ g ∈ gates, Accepted n g) :
    ∃ k g, gates[k]? = some g ∧ ¬ Accepted n g ∧ ∀ g' ∈ gates.take k, Accepted n g' := by
  induction gates with
  | nil => exact absurd (fun g hg => absurd hg List.not_mem_nil) h
  | cons g rest ih =>
      by_cases hg : Accepted n g
      · have hrest : ¬ ∀ g' ∈ rest, Accepted n g' := fun hall => h fun g' hg' => by
          rcases List.mem_cons.mp hg' with rfl | hg'
          · exact hg
          · exact hall g' hg'
        rcases ih hrest with ⟨k, g', hk, hrefused, hbefore⟩
        refine ⟨k + 1, g', hk, hrefused, fun f hf => ?_⟩
        rcases List.mem_cons.mp hf with rfl | hf
        · exact hg
        · exact hbefore f hf
      · exact ⟨0, g, rfl, hg, fun f hf => absurd hf List.not_mem_nil⟩

/-- How a run of a circuit ends. Whether a gate is accepted can be asked of any simulator of
    the width, so it is asked of the one that the run starts from. -/
structure StopsAtRefusal (c : Circuit R) (shots : Nat) (s : Simulator R G) : Prop where
  /-- A gate is accepted or refused for itself and for the width of the register. -/
  verdict : ∀ (g : Gate R) (t : Simulator R G), t.numQubits = s.numQubits →
    (applyGate g t).result = (applyGate g s).result
  /-- A refused gate changes nothing. -/
  untouched : ∀ (g : Gate R) (t : Simulator R G) (e : Error R),
    (applyGate g t).result = .error e → (applyGate g t).state = t
  /-- The noise behind an accepted gate does not fail. -/
  noise : ∀ g : Gate R, (applyGate g s).result = .ok () → ∀ q ∈ g.qubits,
    ∀ t : Simulator R G, t.numQubits = s.numQubits → (applyNoise q t).result = .ok ()
  /-- A run ends well when all of its gates are accepted. -/
  success : (simulate c shots s).result = .ok () ↔
    ∀ g ∈ c.gates, (applyGate g s).result = .ok ()
  /-- Else it ends with the error of the first one that is refused, and the simulator is the
      one that the gates before it lead to. -/
  failure : ∀ (e : Error R) (t : Simulator R G), Fails (simulate c shots) s e t ↔
    ∃ k g, c.gates[k]? = some g ∧ (∀ h ∈ c.gates.take k, (applyGate h s).result = .ok ()) ∧
      (applyGate g s).result = .error e ∧ t = played (c.gates.take k) s

/-- A run of any circuit that is not too wide stops at the first gate that is refused. -/
theorem simulate_stops_at_refusal (c : Circuit R) {shots : Nat} (hshots : 1 ≤ shots)
    (s : Simulator R G) (hwidth : c.numQubits ≤ s.numQubits) : StopsAtRefusal c shots s := by
  have hsuccess : (∀ g ∈ c.gates, Accepted s.numQubits g) →
      Answers (simulate c shots) s () (rescale (played c.gates s)).state := fun hgates =>
    (answers_simulate hwidth hshots _).mpr ⟨_, (answers_played hgates rfl).1, rfl⟩
  have hfailure : ∀ k g e, c.gates[k]? = some g →
      (∀ h ∈ c.gates.take k, Accepted s.numQubits h) → (applyGate g s).result = .error e →
        Fails (simulate c shots) s e (played (c.gates.take k) s) := by
    intro k g e hk hbefore he
    obtain ⟨hlt, rfl⟩ := List.getElem?_eq_some_iff.mp hk
    have hsplit : c.gates = c.gates.take k ++ c.gates[k] :: c.gates.drop (k + 1) := by
      rw [← List.drop_eq_getElem_cons hlt, List.take_append_drop]
    exact fails_simulate hwidth hshots hsplit hbefore he
  -- The two ways in which a run can end exclude each other, so each of them is an equivalence.
  refine ⟨fun g t h => result_applyGate g h, fun g t e h => ?_, fun g hg q hq t ht => ?_, ?_,
    fun e t => ?_⟩
  · exact ((fails_applyGate g t _ e).mp ((result_eq_error_iff _ t e).mp h)).2
  · have hq' := ((applyGate_eq_ok g s).mp hg).1.1 q hq
    rcases succeeds_applyNoise hq' t ht with ⟨_, _, hok, -⟩
    exact hok.1
  · simp only [applyGate_eq_ok]
    constructor
    · intro h
      rcases (answers_simulate hwidth hshots _).mp ((result_eq_ok_iff _ s ()).mp h) with
        ⟨u, hgates, -⟩
      exact accepted_of_answers rfl hgates
    · exact fun hgates => (hsuccess hgates).1
  · simp only [applyGate_eq_ok]
    constructor
    · -- Not all gates are accepted, and the run stops at the first that is not.
      intro h
      rcases exists_first_refused fun hgates => not_fails_of_answers (hsuccess hgates) h with
        ⟨k, g, hk, hrefused, hbefore⟩
      cases hg : (applyGate g s).result with
      | ok u => exact absurd ((applyGate_eq_ok g s).mp hg) hrefused
      | error e' =>
          rcases fails_unique h (hfailure k g e' hk hbefore hg) with ⟨rfl, rfl⟩
          exact ⟨k, g, hk, hbefore, hg, rfl⟩
    · rintro ⟨k, g, hk, hbefore, hg, rfl⟩
      exact hfailure k g e hk hbefore hg

/-- The second gate lacks a qubit, and the third one is not reached. -/
def malformed : Circuit ℝ where
  numQubits := 2
  numClbits := 2
  gates := [⟨.h, [0], [], none⟩, ⟨.cx, [1], [], none⟩, ⟨.x, [1], [], none⟩]
  measurements := []
  name := none

/-- A simulator of three qubits with noise. -/
noncomputable def shaken : Simulator ℝ Exact.Tape where
  numQubits := 3
  buffer := Buffer.ground 8
  snapshots := .empty
  noise := some ⟨.bitFlip, Scalar.half, none⟩
  generator := ⟨[0, 1, 1], []⟩

theorem malformed_stops_at_refusal :
    (simulate malformed 1 shaken).result
        = .error (.invalidArgument (.wrongArity "cx" 2 1)) ∧
      (simulate malformed 1 shaken).state = played [⟨.h, [0], [], none⟩] shaken := by
  have hstops := simulate_stops_at_refusal malformed (Nat.le_refl 1) shaken (by decide)
  refine (hstops.failure _ _).mpr ⟨1, ⟨.cx, [1], [], none⟩, rfl, fun g hg => ?_, rfl, rfl⟩
  rw [List.mem_singleton.mp hg]
  rfl

end Runs

end Simulator

end QubitLab
