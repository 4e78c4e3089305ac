import QubitLab.Proofs.Simulator.Lockstep
import QubitLab.Proofs.Simulator.Stopping
import QubitLab.Proofs.Statevector.Counts

/-!
# Shots

A shot reads all qubits, and shots are made one after the other and counted. Two simulators
are never run side by side for this: the second shot starts from what the first one left, in
its amplitudes and in its random numbers. So a number of shots can be split anywhere, and
the counts of the two parts add up.

What could come between is a failure, and it does not. Whether a shot succeeds depends on
the circuit and on the width of the register, which no shot changes. So either the first one
fails, and then none is counted, or all of them succeed.

A shot of a circuit goes back to the ground state first. What was in the register before is
gone, except for its size, and the snapshots are not looked at.

No arithmetic is done with what is counted, so all of this holds of rounded numbers too.

## Main definitions

* `Simulator.Shots`: Shots one after the other, with what was read in each.
* `Simulator.Tells`: A text gives the outcome of each qubit.
* `Simulator.ShotLaw`: What holds of shots that are counted.

## Theorems

* `exists_reading`: All qubits can be read.
* `answers_repeated_iff`, `fails_repeated_iff`: How repeated shots end.
* `exists_counted_iff`, `fails_counted_iff`: When a number of shots is counted.
* `succeeds_prepared`, `steady_prepared`: When the run before a reading succeeds.
* `shotLaw_of_tallies`: The law of shots, from that of one shot.
* `sampleCounts_blind`: What was there before does not matter.
* `shots_add_up`: All of it in one.
-/

namespace QubitLab

/-- A text of bits has no other characters than zeros and ones. -/
theorem Bitstring.mem_toList_text {bits : Bitstring} {c : Char} (h : c ∈ bits.text.toList) :
    c = '0' ∨ c = '1' := by
  rw [Bitstring.text, String.toList_ofList, List.mem_map] at h
  rcases h with ⟨b, -, rfl⟩
  cases b
  · exact Or.inl rfl
  · exact Or.inr rfl

namespace Simulator

open Transition

variable {R G : Type} [Scalar R] [RandomSource R G] {n : Nat}

section Readings

/-- The text has one digit for each qubit of the register, in order, and each digit is the
    outcome of its qubit, read behind those before it. -/
structure Tells (s : Simulator R G) (key : String) : Prop where
  /-- There is one digit for each qubit. -/
  width : key.length = s.numQubits
  /-- There are no others than zero and one. -/
  digits : ∀ c ∈ key.toList, c = '0' ∨ c = '1'
  /-- They are the outcomes. -/
  outcome : ∀ k < s.numQubits, ∃ before t b u,
    Answers (collect measure (List.range k)) s before t ∧ Answers (measure k) t b u ∧
      key.toList[k]? = some (if b then '1' else '0')

/-- All qubits can be read, and the register is as wide as before. -/
theorem succeeds_measureAll : Succeeds (HasWidth n) (measureAll : Step R G Bitstring) := by
  intro s hs
  exact succeeds_collect (fun q _ => succeeds_observe q) s hs

/-- Inside the register, reading a qubit needs no check. -/
theorem answers_collect_measure {qubits : List Nat} {s t : Simulator R G} {bits : List Bool}
    (hq : ∀ q ∈ qubits, q < s.numQubits) :
    Answers (collect measure qubits) s bits t ↔ Answers (collect observe qubits) s bits t := by
  induction qubits generalizing s bits with
  | nil => exact Iff.rfl
  | cons q rest ih =>
      have hfirst : measure q s = observe q s :=
        bind_of_silent (checkQubit_of_lt (hq q List.mem_cons_self))
      simp only [answers_collect_cons]
      refine exists_congr fun b => exists_congr fun u => exists_congr fun cs => ?_
      unfold Answers at ih ⊢
      rw [hfirst]
      refine and_congr_right fun hb => and_congr_left fun _ => ih fun p hp => ?_
      -- The register is as wide as before.
      have hu : u.numQubits = s.numQubits := (succeeds_observe q).left rfl hb
      rw [hu]
      exact hq p (List.mem_cons_of_mem q hp)

/-- All qubits can be read, whatever is drawn, and each of them gives a bit. -/
theorem exists_reading (s : Simulator R G) :
    ∃ bits t, Answers measureAll s bits t ∧ bits.length = s.numQubits := by
  rcases succeeds_measureAll s rfl with ⟨bits, t, h, -⟩
  have hcollect : Answers (collect observe (List.range s.numQubits)) s bits t := h
  exact ⟨bits, t, h, (answers_collect_getElem hcollect).1.trans List.length_range⟩

/-- What is read off a register is a text that tells the outcomes. -/
theorem tells_of_answers {s t : Simulator R G} {bits : Bitstring}
    (h : Answers measureAll s bits t) : Tells s bits.text := by
  have hall : Answers (collect measure (List.range s.numQubits)) s bits t :=
    (answers_collect_measure fun q hq => List.mem_range.mp hq).mpr h
  rcases answers_collect_getElem hall with ⟨hlength, hget⟩
  refine ⟨?_, fun c hc => Bitstring.mem_toList_text hc, fun k hk => ?_⟩
  · rw [Bitstring.text, String.length_ofList, List.length_map, hlength, List.length_range]
  · rcases hget k k (by rw [List.getElem?_range hk]) with ⟨u, b, v, hbefore, hb, hbit⟩
    rw [List.take_range, Nat.min_eq_left hk.le] at hbefore
    refine ⟨_, u, b, v, hbefore, hb, ?_⟩
    rw [Bitstring.text, String.toList_ofList, List.getElem?_map, hbit]
    rfl

end Readings

section Repeating

/-- Shots one after the other: each prepares the register and reads all qubits. The texts
    are those of what was read. -/
inductive Shots (prepare : Step R G Unit) :
    Simulator R G → List String → Simulator R G → Prop
  /-- No shot at all. -/
  | none (s : Simulator R G) : Shots prepare s [] s
  /-- A shot, and others after it. -/
  | next {s t u v : Simulator R G} {bits : Bitstring} {keys : List String} :
      Answers prepare s () t → Answers measureAll t bits u → Shots prepare u keys v →
      Shots prepare s (bits.text :: keys) v

variable {prepare : Step R G Unit}

/-- Shots can be made in two goes. -/
theorem Shots.append {s t u : Simulator R G} {keys keys' : List String}
    (h : Shots prepare s keys t) (h' : Shots prepare t keys' u) :
    Shots prepare s (keys ++ keys') u := by
  induction h with
  | none s => exact h'
  | next hprepare hread _ ih => exact .next hprepare hread (ih h')

/-- The step prepares the register, reads all qubits, and counts what was read. -/
structure Tallies (prepare : Step R G Unit) (step : Counts → Step R G Counts) : Prop where
  /-- It succeeds when the preparation does. -/
  answers : ∀ (counts : Counts) (s : Simulator R G) (x : Counts) (u : Simulator R G),
    Answers (step counts) s x u ↔
      ∃ t bits, Answers prepare s () t ∧ Answers measureAll t bits u ∧ x = counts.add bits.text
  /-- It fails as the preparation fails. -/
  fails : ∀ (counts : Counts) (s : Simulator R G) (e : Error R) (t : Simulator R G),
    Fails (step counts) s e t ↔ Fails prepare s e t

/-- Reading a register does not fail. -/
theorem not_fails_countOnce (counts : Counts) (s t : Simulator R G) (e : Error R) :
    ¬ Fails (countOnce counts) s e t := by
  rcases exists_reading s with ⟨bits, u, h, -⟩
  exact not_fails_of_answers ((answers_bind _ _ s u _).mpr ⟨bits, u, h, rfl, rfl⟩)

/-- A shot of `measurementStats` has nothing to prepare. -/
theorem tallies_countOnce : Tallies (pure ()) (countOnce : Counts → Step R G Counts) where
  answers counts s x u := by
    simp only [countOnce, answers_bind, answers_pure]
    constructor
    · rintro ⟨bits, _, hread, rfl, rfl⟩
      exact ⟨s, bits, ⟨trivial, rfl⟩, hread, rfl⟩
    · rintro ⟨_, bits, ⟨-, rfl⟩, hread, rfl⟩
      exact ⟨bits, u, hread, rfl, rfl⟩
  fails counts s e t :=
    iff_of_false (not_fails_countOnce counts s t e) (fails_pure () e s t)

/-- The preparation of a shot of a circuit. -/
def prepared (c : Circuit R) : Step R G Unit := do
  reset
  simulate c 1

/-- A shot of `sampleCounts` resets the register and runs the circuit. -/
theorem tallies_sampleOnce (c : Circuit R) :
    Tallies (prepared c) (sampleOnce c : Counts → Step R G Counts) where
  answers counts s x u := by
    simp only [sampleOnce, prepared, countOnce, answers_bind, answers_pure]
    constructor
    · rintro ⟨_, t, hreset, _, v, hrun, bits, _, hread, rfl, rfl⟩
      exact ⟨v, bits, ⟨(), t, hreset, hrun⟩, hread, rfl⟩
    · rintro ⟨v, bits, ⟨_, t, hreset, hrun⟩, hread, rfl⟩
      exact ⟨(), t, hreset, (), v, hrun, bits, u, hread, rfl, rfl⟩
  fails counts s e t := by
    simp only [sampleOnce, prepared, fails_bind, not_fails_countOnce, and_false, exists_false,
      or_false]

variable {step : Counts → Step R G Counts}

/-- Shots that are counted succeed when the shots do, and what is counted is what they read. -/
theorem answers_repeated_iff (h : Tallies prepare step) {counts x : Counts}
    {s u : Simulator R G} :
    Answers (repeated step n counts) s x u ↔
      ∃ keys, Shots prepare s keys u ∧ keys.length = n ∧ x = counts.tally keys := by
  -- By induction on the number of shots, with what has been counted so far left free.
  induction n generalizing counts s with
  | zero =>
      rw [repeated, answers_answer]
      constructor
      · rintro ⟨rfl, rfl⟩
        exact ⟨[], .none u, rfl, rfl⟩
      · rintro ⟨keys, hshots, hlength, rfl⟩
        rw [List.length_eq_zero_iff] at hlength
        subst hlength
        cases hshots
        exact ⟨rfl, rfl⟩
  | succ n ih =>
      rw [repeated, answers_andThen]
      constructor
      · rintro ⟨y, t, hfirst, hrest⟩
        rcases (h.answers counts s y t).mp hfirst with ⟨v, bits, hprepare, hread, rfl⟩
        rcases ih.mp hrest with ⟨keys, hshots, rfl, rfl⟩
        exact ⟨bits.text :: keys, .next hprepare hread hshots, rfl, rfl⟩
      · rintro ⟨keys, hshots, hlength, rfl⟩
        cases hshots with
        | none => exact absurd hlength (by simp)
        | @next _ t v _ bits keys hprepare hread hrest =>
            refine ⟨_, v, (h.answers counts s _ v).mpr ⟨t, bits, hprepare, hread, rfl⟩, ?_⟩
            exact ih.mpr ⟨keys, hrest, Nat.succ.inj hlength, rfl⟩

/-- Where the preparation succeeds once, it succeeds on every register of the width. -/
def Steady (prepare : Step R G Unit) : Prop :=
  ∀ s t : Simulator R G, Answers prepare s () t → Succeeds (HasWidth s.numQubits) prepare

/-- Where the preparation cannot fail, any number of shots can be made. -/
theorem exists_shots (hsucceeds : Succeeds (HasWidth n) prepare) {s : Simulator R G}
    (hs : HasWidth n s) (m : Nat) :
    ∃ keys t, Shots prepare s keys t ∧ keys.length = m ∧ HasWidth n t := by
  induction m generalizing s with
  | zero => exact ⟨[], s, .none s, rfl, hs⟩
  | succ m ih =>
      rcases hsucceeds s hs with ⟨_, t, hprepare, ht⟩
      rcases succeeds_measureAll t ht with ⟨bits, u, hread, hu⟩
      rcases ih hu with ⟨keys, v, hshots, hlength, hv⟩
      exact ⟨bits.text :: keys, v, .next hprepare hread hshots, congrArg (· + 1) hlength, hv⟩

/-- Each shot leaves a register of the width that it found. -/
theorem Shots.width (hsteady : Steady prepare) {s t : Simulator R G} {keys : List String}
    (h : Shots prepare s keys t) : t.numQubits = s.numQubits := by
  induction h with
  | none => rfl
  | @next s t u v bits keys hprepare hread _ ih =>
      have ht := (hsteady s t hprepare).left rfl hprepare
      exact ih.trans (succeeds_measureAll.left ht hread)

/-- Repeated shots fail at the first one or not at all. -/
theorem fails_repeated_iff (h : Tallies prepare step) (hsteady : Steady prepare)
    {counts : Counts} {s t : Simulator R G} {e : Error R} (hn : 1 ≤ n) :
    Fails (repeated step n counts) s e t ↔ Fails prepare s e t := by
  obtain ⟨m, rfl⟩ : ∃ m, n = m + 1 := ⟨n - 1, by omega⟩
  change Fails (step counts >>= repeated step m) s e t ↔ _
  rw [fails_bind, h.fails, or_iff_left]
  rintro ⟨x, u, hfirst, hrest⟩
  -- Behind a first shot that succeeds there are as many others as one likes.
  rcases (h.answers counts s x u).mp hfirst with ⟨v, bits, hprepare, hread, -⟩
  have hwidth : HasWidth s.numQubits u :=
    Shots.width hsteady (.next hprepare hread (.none u))
  rcases exists_shots (hsteady s v hprepare) hwidth m with ⟨keys, w, hshots, hlength, -⟩
  exact not_fails_of_answers ((answers_repeated_iff h).mpr ⟨keys, hshots, hlength, rfl⟩) hrest

end Repeating

section Preparing

omit [Scalar R] [RandomSource R G] in
theorem steady_pure : Steady (pure () : Step R G Unit) :=
  fun _ _ _ => succeeds_pure ()

/-- A circuit that has been run was not too wide. -/
theorem le_width_of_answers {c : Circuit R} {shots : Nat} {s t : Simulator R G}
    (h : Answers (simulate c shots) s () t) : c.numQubits ≤ s.numQubits := by
  simp only [simulate, answers_bind, answers_require, answers_reading] at h
  rcases h with ⟨_, _, ⟨-, hs⟩, _, _, ⟨rfl, rfl⟩, _, _, ⟨hcheck, -⟩, -⟩
  rw [hs] at hcheck
  unfold checkWidth at hcheck
  by_cases hlt : s.numQubits < c.numQubits
  · exact absurd hcheck (by simp [hlt])
  · omega

/-- A circuit of accepted gates can be prepared on every register that is wide enough. -/
theorem succeeds_prepared {c : Circuit R} (hwidth : c.numQubits ≤ n)
    (hgates : ∀ g ∈ c.gates, Accepted n g) :
    Succeeds (HasWidth n) (prepared c : Step R G Unit) := by
  refine succeeds_bind (succeeds_change fun _ hs => hs) fun _ s hs => ?_
  rcases answers_played hgates hs with ⟨hplayed, hlast⟩
  have hfits : c.numQubits ≤ s.numQubits := by
    rw [show s.numQubits = n from hs]
    exact hwidth
  exact ⟨(), _, (answers_simulate hfits (Nat.le_refl 1) _).mpr ⟨_, hplayed, rfl⟩, hlast⟩

/-- A run that has succeeded has found every gate accepted and the register wide enough, and
    these are matters of the width. -/
theorem steady_prepared (c : Circuit R) : Steady (prepared c : Step R G Unit) := by
  intro s t h
  rcases (answers_bind _ _ s t ()).mp h with ⟨_, u, hreset, hrun⟩
  have hu : u.numQubits = s.numQubits := hreset.2 ▸ rfl
  have hwidth := le_width_of_answers hrun
  rcases (answers_simulate hwidth (Nat.le_refl 1) t).mp hrun with ⟨v, hgates, -⟩
  exact succeeds_prepared (hu ▸ hwidth) (accepted_of_answers hu hgates)

end Preparing

section Laws

/-- What holds of shots that are counted, whatever simulator they are made on. -/
structure ShotLaw (prepare : Step R G Unit) (counted : Nat → Step R G Counts) : Prop where
  /-- However many they are, they succeed where the preparation of the first one does. -/
  succeeds : ∀ {n : Nat}, 1 ≤ n → ∀ {s : Simulator R G},
    (∃ x t, Answers (counted n) s x t) ↔ ∃ t, Answers prepare s () t
  /-- They fail where it fails, and as it fails. -/
  refused : ∀ {n : Nat}, 1 ≤ n → ∀ {s t : Simulator R G} {e : Error R},
    Fails (counted n) s e t ↔ Fails prepare s e t
  /-- They can be split: the counts of the two parts add up, and the second part leaves what
      all of them leave. -/
  splits : ∀ {a b : Nat}, 1 ≤ a → 1 ≤ b → ∀ {s t : Simulator R G} {x : Counts},
    Answers (counted a) s x t → ∃ y u, Answers (counted b) t y u ∧
      ∃ z, Answers (counted (a + b)) s z u ∧ ∀ key, z.count key = x.count key + y.count key
  /-- If some of them fail, all of them fail in the same way. -/
  fails : ∀ {a b : Nat}, 1 ≤ a → ∀ {s t : Simulator R G} {e : Error R},
    Fails (counted a) s e t → Fails (counted (a + b)) s e t
  /-- What is counted is what was read in one shot after the other. -/
  readings : ∀ {n : Nat} {s t : Simulator R G} {x : Counts}, Answers (counted n) s x t →
    ∃ keys, Shots prepare s keys t ∧ keys.length = n ∧ ∀ key, x.count key = keys.count key
  /-- Each shot is counted once. -/
  total : ∀ {n : Nat} {s t : Simulator R G} {x : Counts}, Answers (counted n) s x t →
    x.total = n
  /-- Each outcome has one entry, with a digit for each qubit. -/
  keys : ∀ {n : Nat} {s t : Simulator R G} {x : Counts}, Answers (counted n) s x t →
    x.keys.Nodup ∧ ∀ key ∈ x.keys, key.length = s.numQubits ∧
      ∀ c ∈ key.toList, c = '0' ∨ c = '1'

variable {prepare : Step R G Unit} {step : Counts → Step R G Counts}

/-- A number of shots, counted from nothing. -/
theorem answers_counted_iff (h : Tallies prepare step) {x : Counts} {s u : Simulator R G} :
    Answers (do require (checkShots n); repeated step n .empty) s x u ↔
      1 ≤ n ∧ ∃ keys, Shots prepare s keys u ∧ keys.length = n ∧
        x = Counts.empty.tally keys := by
  rw [answers_bind]
  simp only [answers_require]
  constructor
  · rintro ⟨_, _, ⟨hshots, rfl⟩, hrest⟩
    have hn : n ≠ 0 := by
      rintro rfl
      exact absurd hshots (by simp [checkShots])
    exact ⟨by omega, (answers_repeated_iff h).mp hrest⟩
  · rintro ⟨hn, hrest⟩
    exact ⟨(), s, ⟨checkShots_eq_ok hn, rfl⟩, (answers_repeated_iff h).mpr hrest⟩

/-- Where the preparation succeeds, so do any number of shots. -/
theorem exists_counted_iff (h : Tallies prepare step) (hsteady : Steady prepare) (hn : 1 ≤ n)
    {s : Simulator R G} :
    (∃ x u, Answers (do require (checkShots n); repeated step n .empty) s x u) ↔
      ∃ t, Answers prepare s () t := by
  simp only [answers_counted_iff h]
  constructor
  · rintro ⟨x, u, -, keys, hshots, hlength, -⟩
    cases hshots with
    | none => exact absurd hlength (by simp only [List.length_nil]; omega)
    | next hprepare _ _ => exact ⟨_, hprepare⟩
  · rintro ⟨t, hprepare⟩
    rcases exists_shots (hsteady s t hprepare) rfl n with ⟨keys, u, hshots, hlength, -⟩
    exact ⟨_, u, hn, keys, hshots, hlength, rfl⟩

theorem fails_counted_iff (h : Tallies prepare step) (hsteady : Steady prepare) (hn : 1 ≤ n)
    {s t : Simulator R G} {e : Error R} :
    Fails (do require (checkShots n); repeated step n .empty) s e t ↔ Fails prepare s e t := by
  rw [fails_bind]
  simp only [fails_require, answers_require, checkShots_eq_ok hn, reduceCtorEq, false_and,
    false_or, true_and, exists_eq_left]
  rw [exists_const]
  exact fails_repeated_iff h hsteady hn

/-- Every text that is counted has a digit for each qubit. -/
theorem Shots.digits (hsteady : Steady prepare) {s t : Simulator R G} {keys : List String}
    (h : Shots prepare s keys t) :
    ∀ key ∈ keys, key.length = s.numQubits ∧ ∀ c ∈ key.toList, c = '0' ∨ c = '1' := by
  induction h with
  | none => exact fun key hkey => absurd hkey List.not_mem_nil
  | @next s t u v bits keys hprepare hread _ ih =>
      have hu : u.numQubits = s.numQubits :=
        Shots.width hsteady (.next hprepare hread (.none u))
      have htells := tells_of_answers hread
      have ht : t.numQubits = s.numQubits := (hsteady s t hprepare).left rfl hprepare
      intro key hkey
      rcases List.mem_cons.mp hkey with rfl | hkey
      · exact ⟨htells.width.trans ht, htells.digits⟩
      · exact hu ▸ ih key hkey

theorem shotLaw_of_tallies (h : Tallies prepare step) (hsteady : Steady prepare)
    {counted : Nat → Step R G Counts}
    (hcounted : ∀ n, counted n = do require (checkShots n); repeated step n .empty) :
    ShotLaw prepare counted where
  succeeds := by
    intro n hn s
    rw [hcounted]
    exact exists_counted_iff h hsteady hn
  refused := by
    intro n hn s t e
    rw [hcounted]
    exact fails_counted_iff h hsteady hn
  splits := by
    intro a b ha hb s t x hx
    rw [hcounted] at hx
    -- The first of the shots has succeeded, so as many others as one likes succeed as well.
    rcases (exists_counted_iff h hsteady ha).mp ⟨x, t, hx⟩ with ⟨v, hprepare⟩
    rcases (answers_counted_iff h).mp hx with ⟨-, keys, hshots, hlength, rfl⟩
    rcases exists_shots (hsteady s v hprepare) (Shots.width hsteady hshots) b with ⟨keys', u, hmore, rfl, -⟩
    refine ⟨Counts.empty.tally keys', u, ?_, Counts.empty.tally (keys ++ keys'), ?_, fun key => ?_⟩
    · rw [hcounted, answers_counted_iff h]
      exact ⟨hb, keys', hmore, rfl, rfl⟩
    · rw [hcounted, answers_counted_iff h]
      refine ⟨by omega, keys ++ keys', hshots.append hmore, ?_, rfl⟩
      rw [List.length_append, hlength]
    · have hempty : Counts.empty.count key = 0 := rfl
      simp only [Counts.count_tally, hempty, List.count_append]
      omega
  fails := by
    intro a b ha s t e hfails
    have hsum : 1 ≤ a + b := Nat.le_add_right_of_le ha
    rw [hcounted, fails_counted_iff h hsteady] at hfails ⊢
    · exact hfails
    · exact hsum
    · exact ha
  readings := by
    intro n s t x hx
    rw [hcounted, answers_counted_iff h] at hx
    rcases hx with ⟨-, keys, hshots, hlength, rfl⟩
    exact ⟨keys, hshots, hlength, fun key => by rw [Counts.count_tally]; exact Nat.zero_add _⟩
  total := by
    intro n s t x hx
    rw [hcounted, answers_counted_iff h] at hx
    rcases hx with ⟨-, keys, -, hlength, rfl⟩
    rw [Counts.total_tally, hlength]
    exact Nat.zero_add n
  keys := by
    intro n s t x hx
    rw [hcounted, answers_counted_iff h] at hx
    rcases hx with ⟨-, keys, hshots, -, rfl⟩
    have hempty : Counts.empty.keys.Nodup := List.nodup_nil
    refine ⟨Counts.nodup_keys_tally hempty keys, fun key hkey => ?_⟩
    rcases Counts.mem_keys_tally.mp hkey with hkey | hkey
    · exact absurd hkey List.not_mem_nil
    · exact Shots.digits hsteady hshots key hkey

end Laws

section Blind

/-- The simulator `t` is `s` with a given store of snapshots. -/
def Restored (store : Snapshots (Buffer (Complex R))) (s t : Simulator R G) : Prop :=
  t = { s with snapshots := store }

omit [Scalar R] [RandomSource R G] in
theorem twins_restored (store : Snapshots (Buffer (Complex R))) :
    Twins (Restored store : Simulator R G → Simulator R G → Prop) where
  numQubits := by
    rintro s t rfl
    rfl
  buffer := by
    rintro s t rfl
    rfl
  generator := by
    rintro s t rfl
    rfl
  withBuffer := by
    rintro s t b rfl
    rfl
  withGenerator := by
    rintro s t g rfl
    rfl

omit [RandomSource R G] in
/-- Behind a reset nothing is left of the amplitudes but their number. -/
theorem restored_reset {s t : Simulator R G} (hwidth : t.numQubits = s.numQubits)
    (hsize : t.buffer.size = s.buffer.size) (hnoise : t.noise = s.noise)
    (hgenerator : t.generator = s.generator) :
    Restored t.snapshots (reset s).state (reset t).state := by
  rcases s with ⟨n, b, store, noise, g⟩
  rcases t with ⟨n', b', store', noise', g'⟩
  dsimp only at hwidth hsize hnoise hgenerator
  subst hwidth hnoise hgenerator
  unfold Restored reset change withBuffer
  dsimp only
  rw [hsize]

/-- Shots of a circuit do not depend on what was in the register before. -/
theorem sampleCounts_blind (c : Circuit R) (hn : 1 ≤ n) {s t : Simulator R G}
    (hwidth : t.numQubits = s.numQubits) (hsize : t.buffer.size = s.buffer.size)
    (hnoise : t.noise = s.noise) (hgenerator : t.generator = s.generator) :
    (sampleCounts c n t).result = (sampleCounts c n s).result ∧
      (sampleCounts c n t).state
        = { (sampleCounts c n s).state with snapshots := t.snapshots } := by
  have htwins := twins_restored (G := G) t.snapshots
  have hgate := htwins.agree_applyNoisyGate fun hst => hst ▸ rfl
  obtain ⟨m, rfl⟩ : ∃ m, n = m + 1 := ⟨n - 1, by omega⟩
  have hreset : ∀ u : Simulator R G, sampleCounts c (m + 1) u
      = andThen (do simulate c 1; countOnce .empty) (repeated (sampleOnce c) m)
        (reset u).state := by
    intro u
    have hcheck : (require (checkShots (m + 1)) : Step R G Unit) u = ⟨.ok (), u, []⟩ := by
      unfold require
      rw [checkShots_eq_ok hn]
    have hfirst : sampleOnce c .empty u
        = (do simulate c 1; countOnce .empty : Step R G Counts) (reset u).state :=
      bind_of_silent rfl
    refine (bind_of_silent hcheck).trans ?_
    rw [repeated]
    unfold andThen
    rw [hfirst]
  -- From the reset on, both runs are made of steps that agree.
  have hrest : Agree (Restored t.snapshots)
      (andThen (do simulate c 1; countOnce .empty) (repeated (sampleOnce c) m))
      (andThen (do simulate c 1; countOnce .empty) (repeated (sampleOnce c) m)) :=
    agree_andThen (agree_bind (htwins.agree_simulate hgate c 1) fun _ =>
      htwins.agree_countOnce _) fun x => agree_repeated (htwins.agree_sampleOnce hgate c) m x
  rw [hreset, hreset]
  exact hrest _ _ (restored_reset hwidth hsize hnoise hgenerator)

end Blind

/-- Shots that are counted can be split, and shots of a circuit do not depend on what was in
    the register before. What is read in a shot are the outcomes of the qubits in order.
    Reading always succeeds, and so do any number of readings that are counted. -/
theorem shots_add_up (c : Circuit R) :
    ShotLaw (G := G) (prepared c) (sampleCounts c) ∧
      ShotLaw (G := G) (pure ()) measurementStats ∧
      (∀ {n : Nat}, 1 ≤ n → ∀ s : Simulator R G, ∃ x t, Answers (measurementStats n) s x t) ∧
      (∀ s : Simulator R G, ∃ bits t, Answers measureAll s bits t ∧ bits.length = s.numQubits) ∧
      (∀ {s t : Simulator R G} {bits : Bitstring}, Answers measureAll s bits t →
        Tells s bits.text) ∧
      ∀ {n : Nat}, 1 ≤ n → ∀ {s t : Simulator R G}, t.numQubits = s.numQubits →
        t.buffer.size = s.buffer.size → t.noise = s.noise → t.generator = s.generator →
          (sampleCounts c n t).result = (sampleCounts c n s).result ∧
            (sampleCounts c n t).state
              = { (sampleCounts c n s).state with snapshots := t.snapshots } :=
  ⟨shotLaw_of_tallies (tallies_sampleOnce c) (steady_prepared c) fun _ => rfl,
    shotLaw_of_tallies tallies_countOnce steady_pure fun _ => rfl,
    fun hn s => (exists_counted_iff tallies_countOnce steady_pure hn).mpr ⟨s, rfl, rfl⟩,
    exists_reading, tells_of_answers, sampleCounts_blind c⟩

/-- A circuit with a single gate. -/
def coin : Circuit ℝ where
  numQubits := 2
  numClbits := 2
  gates := [⟨.h, [0], [], none⟩]
  measurements := []
  name := none

theorem coin_shots_add_up :
    (∃ x t y u z, Answers (sampleCounts coin 1) shaken x t ∧
      Answers (sampleCounts coin 2) t y u ∧ Answers (sampleCounts coin 3) shaken z u ∧
        ∀ key, z.count key = x.count key + y.count key) ∧
      ∃ x t y u z, Answers (measurementStats 1) shaken x t ∧
        Answers (measurementStats 2) t y u ∧ Answers (measurementStats 3) shaken z u ∧
          z.total = 3 ∧ ∀ key, z.count key = x.count key + y.count key := by
  rcases shots_add_up (G := Exact.Tape) coin with ⟨hcoin, hstats, hreads, -⟩
  have hgates : ∀ g ∈ coin.gates, Accepted 3 g := by
    intro g hg
    rw [List.mem_singleton.mp hg]
    exact (applyGate_eq_ok _ shaken).mp rfl
  constructor
  · -- The run before a reading succeeds, so one shot does, and the others come from the law.
    rcases succeeds_prepared (by decide) hgates shaken rfl with ⟨_, v, hprepare, -⟩
    rcases (hcoin.succeeds (Nat.le_refl 1)).mpr ⟨v, hprepare⟩ with ⟨x, t, hx⟩
    rcases hcoin.splits (Nat.le_refl 1) one_le_two hx with ⟨y, u, hy, z, hz, hsum⟩
    exact ⟨x, t, y, u, z, hx, hy, hz, hsum⟩
  · rcases hreads (Nat.le_refl 1) shaken with ⟨x, t, hx⟩
    rcases hstats.splits (Nat.le_refl 1) one_le_two hx with ⟨y, u, hy, z, hz, hsum⟩
    exact ⟨x, t, y, u, z, hx, hy, hz, hstats.total hz, hsum⟩

end Simulator

end QubitLab
