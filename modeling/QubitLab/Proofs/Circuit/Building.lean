import QubitLab.Circuit.Builder
import QubitLab.Proofs.Circuit.Renamed
import QubitLab.Proofs.Exact.Scalar
import QubitLab.Proofs.Invariant

/-!
# What a builder passes over

A builder goes on after a call that the circuit refuses. What it has built in the end is what
the other calls alone would have built, provided that a refused call leaves the circuit as it
was. Every call does so but one: measuring all qubits into a classical register that is too
short stops at the first qubit without a bit, and the measurements before it stay.

So there are two results. What is answered for the refusals holds always, since nothing has
been refused before the first refusal. That refused calls are passed over holds as long as
every qubit has a bit, or not all of them are measured at once.

The two calls that make layers are loops of calls themselves, so the builder could record
several refusals for one of them. None of their gates is ever refused, which makes each of
them one edit like the other calls.

## Main definitions

* `Builder.Call`: A call.
* `Builder.Call.make`, `Builder.Call.edit`: What it does to a builder, and the edit of the
  circuit that it stands for.
* `Builder.firstRefusal?`: The first refusal in a list of calls.
* `Builder.skipRefused`: The circuit after the calls that are not refused.

## Theorems

* `answers_adding`, `answers_measuring`: Loops that add gates or measurements.
* `fails_measureAll`: When measuring all qubits fails, and what it leaves.
* `Call.make_eq_perform`: Every call is one edit.
* `Call.untouched`, `Call.widths`: What a refused call leaves, and what every call keeps.
* `refusal_make`, `circuit_make`: The two parts of a builder after a list of calls.
* `refused_calls_passed_over`: All of it in one.
-/

namespace QubitLab

namespace Circuit

variable {R : Type}

section Loops

open Transition

/-- Measuring some qubits, each into the bit of its number. -/
theorem answers_measuring {qubits : List Nat} {c : Circuit R}
    (hq : ∀ q ∈ qubits, q < c.numQubits ∧ q < c.numClbits) :
    Answers (forEach (fun q => (measure q q : Edit R Unit)) qubits) c ()
      { c with measurements := c.measurements ++ qubits.map fun q => (q, q) } := by
  induction qubits generalizing c with
  | nil =>
      rw [answers_forEach_nil, List.map_nil, List.append_nil]
  | cons q rest ih =>
      refine (answers_forEach_cons _ q rest () c _).mpr
        ⟨{ c with measurements := c.measurements ++ [(q, q)] }, ?_, ?_⟩
      · exact (answers_measure q q c _).mpr ⟨hq q List.mem_cons_self, rfl⟩
      · have hrest := @ih { c with measurements := c.measurements ++ [(q, q)] }
          fun p hp => hq p (List.mem_cons_of_mem q hp)
        simpa only [List.append_assoc, List.map_cons, List.singleton_append] using hrest

/-- Measuring all qubits fails when the classical register is the shorter one. It has then
    come to the first qubit that has no bit, and leaves the measurements before it. -/
theorem fails_measureAll (c d : Circuit R) (e : Error R) :
    Fails (measureAll : Edit R Unit) c e d ↔
      c.numClbits < c.numQubits ∧ e = .clbitOutOfRange c.numClbits c.numClbits ∧
        d = { c with measurements :=
          c.measurements ++ (List.range c.numClbits).map fun q => (q, q) } := by
  have hshort : c.numClbits < c.numQubits →
      Fails (measureAll : Edit R Unit) c (.clbitOutOfRange c.numClbits c.numClbits)
        { c with measurements :=
          c.measurements ++ (List.range c.numClbits).map fun q => (q, q) } := by
    intro hlt
    obtain ⟨k, hk⟩ : ∃ k, c.numQubits = c.numClbits + (k + 1) :=
      ⟨c.numQubits - c.numClbits - 1, by omega⟩
    -- The qubits that have a bit, the first one that has none, and the others.
    have hsplit : List.range c.numQubits
        = List.range c.numClbits ++ c.numClbits :: (List.range k).map (c.numClbits + 1 + ·) := by
      rw [hk, List.range_add, List.range_succ_eq_map, List.map_cons, List.map_map]
      simp only [Nat.add_zero, List.append_cancel_left_eq, List.cons.injEq, true_and]
      exact List.map_congr_left fun i _ => by simp only [Function.comp_apply]; omega
    change Fails (forEach (fun q => (measure q q : Edit R Unit)) (List.range c.numQubits)) c _ _
    rw [hsplit]
    refine fails_forEach_split (answers_measuring fun q hq => ?_) ?_
    · have hq' := List.mem_range.mp hq
      exact ⟨by omega, hq'⟩
    · rw [measure, fails_attempt, checkMeasurement]
      dsimp only
      rw [Gate.checkRange_singleton hlt]
      refine ⟨?_, rfl⟩
      rw [if_pos (Nat.le_refl _)]
      rfl
  constructor
  · intro h
    by_cases hlt : c.numClbits < c.numQubits
    · rcases fails_unique h (hshort hlt) with ⟨rfl, rfl⟩
      exact ⟨hlt, rfl, rfl⟩
    · -- Every qubit has a bit, so none of the measurements is refused.
      have hall := @answers_measuring R (List.range c.numQubits) c fun q hq => by
        have hq' := List.mem_range.mp hq
        omega
      exact absurd h (not_fails_of_answers (m := measureAll) hall)
  · rintro ⟨hlt, rfl, rfl⟩
    exact hshort hlt

variable [Scalar R]

/-- Adding gates of one kind without angles, which is never refused. -/
theorem answers_adding {α : Type} {kind : GateKind} {qubits : α → List Nat} {l : List α}
    {c : Circuit R} (hkind : kind.paramCount = 0)
    (hl : ∀ x ∈ l, kind.arity? = some (qubits x).length ∧ (qubits x).Nodup ∧
      ∀ q ∈ qubits x, q < c.numQubits) :
    Answers (forEach (fun x => (addGate kind (qubits x) [] : Edit R Unit)) l) c ()
      { c with gates := c.gates ++ l.map fun x => ⟨kind, qubits x, [], none⟩ } := by
  induction l generalizing c with
  | nil =>
      rw [answers_forEach_nil, List.map_nil, List.append_nil]
  | cons x rest ih =>
      rcases hl x List.mem_cons_self with ⟨harity, hnodup, hrange⟩
      have hparams : (Gate.checkParams kind [] : Except (Error R) Unit) = .ok () :=
        (Gate.checkParams_eq_ok kind []).mpr ⟨hkind.symm, fun y hy => absurd hy List.not_mem_nil⟩
      refine (answers_forEach_cons _ x rest () c _).mpr
        ⟨{ c with gates := c.gates ++ [⟨kind, qubits x, [], none⟩] }, ?_, ?_⟩
      · exact (answers_addGate kind _ _ c _).mpr
          ⟨hrange, _, (Gate.builtin_eq_ok _ _ _ _).mpr ⟨harity, hparams, hnodup, rfl⟩, rfl⟩
      · have hrest := @ih { c with gates := c.gates ++ [⟨kind, qubits x, [], none⟩] }
          fun y hy => hl y (List.mem_cons_of_mem x hy)
        simpa only [List.append_assoc, List.map_cons, List.singleton_append] using hrest

end Loops

end Circuit

namespace Builder

variable {R : Type}

/-- A call of a builder. The gates with a name of their own are calls of `gate`. -/
inductive Call (R : Type) where
  /-- A gate of a built-in kind. -/
  | gate (kind : GateKind) (qubits : List Nat) (params : List R)
  /-- A custom gate. -/
  | custom (name : String) (matrix : Rows (Complex R)) (qubits : List Nat)
  /-- A measurement. -/
  | measure (qubit clbit : Nat)
  /-- A measurement of every qubit. -/
  | measureAll
  /-- A Hadamard gate on every qubit. -/
  | hLayer
  /-- A controlled negation of every qubit by the one before it. -/
  | cxChain

section Performing

open Transition

/-- An edit that is accepted takes the place of the circuit. -/
theorem perform_of_answers {b : Builder R} {edit : Circuit.Edit R Unit} {d : Circuit R}
    (h : Answers edit b.circuit () d) : b.perform edit = ⟨d, b.refusal⟩ := by
  unfold perform
  dsimp only
  rw [h.1, h.2]

/-- An edit that is refused is kept as the refusal, if it is the first. -/
theorem perform_of_fails {b : Builder R} {edit : Circuit.Edit R Unit} {d : Circuit R}
    {e : Error R} (h : Fails edit b.circuit e d) :
    b.perform edit = ⟨d, b.refusal.or (some e)⟩ := by
  unfold perform
  dsimp only
  rw [h.1, h.2]

/-- Edits one after the other that are all accepted. -/
theorem foldl_perform {α : Type} {f : α → Circuit.Edit R Unit} {l : List α} {b : Builder R}
    {d : Circuit R} (h : Answers (forEach f l) b.circuit () d) :
    l.foldl (fun b x => b.perform (f x)) b = ⟨d, b.refusal⟩ := by
  induction l generalizing b with
  | nil =>
      rw [answers_forEach_nil] at h
      rw [List.foldl_nil, h]
  | cons x rest ih =>
      rcases (answers_forEach_cons f x rest () b.circuit d).mp h with ⟨c, hx, hrest⟩
      rw [List.foldl_cons, perform_of_answers hx]
      exact ih hrest

end Performing

variable [Scalar R]

/-- What a call does to a builder. -/
def Call.make : Call R → Builder R → Builder R
  | gate kind qubits params, b => b.gate kind qubits params
  | custom name matrix qubits, b => b.custom name matrix qubits
  | measure qubit clbit, b => b.measure qubit clbit
  | measureAll, b => b.measureAll
  | hLayer, b => b.hLayer
  | cxChain, b => b.cxChain

/-- The builder after a list of calls. -/
def make (calls : List (Call R)) (b : Builder R) : Builder R :=
  calls.foldl (fun b call => call.make b) b

/-- The edit of the circuit that a call stands for. -/
def Call.edit : Call R → Circuit.Edit R Unit
  | gate kind qubits params => Circuit.addGate kind qubits params
  | custom name matrix qubits => Circuit.addCustom name matrix qubits
  | measure qubit clbit => Circuit.measure qubit clbit
  | measureAll => Circuit.measureAll
  | hLayer => fun c =>
    Transition.forEach (fun q => Circuit.addGate .h [q] []) (List.range c.numQubits) c
  | cxChain => fun c =>
    Transition.forEach (fun q => Circuit.addGate .cx [q, q + 1] [])
      (List.range (c.numQubits - 1)) c

/-- The first refusal, when the calls are made one after the other. -/
def firstRefusal? : List (Call R) → Circuit R → Option (Error R)
  | [], _ => none
  | call :: rest, c =>
    match (call.edit c).result with
    | .ok _ => firstRefusal? rest (call.edit c).state
    | .error e => some e

/-- The circuit after the calls that are not refused, where one that is refused is passed
    over as if it had not been made. -/
def skipRefused : List (Call R) → Circuit R → Circuit R
  | [], c => c
  | call :: rest, c =>
    match (call.edit c).result with
    | .ok _ => skipRefused rest (call.edit c).state
    | .error _ => skipRefused rest c

section Calls

open Transition

/-- A layer of Hadamard gates is never refused. -/
theorem answers_hLayer (c : Circuit R) : ∃ d, Answers Call.hLayer.edit c () d := by
  refine ⟨_, Circuit.answers_adding rfl fun q hq => ⟨rfl, ?_, fun p hp => ?_⟩⟩
  · simp
  · have hq' := List.mem_range.mp hq
    simp only [List.mem_cons, List.not_mem_nil, or_false] at hp
    omega

theorem answers_cxChain (c : Circuit R) : ∃ d, Answers Call.cxChain.edit c () d := by
  refine ⟨_, Circuit.answers_adding rfl fun q hq => ⟨rfl, ?_, fun p hp => ?_⟩⟩
  · simp
  · have hq' := List.mem_range.mp hq
    simp only [List.mem_cons, List.not_mem_nil, or_false] at hp
    omega

/-- Every call is one edit, the two loops included. -/
theorem Call.make_eq_perform (call : Call R) (b : Builder R) :
    call.make b = b.perform call.edit := by
  cases call with
  | gate kind qubits params => rfl
  | custom name matrix qubits => rfl
  | measure qubit clbit => rfl
  | measureAll => rfl
  | hLayer =>
      -- The builder makes one call for each gate, and all of them are accepted.
      rcases answers_hLayer b.circuit with ⟨d, h⟩
      exact (foldl_perform h).trans (perform_of_answers h).symm
  | cxChain =>
      rcases answers_cxChain b.circuit with ⟨d, h⟩
      exact (foldl_perform h).trans (perform_of_answers h).symm

/-- A refused call leaves the circuit as it was, or else it was to measure more qubits than
    there are classical bits. -/
theorem Call.untouched {call : Call R} {c d : Circuit R} {e : Error R}
    (h : Fails call.edit c e d) :
    d = c ∨ call = .measureAll ∧ c.numClbits < c.numQubits := by
  -- Every edit but one checks first and writes last.
  cases call with
  | gate kind qubits params => exact Or.inl ((fails_attempt _ e c d).mp h).2
  | custom name matrix qubits => exact Or.inl ((fails_attempt _ e c d).mp h).2
  | measure qubit clbit => exact Or.inl ((fails_attempt _ e c d).mp h).2
  | measureAll => exact Or.inr ⟨rfl, ((Circuit.fails_measureAll c d e).mp h).1⟩
  | hLayer =>
      rcases answers_hLayer c with ⟨c', hok⟩
      exact absurd h (not_fails_of_answers hok)
  | cxChain =>
      rcases answers_cxChain c with ⟨c', hok⟩
      exact absurd h (not_fails_of_answers hok)

/-- The circuit has registers of the widths `n` and `m`. -/
def HasWidths (n m : Nat) (c : Circuit R) : Prop := c.numQubits = n ∧ c.numClbits = m

section Widths

variable {fine : Empty → Prop} {n m : Nat}

theorem keeps_widths_addGate (kind : GateKind) (qubits : List Nat) (params : List R) :
    Keeps fine (HasWidths n m) (Circuit.addGate kind qubits params) := by
  refine keeps_attempt fun c d hc h => ?_
  rcases (Circuit.answers_addGate kind qubits params c d).mp h with ⟨-, g, -, rfl⟩
  exact hc

omit [Scalar R] in
theorem keeps_widths_measure (qubit clbit : Nat) :
    Keeps fine (HasWidths n m) (Circuit.measure qubit clbit : Circuit.Edit R Unit) := by
  refine keeps_attempt fun c d hc h => ?_
  rcases (Circuit.answers_measure qubit clbit c d).mp h with ⟨-, rfl⟩
  exact hc

/-- The registers keep their widths, whether a call is refused or not. -/
theorem Call.keeps_widths (call : Call R) : Keeps fine (HasWidths n m) call.edit := by
  cases call with
  | gate kind qubits params => exact keeps_widths_addGate kind qubits params
  | custom name matrix qubits =>
      refine keeps_attempt fun c d hc h => ?_
      rcases (Circuit.answers_addCustom name matrix qubits c d).mp h with ⟨-, g, -, rfl⟩
      exact hc
  | measure qubit clbit => exact keeps_widths_measure qubit clbit
  | measureAll => exact fun c hc => keeps_forEach (fun q _ => keeps_widths_measure q q) c hc
  | hLayer => exact fun c hc => keeps_forEach (fun q _ => keeps_widths_addGate .h [q] []) c hc
  | cxChain =>
      exact fun c hc => keeps_forEach (fun q _ => keeps_widths_addGate .cx [q, q + 1] []) c hc

/-- After a call the registers are as wide as before. -/
theorem Call.widths (call : Call R) (c : Circuit R) :
    HasWidths c.numQubits c.numClbits (call.edit c).state := by
  have hkeeps : Keeps (fun _ => True) (HasWidths c.numQubits c.numClbits) call.edit :=
    call.keeps_widths
  exact hkeeps c ⟨rfl, rfl⟩ fun _ _ => trivial

end Widths

/-- The refusal that a builder keeps is the first one. -/
theorem refusal_make (calls : List (Call R)) (b : Builder R) :
    (make calls b).refusal = b.refusal.or (firstRefusal? calls b.circuit) := by
  induction calls generalizing b with
  | nil =>
      rw [make, List.foldl_nil, firstRefusal?, Option.or_none]
  | cons call rest ih =>
      have hmake : make (call :: rest) b = make rest (call.make b) := rfl
      rw [hmake, ih, call.make_eq_perform]
      cases hcall : (call.edit b.circuit).result with
      | ok u =>
          rw [perform_of_answers ((result_eq_ok_iff _ _ _).mp hcall), firstRefusal?, hcall]
      | error e =>
          -- What is refused after this one makes no difference any more.
          rw [perform_of_fails ((result_eq_error_iff _ _ _).mp hcall), firstRefusal?, hcall,
            Option.or_assoc, Option.some_or]

/-- As long as every qubit has a bit, or not all of them are measured at once, the circuit
    is that of the calls that are not refused. -/
theorem circuit_make (calls : List (Call R)) (b : Builder R)
    (hbits : b.circuit.numQubits ≤ b.circuit.numClbits ∨ Call.measureAll ∉ calls) :
    (make calls b).circuit = skipRefused calls b.circuit := by
  -- The widths are what the condition speaks of, and every call keeps them.
  induction calls generalizing b with
  | nil => rfl
  | cons call rest ih =>
      have hmake : make (call :: rest) b = make rest (call.make b) := rfl
      have hwidths : HasWidths b.circuit.numQubits b.circuit.numClbits
          (call.edit b.circuit).state := call.widths b.circuit
      rw [hmake, call.make_eq_perform]
      cases hcall : (call.edit b.circuit).result with
      | ok u =>
          rw [perform_of_answers ((result_eq_ok_iff _ _ _).mp hcall), skipRefused, hcall]
          refine ih _ (hbits.imp (fun h => ?_) fun h hrest => h (List.mem_cons_of_mem call hrest))
          rw [hwidths.1, hwidths.2]
          exact h
      | error e =>
          have hfails := (result_eq_error_iff _ _ _).mp hcall
          rw [perform_of_fails hfails, skipRefused, hcall]
          -- The one call that would leave something behind is ruled out by the widths.
          have hsame : (call.edit b.circuit).state = b.circuit := by
            rcases Call.untouched hfails with h | ⟨rfl, hshort⟩
            · exact h
            · rcases hbits with h | h
              · omega
              · exact absurd List.mem_cons_self h
          rw [hsame]
          exact ih _ (hbits.imp id fun h hrest => h (List.mem_cons_of_mem call hrest))

/-- What a builder makes of a list of calls. Checked, it answers with the first refusal, and
    only without one with the circuit. A refused call leaves the circuit as it was, unless
    all qubits were to be measured and there are more of them than bits. Without such calls
    the circuit is that of the calls that are not refused. -/
theorem refused_calls_passed_over (c : Circuit R) (calls : List (Call R)) :
    (make calls (start c)).buildValidated
        = (match firstRefusal? calls c with
          | some e => .error e
          | none => .ok (make calls (start c)).build) ∧
      (∀ (call : Call R) (b : Builder R) (e : Error R),
        (call.edit b.circuit).result = .error e →
          ¬ (call = .measureAll ∧ b.circuit.numClbits < b.circuit.numQubits) →
            call.make b = { b with refusal := b.refusal.or (some e) }) ∧
      (c.numQubits ≤ c.numClbits ∨ Call.measureAll ∉ calls →
        (make calls (start c)).build = skipRefused calls c) := by
  refine ⟨?_, fun call b e he hbits => ?_, fun hbits => circuit_make calls (start c) hbits⟩
  · have hrefusal : (make calls (start c)).refusal = firstRefusal? calls c :=
      refusal_make calls (start c)
    unfold buildValidated
    rw [hrefusal]
    rfl
  · have hfails := (result_eq_error_iff _ _ e).mp he
    rw [call.make_eq_perform, perform_of_fails hfails]
    rcases Call.untouched hfails with h | h
    · rw [h]
    · exact absurd h hbits

/-- Of these calls the second and the third are passed over. -/
def mixedCalls : List (Call ℝ) :=
  [.hLayer, .gate .x [7] [], .measure 1 2, .cxChain, .measureAll]

theorem mixedCalls_passed_over :
    (make mixedCalls (start (.square 2))).buildValidated = .error (.qubitOutOfRange 7 2) ∧
      (Call.gate .x [7] [] : Call ℝ).make (start (.square 2))
        = ⟨.square 2, some (.qubitOutOfRange 7 2)⟩ ∧
      (make mixedCalls (start (.square 2))).build = skipRefused mixedCalls (.square 2) := by
  have hall := refused_calls_passed_over (.square 2) mixedCalls
  have hfirst : firstRefusal? mixedCalls (.square 2) = some (.qubitOutOfRange 7 2) := by
    cbv
  have hgate : ((Call.gate .x [7] [] : Call ℝ).edit (.square 2)).result
      = .error (.qubitOutOfRange 7 2) := by
    cbv
  refine ⟨?_, hall.2.1 _ (start (.square 2)) _ hgate ?_, hall.2.2 (Or.inl (Nat.le_refl 2))⟩
  · rw [hall.1, hfirst]
  · rintro ⟨h, -⟩
    exact absurd h (by simp)

/-- With one bit for two qubits the measurement of the first one stays, although the call
    that made it was refused. -/
theorem measureAll_not_passed_over :
    (Call.measureAll.edit (.empty 2 1 : Circuit ℝ)).result = .error (.clbitOutOfRange 1 1) ∧
      (make [.measureAll] (start (.empty 2 1 : Circuit ℝ))).build.measurements = [(0, 0)] ∧
      (skipRefused [.measureAll] (.empty 2 1 : Circuit ℝ)).measurements = [] := by
  refine ⟨?_, ?_, ?_⟩ <;> cbv

end Calls

end Builder

end QubitLab
