/-!
# Transitions

A transition is one step of something that keeps a state and writes a journal. It
answers with a result or an error, and whatever it answers it leaves a state
behind: a step that fails half way has changed the state that far. The records of
the journal are values, and are put into words only when somebody reads them.

Transitions compose. The second one starts in the state that the first one left,
and is not reached when the first one fails; the journals are joined in order.

## Main definitions

* `Outcome`: What a transition leaves behind.
* `Transition`: A step on a state.
* `Transition.attempt`: A step that either succeeds or changes nothing.
* `Transition.note`: A step that writes one record.
* `Transition.forEach`: A step for each item of a list.
* `Transition.collect`: A step for each item of a list, with the answers.
* `Transition.repeated`: A step a number of times.
-/

namespace QubitLab

/-- What a transition leaves behind: its result, the state after it, and the
    records that it wrote, the first one in front. -/
structure Outcome (ε τ σ α : Type) where
  /-- The answer, or why there is none. -/
  result : Except ε α
  /-- The state after the step. -/
  state : σ
  /-- The records, in the order in which they were written. -/
  journal : List τ

/-- A step on states `σ` that answers with an `α` or an error `ε`, and writes
    records `τ`. -/
def Transition (ε τ σ α : Type) := σ → Outcome ε τ σ α

namespace Transition

variable {ε τ σ α β : Type}

/-- The outcome of running a transition in a state. -/
def run (m : Transition ε τ σ α) (s : σ) : Outcome ε τ σ α := m s

/-- The step that answers `a` and does nothing else. -/
def answer (a : α) : Transition ε τ σ α := fun s => ⟨.ok a, s, []⟩

/-- The step that fails with `e` and does nothing else. -/
def fail (e : ε) : Transition ε τ σ α := fun s => ⟨.error e, s, []⟩

/-- One step after another, unless the first one fails. -/
def andThen (m : Transition ε τ σ α) (f : α → Transition ε τ σ β) :
    Transition ε τ σ β := fun s =>
  match m s with
  | ⟨.error e, s, journal⟩ => ⟨.error e, s, journal⟩
  | ⟨.ok a, s, journal⟩ =>
    match f a s with
    | ⟨result, s, later⟩ => ⟨result, s, journal ++ later⟩

instance : Monad (Transition ε τ σ) where
  pure := answer
  bind := andThen

/-- The step that answers with the state. -/
def current : Transition ε τ σ σ := fun s => ⟨.ok s, s, []⟩

/-- The step that answers with a value computed from the state. -/
def reading (f : σ → α) : Transition ε τ σ α := fun s => ⟨.ok (f s), s, []⟩

/-- The step that changes the state. -/
def change (f : σ → σ) : Transition ε τ σ Unit := fun s => ⟨.ok (), f s, []⟩

/-- The step that writes one record. -/
def note (record : τ) : Transition ε τ σ Unit := fun s => ⟨.ok (), s, [record]⟩

/-- The step that fails when a check fails. -/
def require (check : Except ε α) : Transition ε τ σ α := fun s => ⟨check, s, []⟩

/-- The step to the state that `f` gives, or no step at all when `f` fails. -/
def attempt (f : σ → Except ε σ) : Transition ε τ σ Unit := fun s =>
  match f s with
  | .ok s' => ⟨.ok (), s', []⟩
  | .error e => ⟨.error e, s, []⟩

/-- A step for each item of a list, up to the first one that fails. -/
def forEach (f : α → Transition ε τ σ Unit) : List α → Transition ε τ σ Unit
  | [] => answer ()
  | a :: rest => andThen (f a) fun _ => forEach f rest

/-- A step for each item of a list, with the answers in order. -/
def collect (f : α → Transition ε τ σ β) : List α → Transition ε τ σ (List β)
  | [] => answer []
  | a :: rest =>
    andThen (f a) fun b => andThen (collect f rest) fun bs => answer (b :: bs)

/-- A step that is made `n` times, each time with the answer of the time before. -/
def repeated (f : α → Transition ε τ σ α) : Nat → α → Transition ε τ σ α
  | 0, a => answer a
  | n + 1, a => andThen (f a) (repeated f n)

/-- The same step with another kind of record. -/
def mapJournal {τ' : Type} (g : τ → τ') (m : Transition ε τ σ α) :
    Transition ε τ' σ α := fun s =>
  match m s with
  | ⟨result, s, journal⟩ => ⟨result, s, journal.map g⟩

end Transition

end QubitLab
