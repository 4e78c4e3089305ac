import QubitLab.Transition

/-!
# Successful transitions

A transition that fails has still left a state behind, so its outcome has three
parts, and most statements about a run need only two of them: what the run
answered and which state it left. `Answers` keeps these two and says that there
was an answer. The journal is left open, since no theorem about states reads it.

Each building block of a transition has one rule that says when it answers, and
`answers_bind` takes a sequence apart into its steps. With these a run is
inverted by rewriting: what a `do` block answers becomes a chain of facts about
its steps, in their order, and no proof has to open an outcome again.

`Fails` is the same for the runs that end with an error, with the same rules. A sequence
fails at the first of its steps or behind it, so `fails_bind` has two cases where
`answers_bind` has one.

## Main definitions

* `Transition.Answers`: A step answers in one state and leaves another.
* `Transition.Fails`: A step fails in one state and leaves another.

## Theorems

* `bind_of_silent`, `bind_of_error`, `bind_of_idle`: Steps that do not show in a sequence.
* `answers_unique`: A step has one answer and leaves one state.
* `answers_bind`: A sequence answers when both of its steps do.
* `answers_forEach_nil`, `answers_forEach_cons`: A step for each item of a list.
* `answers_collect_cons`, `answers_collect_getElem`: The same with the answers.
* `result_eq_ok_iff`: A result is an answer with some state behind it.
* `fails_bind`: A sequence fails when one of its steps does.
* `fails_forEach_split`: A loop fails at the first item on which its step does.
* `not_fails_of_answers`: A step that answers does not fail.
-/

namespace QubitLab

namespace Transition

variable {ε τ σ α β : Type}

/-- The step answers `a` in the state `s`, and leaves the state `t` behind. -/
def Answers (m : Transition ε τ σ α) (s : σ) (a : α) (t : σ) : Prop :=
  (m s).result = .ok a ∧ (m s).state = t

/-- A reading in front of something hands on what it reads. -/
theorem reading_bind (f : σ → α) (k : α → Transition ε τ σ β) (s : σ) :
    (reading f >>= k) s = k (f s) s := rfl

/-- A first step that answers and writes nothing is not seen in the sequence. -/
theorem bind_of_silent {m : Transition ε τ σ α} {f : α → Transition ε τ σ β} {s t : σ} {a : α}
    (h : m s = ⟨.ok a, t, []⟩) : (m >>= f) s = f a t := by
  change andThen m f s = f a t
  unfold andThen
  rw [h]
  rfl

/-- Behind a first step that fails nothing happens. -/
theorem bind_of_error {m : Transition ε τ σ α} {f : α → Transition ε τ σ β} {s t : σ} {e : ε}
    {journal : List τ} (h : m s = ⟨.error e, t, journal⟩) :
    (m >>= f) s = ⟨.error e, t, journal⟩ := by
  change andThen m f s = _
  unfold andThen
  rw [h]

/-- A second step that leaves everything as it is is not seen either. -/
theorem bind_of_idle {m : Transition ε τ σ α} {f : α → Transition ε τ σ α} {s : σ}
    (h : ∀ a t, Answers m s a t → f a t = ⟨.ok a, t, []⟩) : (m >>= f) s = m s := by
  cases hm : m s with
  | mk result t journal =>
      cases result with
      | error e => exact bind_of_error hm
      | ok a =>
          change andThen m f s = _
          unfold andThen
          rw [hm]
          dsimp only
          rw [h a t ⟨congrArg Outcome.result hm, congrArg Outcome.state hm⟩]
          simp only [List.append_nil]

/-- A result is an answer with some state behind it. -/
theorem result_eq_ok_iff (m : Transition ε τ σ α) (s : σ) (a : α) :
    (m s).result = .ok a ↔ Answers m s a (m s).state :=
  ⟨fun h => ⟨h, rfl⟩, fun h => h.1⟩

/-- A step has one answer and leaves one state. -/
theorem answers_unique {m : Transition ε τ σ α} {s t u : σ} {a b : α}
    (h1 : Answers m s a t) (h2 : Answers m s b u) : a = b ∧ t = u := by
  have hab : (Except.ok a : Except ε α) = .ok b := h1.1.symm.trans h2.1
  injection hab with hab
  exact ⟨hab, h1.2.symm.trans h2.2⟩

theorem answers_andThen (m : Transition ε τ σ α) (f : α → Transition ε τ σ β)
    (s u : σ) (b : β) :
    Answers (andThen m f) s b u ↔ ∃ a t, Answers m s a t ∧ Answers (f a) t b u := by
  unfold Answers andThen
  rcases m s with ⟨_ | a, t, journal⟩
  · constructor
    · rintro ⟨h, -⟩
      exact absurd h (by simp only [reduceCtorEq, not_false_eq_true])
    · rintro ⟨a, t, ⟨h, -⟩, -⟩
      exact absurd h (by simp only [reduceCtorEq, not_false_eq_true])
  · constructor
    · intro h
      exact ⟨a, t, ⟨rfl, rfl⟩, h⟩
    · rintro ⟨a', t', ⟨ha, rfl⟩, h⟩
      injection ha with ha
      subst ha
      exact h

/-- A sequence answers when both of its steps do, the second one in the state that the first one
    leaves. -/
@[simp] theorem answers_bind (m : Transition ε τ σ α) (f : α → Transition ε τ σ β)
    (s u : σ) (b : β) :
    Answers (m >>= f) s b u ↔ ∃ a t, Answers m s a t ∧ Answers (f a) t b u :=
  answers_andThen m f s u b

@[simp] theorem answers_pure (a b : α) (s t : σ) :
    Answers (pure a : Transition ε τ σ α) s b t ↔ b = a ∧ t = s := by
  change (Except.ok a : Except ε α) = .ok b ∧ s = t ↔ _
  rw [Except.ok.injEq, eq_comm, @eq_comm _ s]

@[simp] theorem answers_answer (a b : α) (s t : σ) :
    Answers (answer a : Transition ε τ σ α) s b t ↔ b = a ∧ t = s :=
  answers_pure a b s t

@[simp] theorem answers_fail (e : ε) (a : α) (s t : σ) :
    ¬ Answers (fail e : Transition ε τ σ α) s a t := by
  rintro ⟨h, -⟩
  exact absurd h (by simp only [fail, reduceCtorEq, not_false_eq_true])

@[simp] theorem answers_reading (f : σ → α) (a : α) (s t : σ) :
    Answers (reading f : Transition ε τ σ α) s a t ↔ a = f s ∧ t = s :=
  answers_pure (f s) a s t

@[simp] theorem answers_current (a s t : σ) :
    Answers (current : Transition ε τ σ σ) s a t ↔ a = s ∧ t = s :=
  answers_pure s a s t

@[simp] theorem answers_change (f : σ → σ) (a : Unit) (s t : σ) :
    Answers (change f : Transition ε τ σ Unit) s a t ↔ t = f s :=
  ⟨fun h => h.2.symm, fun h => ⟨rfl, h.symm⟩⟩

@[simp] theorem answers_note (record : τ) (a : Unit) (s t : σ) :
    Answers (note record : Transition ε τ σ Unit) s a t ↔ t = s :=
  ⟨fun h => h.2.symm, fun h => ⟨rfl, h.symm⟩⟩

/-- A check answers with what it finds, and changes nothing. -/
@[simp] theorem answers_require (check : Except ε α) (a : α) (s t : σ) :
    Answers (require check : Transition ε τ σ α) s a t ↔ check = .ok a ∧ t = s :=
  ⟨fun h => ⟨h.1, h.2.symm⟩, fun h => ⟨h.1, h.2.symm⟩⟩

/-- An attempt answers when there is a new state, and leaves this state. -/
@[simp] theorem answers_attempt (f : σ → Except ε σ) (a : Unit) (s t : σ) :
    Answers (attempt f : Transition ε τ σ Unit) s a t ↔ f s = .ok t := by
  unfold Answers attempt
  rcases f s with e | s'
  · simp only [reduceCtorEq, false_and]
  · simp only [true_and, Except.ok.injEq]

@[simp] theorem answers_mapJournal {τ' : Type} (g : τ → τ') (m : Transition ε τ σ α)
    (a : α) (s t : σ) : Answers (mapJournal g m) s a t ↔ Answers m s a t :=
  Iff.rfl

@[simp] theorem answers_forEach_nil (f : α → Transition ε τ σ Unit) (a : Unit)
    (s t : σ) : Answers (forEach f []) s a t ↔ t = s :=
  ⟨fun h => h.2.symm, fun h => ⟨rfl, h.symm⟩⟩

/-- A loop makes its first step and goes on from there. -/
theorem answers_forEach_cons (f : α → Transition ε τ σ Unit) (x : α) (rest : List α)
    (a : Unit) (s u : σ) :
    Answers (forEach f (x :: rest)) s a u ↔
      ∃ t, Answers (f x) s () t ∧ Answers (forEach f rest) t a u := by
  rw [forEach, answers_andThen]
  exact ⟨fun ⟨_, t, h⟩ => ⟨t, h⟩, fun ⟨t, h⟩ => ⟨(), t, h⟩⟩

/-- The answers of a loop, with that of its first step in front. -/
theorem answers_collect_cons (f : α → Transition ε τ σ β) (x : α) (rest : List α)
    (bs : List β) (s u : σ) :
    Answers (collect f (x :: rest)) s bs u ↔
      ∃ b t cs, Answers (f x) s b t ∧ Answers (collect f rest) t cs u ∧ bs = b :: cs := by
  rw [collect, answers_andThen]
  constructor
  · rintro ⟨b, t, hb, h⟩
    rcases (answers_andThen _ _ t u bs).mp h with ⟨cs, v, hcs, hlast⟩
    rcases (answers_answer _ bs v u).mp hlast with ⟨rfl, rfl⟩
    exact ⟨b, t, cs, hb, hcs, rfl⟩
  · rintro ⟨b, t, cs, hb, hcs, rfl⟩
    exact ⟨b, t, hb, (answers_andThen _ _ t u _).mpr ⟨cs, u, hcs, ⟨rfl, rfl⟩⟩⟩

/-- There is an answer for each item, and each was given behind those of the items before. -/
theorem answers_collect_getElem {f : α → Transition ε τ σ β} {l : List α} {bs : List β}
    {s u : σ} (h : Answers (collect f l) s bs u) :
    bs.length = l.length ∧ ∀ (k : Nat) (x : α), l[k]? = some x →
      ∃ t b v, Answers (collect f (l.take k)) s (bs.take k) t ∧ Answers (f x) t b v ∧
        bs[k]? = some b := by
  -- The first item is answered at the start, and the others are counted from the state behind it.
  induction l generalizing s bs with
  | nil =>
      rcases (answers_answer _ bs s u).mp h with ⟨rfl, rfl⟩
      exact ⟨rfl, fun k x hx => absurd hx (by simp)⟩
  | cons x rest ih =>
      rcases (answers_collect_cons f x rest bs s u).mp h with ⟨b, t, cs, hb, hcs, rfl⟩
      rcases ih hcs with ⟨hlength, hrest⟩
      refine ⟨by rw [List.length_cons, List.length_cons, hlength], fun k y hy => ?_⟩
      cases k with
      | zero =>
          obtain rfl : x = y := Option.some.inj hy
          exact ⟨s, b, t, ⟨rfl, rfl⟩, hb, rfl⟩
      | succ k =>
          rcases hrest k y hy with ⟨v, b', w, htake, hy', hget⟩
          refine ⟨v, b', w, ?_, hy', hget⟩
          exact (answers_collect_cons f x _ _ s v).mpr ⟨b, t, _, hb, htake, rfl⟩

section Failing

/-- The step fails with `e` in the state `s`, and leaves the state `t` behind. -/
def Fails (m : Transition ε τ σ α) (s : σ) (e : ε) (t : σ) : Prop :=
  (m s).result = .error e ∧ (m s).state = t

theorem result_eq_error_iff (m : Transition ε τ σ α) (s : σ) (e : ε) :
    (m s).result = .error e ↔ Fails m s e (m s).state :=
  ⟨fun h => ⟨h, rfl⟩, fun h => h.1⟩

/-- A step fails with one error and leaves one state. -/
theorem fails_unique {m : Transition ε τ σ α} {s t u : σ} {e e' : ε} (h1 : Fails m s e t)
    (h2 : Fails m s e' u) : e = e' ∧ t = u := by
  have hee : (Except.error e : Except ε α) = .error e' := h1.1.symm.trans h2.1
  injection hee with hee
  exact ⟨hee, h1.2.symm.trans h2.2⟩

/-- A step that answers does not fail. -/
theorem not_fails_of_answers {m : Transition ε τ σ α} {s t u : σ} {a : α} {e : ε}
    (h : Answers m s a t) : ¬ Fails m s e u := by
  rintro ⟨hf, -⟩
  exact absurd (h.1.symm.trans hf) (by simp only [reduceCtorEq, not_false_eq_true])

/-- A sequence fails at its first step, or at the second one behind an answer. -/
@[simp] theorem fails_bind (m : Transition ε τ σ α) (f : α → Transition ε τ σ β)
    (s u : σ) (e : ε) :
    Fails (m >>= f) s e u ↔ Fails m s e u ∨ ∃ a t, Answers m s a t ∧ Fails (f a) t e u := by
  change Fails (andThen m f) s e u ↔ _
  unfold Fails Answers andThen
  rcases m s with ⟨e' | a, t, journal⟩
  · constructor
    · rintro ⟨he, ht⟩
      injection he with he
      exact Or.inl ⟨congrArg Except.error he, ht⟩
    · rintro (⟨he, ht⟩ | ⟨a, t, ⟨h, -⟩, -⟩)
      · injection he with he
        exact ⟨congrArg Except.error he, ht⟩
      · exact absurd h (by simp only [reduceCtorEq, not_false_eq_true])
  · constructor
    · intro h
      exact Or.inr ⟨a, t, ⟨rfl, rfl⟩, h⟩
    · rintro (⟨h, -⟩ | ⟨a', t', ⟨ha, rfl⟩, h⟩)
      · exact absurd h (by simp only [reduceCtorEq, not_false_eq_true])
      · injection ha with ha
        subst ha
        exact h

@[simp] theorem fails_pure (a : α) (e : ε) (s t : σ) :
    ¬ Fails (pure a : Transition ε τ σ α) s e t :=
  not_fails_of_answers ⟨rfl, rfl⟩

@[simp] theorem fails_reading (f : σ → α) (e : ε) (s t : σ) :
    ¬ Fails (reading f : Transition ε τ σ α) s e t :=
  not_fails_of_answers ⟨rfl, rfl⟩

@[simp] theorem fails_change (f : σ → σ) (e : ε) (s t : σ) :
    ¬ Fails (change f : Transition ε τ σ Unit) s e t :=
  not_fails_of_answers ⟨rfl, rfl⟩

@[simp] theorem fails_note (record : τ) (e : ε) (s t : σ) :
    ¬ Fails (note record : Transition ε τ σ Unit) s e t :=
  not_fails_of_answers ⟨rfl, rfl⟩

@[simp] theorem fails_require (check : Except ε α) (e : ε) (s t : σ) :
    Fails (require check : Transition ε τ σ α) s e t ↔ check = .error e ∧ t = s :=
  ⟨fun h => ⟨h.1, h.2.symm⟩, fun h => ⟨h.1, h.2.symm⟩⟩

/-- An attempt that fails leaves the state as it was. -/
@[simp] theorem fails_attempt (f : σ → Except ε σ) (e : ε) (s t : σ) :
    Fails (attempt f : Transition ε τ σ Unit) s e t ↔ f s = .error e ∧ t = s := by
  unfold Fails attempt
  rcases f s with e' | s'
  · simp only [Except.error.injEq, @eq_comm _ s]
  · simp only [reduceCtorEq, false_and]

/-- A loop that has got through the items before one on which its step fails. -/
theorem fails_forEach_split {f : α → Transition ε τ σ Unit} {l rest : List α} {x : α}
    {s t u : σ} {e : ε} (hl : Answers (forEach f l) s () t) (hx : Fails (f x) t e u) :
    Fails (forEach f (l ++ x :: rest)) s e u := by
  induction l generalizing s with
  | nil =>
      rw [answers_forEach_nil] at hl
      exact (fails_bind _ _ s u e).mpr (Or.inl (hl ▸ hx))
  | cons y l ih =>
      rcases (answers_forEach_cons f y l () s t).mp hl with ⟨s', hy, hl⟩
      exact (fails_bind _ _ s u e).mpr (Or.inr ⟨(), s', hy, ih hl⟩)

end Failing

end Transition

end QubitLab
