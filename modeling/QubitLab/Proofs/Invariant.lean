import QubitLab.Proofs.Transition

/-!
# What transitions keep

A property of states is kept by a transition when it holds of the state that is left
behind, whether there is an answer or not. So a property that is kept holds after every
step of a run that fails half way as well.

What is kept may depend on what happens. The records of the journal say what happened, and
`Keeps` asks for the property only where all of them are fine. A record of one step is a
record of the sequence, so the condition on a sequence gives the condition on its steps.

There is one rule for each building block, as there is for runs that answer, and no proof
about a step has to open an outcome.

## Main definitions

* `Transition.Keeps`: A transition keeps a property of states.

## Theorems

* `keeps_bind`, `keeps_require_bind`, `keeps_reading_bind`: Sequences.
* `keeps_forEach`, `keeps_collect`, `keeps_repeated`: Loops.
-/

namespace QubitLab

namespace Transition

variable {ε τ σ α β : Type} {fine : τ → Prop} {P : σ → Prop}

/-- The step leads from states with the property to states with the property, as long as
    its records are fine. -/
def Keeps (fine : τ → Prop) (P : σ → Prop) (m : Transition ε τ σ α) : Prop :=
  ∀ s, P s → (∀ r ∈ (m s).journal, fine r) → P (m s).state

section Steps

/-- What is kept whatever the records say is kept. -/
theorem keeps_of_state {m : Transition ε τ σ α} (h : ∀ s, P s → P (m s).state) :
    Keeps fine P m :=
  fun s hs _ => h s hs

/-- A sequence keeps what its parts keep. -/
theorem keeps_andThen {m : Transition ε τ σ α} {f : α → Transition ε τ σ β}
    (hm : Keeps fine P m) (hf : ∀ a, Keeps fine P (f a)) : Keeps fine P (andThen m f) := by
  intro s hs hall
  have hfirst := hm s hs
  unfold andThen at hall ⊢
  generalize m s = first at hfirst hall ⊢
  rcases first with ⟨e | a, t, journal⟩
  · exact hfirst hall
  · -- The records of the sequence are those of the first step and then the others.
    have ht := hfirst fun r hr => hall r (List.mem_append_left _ hr)
    exact hf a t ht fun r hr => hall r (List.mem_append_right _ hr)

/-- The same in the notation for sequences. -/
theorem keeps_bind {m : Transition ε τ σ α} {f : α → Transition ε τ σ β}
    (hm : Keeps fine P m) (hf : ∀ a, Keeps fine P (f a)) : Keeps fine P (m >>= f) :=
  keeps_andThen hm hf

theorem keeps_pure (a : α) : Keeps fine P (pure a : Transition ε τ σ α) :=
  keeps_of_state fun _ hs => hs

theorem keeps_fail (e : ε) : Keeps fine P (fail e : Transition ε τ σ α) :=
  keeps_of_state fun _ hs => hs

theorem keeps_note (record : τ) : Keeps fine P (note record : Transition ε τ σ Unit) :=
  keeps_of_state fun _ hs => hs

theorem keeps_reading (f : σ → α) : Keeps fine P (reading f : Transition ε τ σ α) :=
  keeps_of_state fun _ hs => hs

/-- A step that fails without a change has to be looked at only where it answers. -/
theorem keeps_attempt {f : σ → Except ε σ}
    (h : ∀ s t, P s → Answers (attempt f : Transition ε τ σ Unit) s () t → P t) :
    Keeps fine P (attempt f : Transition ε τ σ Unit) := by
  refine keeps_of_state fun s hs => ?_
  cases hresult : (attempt f s : Outcome ε τ σ Unit).result with
  | error e =>
      rw [((fails_attempt f e s _).mp ((result_eq_error_iff _ s e).mp hresult)).2]
      exact hs
  | ok u => exact h s _ hs ((result_eq_ok_iff _ s u).mp hresult)

/-- Records that are translated are fine when their translations are. -/
theorem keeps_mapJournal {τ' : Type} {fine : τ' → Prop} {g : τ → τ'}
    {m : Transition ε τ σ α} (h : Keeps (fun r => fine (g r)) P m) :
    Keeps fine P (mapJournal g m) :=
  fun s hs hall => h s hs fun r hr => hall (g r) (List.mem_map_of_mem hr)

theorem keeps_change {f : σ → σ} (h : ∀ s, P s → P (f s)) :
    Keeps fine P (change f : Transition ε τ σ Unit) :=
  keeps_of_state h

/-- What comes after a check may rely on it. -/
theorem keeps_require_bind {check : Except ε α} {k : α → Transition ε τ σ β}
    (hk : ∀ a, check = .ok a → Keeps fine P (k a)) :
    Keeps fine P (require check >>= k) := by
  intro s hs
  cases hc : check with
  | error e => exact fun _ => hs
  | ok a => exact hk a hc s hs

/-- What is read of a state with the property has a property of its own. -/
theorem keeps_reading_bind {f : σ → α} {V : α → Prop} (h : ∀ s, P s → V (f s))
    {k : α → Transition ε τ σ β} (hk : ∀ a, V a → Keeps fine P (k a)) :
    Keeps fine P (reading f >>= k) :=
  fun s hs => hk (f s) (h s hs) s hs

end Steps

section Loops

/-- A loop keeps what its body keeps. -/
theorem keeps_forEach {γ : Type} {f : γ → Transition ε τ σ Unit} {l : List γ}
    (h : ∀ x ∈ l, Keeps fine P (f x)) : Keeps fine P (forEach f l) := by
  -- If the first step fails, the others are not made.
  induction l with
  | nil => exact keeps_pure ()
  | cons x rest ih =>
      exact keeps_andThen (h x List.mem_cons_self) fun _ =>
        ih fun y hy => h y (List.mem_cons_of_mem x hy)

/-- So does a loop that gathers answers. -/
theorem keeps_collect {γ : Type} {f : γ → Transition ε τ σ β} {l : List γ}
    (h : ∀ x ∈ l, Keeps fine P (f x)) : Keeps fine P (collect f l) := by
  induction l with
  | nil => exact keeps_pure []
  | cons x rest ih =>
      refine keeps_andThen (h x List.mem_cons_self) fun b => ?_
      exact keeps_andThen (ih fun y hy => h y (List.mem_cons_of_mem x hy)) fun bs =>
        keeps_pure (b :: bs)

/-- And one that passes an answer on. -/
theorem keeps_repeated {f : α → Transition ε τ σ α} (h : ∀ a, Keeps fine P (f a)) (n : Nat)
    (a : α) : Keeps fine P (repeated f n a) := by
  induction n generalizing a with
  | zero => exact keeps_pure a
  | succ n ih => exact keeps_andThen (h a) ih

end Loops

end Transition

end QubitLab
