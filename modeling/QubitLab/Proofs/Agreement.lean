import QubitLab.Proofs.Transition

/-!
# Two runs side by side

Two transitions agree, over a relation between their states, when from related
states they give the same result and leave related states behind. The result
includes the failures: where one fails the other does, with the same error, and
the states that they leave half way are related too. The journals are left open.

Agreement is proved along the structure of the two transitions. There is one rule
for each building block, and `agree_bind` joins them, so a proof about two long
runs never speaks of outcomes. A step that reads the state is related to one that
reads the other state through the fact that the two readings are equal.

## Main definitions

* `Transition.Agree`: Two transitions agree over a relation between states.
* `Transition.Succeeds`: A transition answers in every state of a kind, and leaves
  a state of that kind.

## Theorems

* `agree_bind`, `agree_require_bind`, `agree_reading_bind`: Sequences.
* `agree_forEach`, `agree_forEach_self`: A step for each item of two lists, or of one.
* `agree_collect`, `agree_repeated`: The other loops.
* `Succeeds.left`: What such a transition leaves.
* `succeeds_bind`, `succeeds_forEach`, `succeeds_collect`: Sequences of steps that succeed.
* `answers_forEach_foldl`: What a loop of them leaves.
-/

namespace QubitLab

namespace Transition

variable {ε τ τ' σ σ' α β : Type}

section Agreement

/-- From related states the two transitions give the same result, and leave related
    states behind. -/
def Agree (ρ : σ → σ' → Prop) (m : Transition ε τ σ α) (m' : Transition ε τ' σ' α) : Prop :=
  ∀ s s', ρ s s' → (m' s').result = (m s).result ∧ ρ (m s).state (m' s').state

variable {ρ : σ → σ' → Prop}

/-- The second steps have to agree for each answer that the first ones may give. -/
theorem agree_andThen {m : Transition ε τ σ α} {m' : Transition ε τ' σ' α}
    {f : α → Transition ε τ σ β} {f' : α → Transition ε τ' σ' β} (hm : Agree ρ m m')
    (hf : ∀ a, Agree ρ (f a) (f' a)) : Agree ρ (andThen m f) (andThen m' f') := by
  intro s s' hs
  have hfirst := hm s s' hs
  unfold andThen
  generalize m s = first, m' s' = first' at hfirst
  -- a, t, journal⟩ | Both first steps fail or both answer. What one of them does alone contradicts
  -- the equal results.
  rcases first with ⟨e | a, t, journal⟩
  · rcases first' with ⟨e' | a', t', journal'⟩
    · rcases hfirst with ⟨heq, ht⟩
      injection heq with heq
      exact ⟨congrArg Except.error heq, ht⟩
    · exact absurd hfirst.1 (by simp only [reduceCtorEq, not_false_eq_true])
  · rcases first' with ⟨e' | a', t', journal'⟩
    · exact absurd hfirst.1 (by simp only [reduceCtorEq, not_false_eq_true])
    · rcases hfirst with ⟨heq, ht⟩
      injection heq with heq
      subst heq
      exact hf _ t t' ht

theorem agree_bind {m : Transition ε τ σ α} {m' : Transition ε τ' σ' α}
    {f : α → Transition ε τ σ β} {f' : α → Transition ε τ' σ' β} (hm : Agree ρ m m')
    (hf : ∀ a, Agree ρ (f a) (f' a)) : Agree ρ (m >>= f) (m' >>= f') :=
  agree_andThen hm hf

theorem agree_pure (a : α) :
    Agree ρ (pure a : Transition ε τ σ α) (pure a : Transition ε τ' σ' α) :=
  fun _ _ hs => ⟨rfl, hs⟩

theorem agree_note (record : τ) (record' : τ') :
    Agree ρ (note record : Transition ε τ σ Unit) (note record') :=
  fun _ _ hs => ⟨rfl, hs⟩

/-- Checks agree when they are equal. -/
theorem agree_require {check check' : Except ε α} (h : check' = check) :
    Agree ρ (require check : Transition ε τ σ α) (require check' : Transition ε τ' σ' α) :=
  fun _ _ hs => ⟨h, hs⟩

/-- Readings agree when related states give the same value. -/
theorem agree_reading {f : σ → α} {f' : σ' → α} (h : ∀ s s', ρ s s' → f' s' = f s) :
    Agree ρ (reading f : Transition ε τ σ α) (reading f' : Transition ε τ' σ' α) :=
  fun s s' hs => ⟨congrArg Except.ok (h s s' hs), hs⟩

/-- Changes agree when they keep the relation. -/
theorem agree_change {f : σ → σ} {f' : σ' → σ'} (h : ∀ s s', ρ s s' → ρ (f s) (f' s')) :
    Agree ρ (change f : Transition ε τ σ Unit) (change f' : Transition ε τ' σ' Unit) :=
  fun s s' hs => ⟨rfl, h s s' hs⟩

/-- Both runs read the same known value. -/
theorem agree_reading_bind {f : σ → α} {f' : σ' → α} (v : α)
    (h : ∀ s s', ρ s s' → f s = v ∧ f' s' = v) {k : α → Transition ε τ σ β}
    {k' : α → Transition ε τ' σ' β} (hk : Agree ρ (k v) (k' v)) :
    Agree ρ (reading f >>= k) (reading f' >>= k') := by
  intro s s' hs
  have hread : (reading f >>= k) s = ⟨(k v s).result, (k v s).state, (k v s).journal⟩ := by
    rw [← (h s s' hs).1]
    rfl
  have hread' : (reading f' >>= k') s' = ⟨(k' v s').result, (k' v s').state, (k' v s').journal⟩ := by
    rw [← (h s s' hs).2]
    rfl
  rw [hread, hread']
  exact hk s s' hs

/-- Both runs make a check, whose answers correspond by `g`. -/
theorem agree_require_bind {α' : Type} {check : Except ε α} {check' : Except ε α'} (g : α → α')
    (h : check' = check.map g) {k : α → Transition ε τ σ β} {k' : α' → Transition ε τ' σ' β}
    (hk : ∀ a, check = .ok a → Agree ρ (k a) (k' (g a))) :
    Agree ρ (require check >>= k) (require check' >>= k') := by
  intro s s' hs
  rw [h]
  cases hc : check with
  | error e => exact ⟨rfl, hs⟩
  | ok a => exact hk a hc s s' hs

/-- Loops over two lists agree when their steps do, item by item. -/
theorem agree_forEach {γ δ : Type} {f : γ → Transition ε τ σ Unit}
    {f' : δ → Transition ε τ' σ' Unit} {g : γ → δ} {l : List γ}
    (h : ∀ x ∈ l, Agree ρ (f x) (f' (g x))) :
    Agree ρ (forEach f l) (forEach f' (l.map g)) := by
  induction l with
  | nil => exact agree_pure ()
  | cons x rest ih =>
      exact agree_andThen (h x List.mem_cons_self) fun _ =>
        ih fun y hy => h y (List.mem_cons_of_mem x hy)

theorem agree_forEach_self {γ : Type} {f : γ → Transition ε τ σ Unit}
    {f' : γ → Transition ε τ' σ' Unit} (h : ∀ x, Agree ρ (f x) (f' x)) (l : List γ) :
    Agree ρ (forEach f l) (forEach f' l) := by
  have hmap := agree_forEach (g := id) (l := l) fun x _ => h x
  rwa [List.map_id] at hmap

/-- The answers of two loops are the same when those of their steps are. -/
theorem agree_collect {γ : Type} {f : γ → Transition ε τ σ β} {f' : γ → Transition ε τ' σ' β}
    (h : ∀ x, Agree ρ (f x) (f' x)) (l : List γ) : Agree ρ (collect f l) (collect f' l) := by
  induction l with
  | nil => exact agree_pure []
  | cons x rest ih =>
      exact agree_andThen (h x) fun b => agree_andThen ih fun bs => agree_pure (b :: bs)

/-- A value that is handed on from step to step is the same in both runs. -/
theorem agree_repeated {f : α → Transition ε τ σ α} {f' : α → Transition ε τ' σ' α}
    (h : ∀ a, Agree ρ (f a) (f' a)) (n : Nat) (a : α) :
    Agree ρ (repeated f n a) (repeated f' n a) := by
  induction n generalizing a with
  | zero => exact agree_pure a
  | succ n ih => exact agree_andThen (h a) ih

end Agreement

section Success

variable {P : σ → Prop}

/-- In every state of a kind the transition answers, and leaves a state of that
    kind. -/
def Succeeds (P : σ → Prop) (m : Transition ε τ σ α) : Prop :=
  ∀ s, P s → ∃ a t, Answers m s a t ∧ P t

/-- What such a transition leaves is a state of the kind. -/
theorem Succeeds.left {m : Transition ε τ σ α} (h : Succeeds P m) {s t : σ} {a : α}
    (hs : P s) (hm : Answers m s a t) : P t := by
  rcases h s hs with ⟨_, _, ha, ht⟩
  rwa [(answers_unique hm ha).2]

theorem succeeds_andThen {m : Transition ε τ σ α} {f : α → Transition ε τ σ β}
    (hm : Succeeds P m) (hf : ∀ a, Succeeds P (f a)) : Succeeds P (andThen m f) := by
  intro s hs
  rcases hm s hs with ⟨a, t, ha, ht⟩
  rcases hf a t ht with ⟨b, u, hb, hu⟩
  exact ⟨b, u, (answers_andThen m f s u b).mpr ⟨a, t, ha, hb⟩, hu⟩

/-- Steps that succeed do so one after the other. -/
theorem succeeds_bind {m : Transition ε τ σ α} {f : α → Transition ε τ σ β}
    (hm : Succeeds P m) (hf : ∀ a, Succeeds P (f a)) : Succeeds P (m >>= f) :=
  succeeds_andThen hm hf

theorem succeeds_pure (a : α) : Succeeds P (pure a : Transition ε τ σ α) :=
  fun s hs => ⟨a, s, ⟨rfl, rfl⟩, hs⟩

theorem succeeds_note (record : τ) : Succeeds P (note record : Transition ε τ σ Unit) :=
  fun s hs => ⟨(), s, ⟨rfl, rfl⟩, hs⟩

theorem succeeds_reading (f : σ → α) : Succeeds P (reading f : Transition ε τ σ α) :=
  fun s hs => ⟨f s, s, ⟨rfl, rfl⟩, hs⟩

theorem succeeds_change {f : σ → σ} (h : ∀ s, P s → P (f s)) :
    Succeeds P (change f : Transition ε τ σ Unit) :=
  fun s hs => ⟨(), f s, ⟨rfl, rfl⟩, h s hs⟩

/-- A check that is known to pass is not in the way. -/
theorem succeeds_require_bind {check : Except ε α} {a : α} (h : check = .ok a)
    {k : α → Transition ε τ σ β} (hk : Succeeds P (k a)) :
    Succeeds P (require check >>= k) := by
  intro s hs
  rcases hk s hs with ⟨b, t, hb, ht⟩
  exact ⟨b, t, (answers_bind _ k s t b).mpr ⟨a, s, ⟨h, rfl⟩, hb⟩, ht⟩

theorem succeeds_reading_bind {f : σ → α} {v : α} (h : ∀ s, P s → f s = v)
    {k : α → Transition ε τ σ β} (hk : Succeeds P (k v)) :
    Succeeds P (reading f >>= k) := by
  intro s hs
  rcases hk s hs with ⟨b, t, hb, ht⟩
  exact ⟨b, t, (answers_bind _ k s t b).mpr ⟨v, s, ⟨congrArg Except.ok (h s hs), rfl⟩, hb⟩, ht⟩

/-- A loop of steps that succeed does so, however long it is. -/
theorem succeeds_forEach {γ : Type} {f : γ → Transition ε τ σ Unit} {l : List γ}
    (h : ∀ x ∈ l, Succeeds P (f x)) : Succeeds P (forEach f l) := by
  induction l with
  | nil => exact succeeds_pure ()
  | cons x rest ih =>
      exact succeeds_andThen (h x List.mem_cons_self) fun _ =>
        ih fun y hy => h y (List.mem_cons_of_mem x hy)

theorem succeeds_collect {γ : Type} {f : γ → Transition ε τ σ α} {l : List γ}
    (h : ∀ x ∈ l, Succeeds P (f x)) : Succeeds P (collect f l) := by
  induction l with
  | nil => exact succeeds_pure []
  | cons x rest ih =>
      refine succeeds_andThen (h x List.mem_cons_self) fun a => ?_
      exact succeeds_andThen (ih fun y hy => h y (List.mem_cons_of_mem x hy)) fun as =>
        succeeds_pure (a :: as)

/-- A loop of steps that succeed leaves the state that they leave one after the other. -/
theorem answers_forEach_foldl {γ : Type} {f : γ → Transition ε τ σ Unit} {l : List γ}
    (h : ∀ x ∈ l, Succeeds P (f x)) {s : σ} (hs : P s) :
    Answers (forEach f l) s () (l.foldl (fun s x => (f x s).state) s) ∧
      P (l.foldl (fun s x => (f x s).state) s) := by
  induction l generalizing s with
  | nil => exact ⟨⟨rfl, rfl⟩, hs⟩
  | cons x rest ih =>
      rcases h x List.mem_cons_self s hs with ⟨u, t, ⟨hresult, rfl⟩, ht⟩
      rcases ih (fun y hy => h y (List.mem_cons_of_mem x hy)) ht with ⟨hrest, hlast⟩
      exact ⟨(answers_forEach_cons f x rest () s _).mpr ⟨_, ⟨hresult, rfl⟩, hrest⟩, hlast⟩

end Success

end Transition

end QubitLab
