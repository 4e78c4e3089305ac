import QubitLab.Proofs.Rewrite.Cancel

/-!
# The order of cancelling does not matter

The scan takes pairs out in an order of its own. Any other order would have done as well:
whichever pairs are taken out first, as long as there are some left, in the end the same
number is gone, and the gates that are left are the same up to exchanges of neighbours that
share no qubit.

Two pairs can compete, as in three negations in a row, and the lists that they leave are not
equal. So no attempt is made to join the two orders step by step. Instead the list is read
as a word in a group in which gates without a common qubit commute, and each word has a
normal form. It is built from the right: `absorb` puts a gate in front of a normal form, and
takes it out together with the first gate it shares a qubit with when the two undo each
other. The normal form is the same, up to exchanges, before and after a pair is taken out,
and a list in which nothing is left to cancel is its own normal form.

Cancelling looks at kinds and qubits only, and what is said about the gates that are left is
said about these two. `Gate.outline` is what remains of a gate.

## Main definitions

* `Gate.outline`: The kind and the qubits of a gate.
* `Rewrite.withdraw?`: A list without the gate that a gate in front of it cancels with.
* `Rewrite.absorb`, `Rewrite.normal`: The normal form, gate by gate.
* `Rewrite.Reduced`: No gate of a list cancels with a later one.

## Theorems

* `withdraw?_eq_none`, `withdraw?_eq_some`: Gates without a common qubit do not interfere.
* `absorb_comm`: Such gates are put in front in either order.
* `absorb_reorders`: An exchange in a list is an exchange in what comes of it.
* `absorb_absorb`: Two gates that undo each other leave a normal form as it was.
* `Deletions.normal`, `normal_of_settled`: What deletions keep, and where they end.
* `cancel_maximal`: The scan against any other order.
-/

namespace QubitLab

variable {R : Type}

namespace Gate

/-- The kind and the qubits of a gate. -/
def outline (g : Gate R) : Gate R := { g with params := [], payload := none }

theorem outline_outline (g : Gate R) : g.outline.outline = g.outline := rfl

theorem outline_eq_iff (g h : Gate R) :
    g.outline = h.outline ↔ g.kind = h.kind ∧ g.qubits = h.qubits := by
  simp only [outline, Gate.mk.injEq, and_true]

end Gate

namespace Rewrite

section Withdrawing

variable {g h : Gate R} {l l' l'' : List (Gate R)}

theorem areInverse_iff : areInverse g h = true ↔ g.qubits = h.qubits ∧ Cancels g h := by
  rw [areInverse, Bool.and_eq_true, beq_iff_eq, Cancels]

theorem inverse?_symm {k l : GateKind} (h : k.inverse? = some l) : l.inverse? = some k := by
  cases k <;> simp only [GateKind.inverse?, Option.some.injEq, reduceCtorEq] at h <;>
    subst h <;> rfl

/-- A gate that undoes an inverse of a gate is of the kind of that gate. -/
theorem kind_eq_of_cancels {k : Gate R} (hgh : Cancels g h) (hhk : Cancels h k) :
    k.kind = g.kind := by
  unfold Cancels at hgh hhk
  rw [GateKind.cancels, beq_iff_eq] at hgh hhk
  exact Option.some.inj (hhk.symm.trans (inverse?_symm hgh))

/-- The list without the first gate that shares a qubit with `g`, provided that the two undo
    each other. -/
def withdraw? (g : Gate R) : List (Gate R) → Option (List (Gate R))
  | [] => none
  | h :: rest =>
    if g.overlaps h then if areInverse g h then some rest else none
    else (withdraw? g rest).map (h :: ·)

theorem withdraw?_cons_of_overlaps (hover : g.overlaps h = true) (l : List (Gate R)) :
    withdraw? g (h :: l) = if areInverse g h then some l else none := by
  rw [withdraw?, if_pos hover]

theorem withdraw?_cons_of_not_overlaps (hover : g.overlaps h = false) (l : List (Gate R)) :
    withdraw? g (h :: l) = (withdraw? g l).map (h :: ·) := by
  rw [withdraw?, if_neg (by rw [hover]; exact Bool.false_ne_true)]

/-- Gates that share no qubit are passed over. -/
theorem withdraw?_append {middle : List (Gate R)} (hd : ∀ f ∈ middle, g.overlaps f = false)
    (l : List (Gate R)) : withdraw? g (middle ++ l) = (withdraw? g l).map (middle ++ ·) := by
  induction middle with
  | nil => exact Option.map_id'.symm
  | cons f rest ih =>
      rw [List.cons_append, withdraw?_cons_of_not_overlaps (hd f List.mem_cons_self),
        ih fun k hk => hd k (List.mem_cons_of_mem f hk), Option.map_map]
      rfl

/-- What is withdrawn is the first gate that shares a qubit with `g`, and it undoes `g`. -/
theorem withdraw?_split (hl : withdraw? g l = some l') :
    ∃ middle k after, l = middle ++ k :: after ∧ l' = middle ++ after ∧
      (∀ f ∈ middle, g.overlaps f = false) ∧ g.overlaps k = true ∧ areInverse g k = true := by
  induction l generalizing l' with
  | nil => exact absurd hl (by simp only [withdraw?, reduceCtorEq, not_false_eq_true])
  | cons x rest ih =>
      cases hx : g.overlaps x with
      | true =>
          rw [withdraw?_cons_of_overlaps hx, Option.ite_none_right_eq_some, Option.some.injEq] at hl
          exact ⟨[], x, rest, rfl, hl.2.symm, fun f hf => absurd hf List.not_mem_nil, hx, hl.1⟩
      | false =>
          rw [withdraw?_cons_of_not_overlaps hx, Option.map_eq_some_iff] at hl
          rcases hl with ⟨l1, hl1, rfl⟩
          rcases ih hl1 with ⟨middle, k, after, rfl, rfl, hd, hover, hinv⟩
          exact ⟨x :: middle, k, after, rfl, rfl, List.forall_mem_cons.mpr ⟨hx, hd⟩, hover, hinv⟩

/-- What a gate withdraws is no concern of a gate that shares no qubit with it. -/
theorem overlaps_of_areInverse {x : Gate R} (hd : g.overlaps h = false)
    (hinv : areInverse h x = true) : g.overlaps x = false := by
  rw [Gate.overlaps_comm, ← Gate.overlaps_congr (areInverse_iff.mp hinv).1, Gate.overlaps_comm]
  exact hd

/-- A gate that finds nothing to cancel with still finds nothing after a gate that shares no
    qubit with it has withdrawn its own. -/
theorem withdraw?_eq_none (hd : g.overlaps h = false) (hl : withdraw? h l = some l')
    (hg : withdraw? g l = none) : withdraw? g l' = none := by
  rcases withdraw?_split hl with ⟨middle, k, after, rfl, rfl, -, -, hinv⟩
  have hk := overlaps_of_areInverse hd hinv
  clear hl
  induction middle with
  | nil =>
      rw [List.nil_append, withdraw?_cons_of_not_overlaps hk, Option.map_eq_none_iff] at hg
      exact hg
  | cons x rest ih =>
      cases hx : g.overlaps x with
      | true =>
          rw [List.cons_append, withdraw?_cons_of_overlaps hx] at hg ⊢
          by_cases hgx : areInverse g x = true
          · rw [if_pos hgx] at hg
            exact absurd hg (by simp only [reduceCtorEq, not_false_eq_true])
          · rw [if_neg hgx]
      | false =>
          rw [List.cons_append, withdraw?_cons_of_not_overlaps hx, Option.map_eq_none_iff] at hg ⊢
          exact ih hg

/-- Two gates without a common qubit withdraw each its own. -/
theorem withdraw?_eq_some (hd : g.overlaps h = false) (hl : withdraw? h l = some l')
    (hg : withdraw? g l = some l'') : ∃ m, withdraw? g l' = some m ∧ withdraw? h l'' = some m := by
  induction l generalizing l' l'' with
  | nil => exact absurd hl (by simp only [withdraw?, reduceCtorEq, not_false_eq_true])
  | cons x rest ih =>
      -- Either gate may stop at the first of the list, but not both of them: what stops one of them
      -- shares no qubit with the other.
      cases hhx : h.overlaps x with
      | true =>
          rw [withdraw?_cons_of_overlaps hhx, Option.ite_none_right_eq_some, Option.some.injEq] at hl
          rcases hl with ⟨hinv, rfl⟩
          rw [withdraw?_cons_of_not_overlaps (overlaps_of_areInverse hd hinv),
            Option.map_eq_some_iff] at hg
          rcases hg with ⟨m, hm, rfl⟩
          exact ⟨m, hm, by rw [withdraw?_cons_of_overlaps hhx, if_pos hinv]⟩
      | false =>
          rw [withdraw?_cons_of_not_overlaps hhx, Option.map_eq_some_iff] at hl
          rcases hl with ⟨l1, hl1, rfl⟩
          cases hgx : g.overlaps x with
          | true =>
              rw [withdraw?_cons_of_overlaps hgx, Option.ite_none_right_eq_some,
                Option.some.injEq] at hg
              rcases hg with ⟨hinv, rfl⟩
              exact ⟨l1, by rw [withdraw?_cons_of_overlaps hgx, if_pos hinv], hl1⟩
          | false =>
              rw [withdraw?_cons_of_not_overlaps hgx, Option.map_eq_some_iff] at hg
              rcases hg with ⟨l2, hl2, rfl⟩
              rcases ih hl1 hl2 with ⟨m, hm, hm'⟩
              refine ⟨x :: m, ?_, ?_⟩
              · rw [withdraw?_cons_of_not_overlaps hgx, hm, Option.map_some]
              · rw [withdraw?_cons_of_not_overlaps hhx, hm', Option.map_some]

end Withdrawing

section Absorbing

variable {g h : Gate R} {l l' : List (Gate R)}

/-- A gate in front of a list, or the list without the gate that it cancels with. -/
def absorb (g : Gate R) (l : List (Gate R)) : List (Gate R) := (withdraw? g l).getD (g :: l)

theorem absorb_of_none (hl : withdraw? g l = none) : absorb g l = g :: l := by
  rw [absorb, hl, Option.getD_none]

theorem absorb_of_some (hl : withdraw? g l = some l') : absorb g l = l' := by
  rw [absorb, hl, Option.getD_some]

/-- A gate goes in front of another one that it shares no qubit with, or it is taken out
    behind it. -/
theorem absorb_cons_of_not_overlaps (hd : g.overlaps h = false) :
    Reorders (absorb g (h :: l)) (h :: absorb g l) := by
  cases hl : withdraw? g l with
  | none =>
      rw [absorb_of_none hl, absorb_of_none (by
        rw [withdraw?_cons_of_not_overlaps hd, hl, Option.map_none])]
      exact Reorders.swap [] g h l hd
  | some l' =>
      rw [absorb_of_some hl, absorb_of_some (by
        rw [withdraw?_cons_of_not_overlaps hd, hl, Option.map_some])]
      exact Reorders.refl _

/-- What does not cancel with anything does not do so behind a gate it shares no qubit with. -/
theorem withdraw?_absorb_eq_none (hd : g.overlaps h = false) (hh : withdraw? h l = none) :
    withdraw? h (absorb g l) = none := by
  have hd' : h.overlaps g = false := by rw [Gate.overlaps_comm, hd]
  cases hg : withdraw? g l with
  | none => rw [absorb_of_none hg, withdraw?_cons_of_not_overlaps hd', hh, Option.map_none]
  | some l' =>
      rw [absorb_of_some hg]
      exact withdraw?_eq_none hd' hg hh

/-- Gates that share no qubit are put in front in either order. -/
theorem absorb_comm (hd : g.overlaps h = false) (l : List (Gate R)) :
    Reorders (absorb g (absorb h l)) (absorb h (absorb g l)) := by
  have hd' : h.overlaps g = false := by rw [Gate.overlaps_comm, hd]
  -- What each of the two finds does not depend on the other one.
  cases hh : withdraw? h l with
  | none =>
      rw [absorb_of_none hh, absorb_of_none (withdraw?_absorb_eq_none hd hh)]
      exact absorb_cons_of_not_overlaps hd
  | some lh =>
      cases hg : withdraw? g l with
      | none =>
          rw [absorb_of_none hg, absorb_of_none (withdraw?_absorb_eq_none hd' hg)]
          exact (absorb_cons_of_not_overlaps hd').symm
      | some lg =>
          rcases withdraw?_eq_some hd hh hg with ⟨m, hm, hm'⟩
          rw [absorb_of_some hh, absorb_of_some hm, absorb_of_some hg, absorb_of_some hm']
          exact Reorders.refl m

theorem rel_ite {p : Prop} [Decidable p] (hr : Reorders l l') :
    Option.Rel Reorders (if p then some l else none) (if p then some l' else none) := by
  by_cases hp : p
  · rw [if_pos hp, if_pos hp]
    exact .some hr
  · rw [if_neg hp, if_neg hp]
    exact .none

/-- An exchange of neighbours is not seen by the search, except that it is still there in
    what is found. -/
theorem withdraw?_swap (g : Gate R) {x y : Gate R} (hd : x.overlaps y = false)
    (before after : List (Gate R)) :
    Option.Rel Reorders (withdraw? g (before ++ x :: y :: after))
      (withdraw? g (before ++ y :: x :: after)) := by
  induction before with
  | nil =>
      rw [List.nil_append, List.nil_append]
      cases hx : g.overlaps x with
      | true =>
          rw [withdraw?_cons_of_overlaps hx]
          cases hy : g.overlaps y with
          | true =>
              -- A gate that is on the qubits of one of the two is not on those of the other.
              have hinv : ∀ {z w : Gate R}, z.overlaps w = false → g.overlaps w = true →
                  ¬ areInverse g z = true := by
                intro z w hzw hgw hinv
                rw [Gate.overlaps_congr (areInverse_iff.mp hinv).1, hzw] at hgw
                exact Bool.false_ne_true hgw
              have hd' : y.overlaps x = false := by rw [Gate.overlaps_comm, hd]
              rw [withdraw?_cons_of_overlaps hy, if_neg (hinv hd hy), if_neg (hinv hd' hx)]
              exact .none
          | false =>
              rw [withdraw?_cons_of_not_overlaps hy, withdraw?_cons_of_overlaps hx,
                apply_ite (Option.map (y :: ·))]
              exact rel_ite (Reorders.refl _)
      | false =>
          rw [withdraw?_cons_of_not_overlaps hx]
          cases hy : g.overlaps y with
          | true =>
              rw [withdraw?_cons_of_overlaps hy, withdraw?_cons_of_overlaps hy,
                apply_ite (Option.map (x :: ·))]
              exact rel_ite (Reorders.refl _)
          | false =>
              rw [withdraw?_cons_of_not_overlaps hy, withdraw?_cons_of_not_overlaps hy,
                withdraw?_cons_of_not_overlaps hx]
              cases withdraw? g after with
              | none => exact .none
              | some l => exact .some (Reorders.swap [] x y l hd)
  | cons z rest ih =>
      rw [List.cons_append, List.cons_append]
      cases hz : g.overlaps z with
      | true =>
          rw [withdraw?_cons_of_overlaps hz, withdraw?_cons_of_overlaps hz]
          exact rel_ite (Reorders.swap rest x y after hd)
      | false =>
          rw [withdraw?_cons_of_not_overlaps hz, withdraw?_cons_of_not_overlaps hz]
          revert ih
          generalize withdraw? g (rest ++ x :: y :: after) = u
          generalize withdraw? g (rest ++ y :: x :: after) = v
          rintro (hr | -)
          · exact .some (hr.cons z)
          · exact .none

/-- Lists that differ by exchanges still do so after a gate is put in front of each. -/
theorem absorb_reorders (g : Gate R) (hr : Reorders l l') :
    Reorders (absorb g l) (absorb g l') := by
  induction hr with
  | refl l => exact Reorders.refl _
  | swap before x y after hd =>
      have hfound := withdraw?_swap g hd before after
      unfold absorb
      revert hfound
      generalize withdraw? g (before ++ x :: y :: after) = u
      generalize withdraw? g (before ++ y :: x :: after) = v
      rintro (hr | -)
      · exact hr
      · exact (Reorders.swap before x y after hd).cons g
  | trans _ _ ih1 ih2 => exact ih1.trans ih2

theorem foldr_absorb_reorders (before : List (Gate R)) (hr : Reorders l l') :
    Reorders (before.foldr absorb l) (before.foldr absorb l') := by
  induction before with
  | nil => exact hr
  | cons g rest ih => exact absorb_reorders g ih

end Absorbing

section Normal

variable {g h : Gate R} {l l' : List (Gate R)}

/-- No gate of the list cancels with a later one. -/
def Reduced : List (Gate R) → Prop
  | [] => True
  | g :: rest => withdraw? g rest = none ∧ Reduced rest

/-- The normal form, built from the right. -/
def normal (l : List (Gate R)) : List (Gate R) := l.foldr absorb []

theorem normal_append (before l : List (Gate R)) :
    normal (before ++ l) = before.foldr absorb (normal l) :=
  List.foldr_append

/-- Lists that differ by exchanges have the same normal form, up to exchanges. -/
theorem normal_reorders (hr : Reorders l l') : Reorders (normal l) (normal l') := by
  induction hr with
  | refl l => exact Reorders.refl _
  | swap before x y after hd =>
      rw [normal_append, normal_append]
      exact foldr_absorb_reorders before (absorb_comm hd (normal after))
  | trans _ _ ih1 ih2 => exact ih1.trans ih2

/-- A gate that is put in front, or that takes another one out, leaves nothing to cancel. -/
theorem reduced_absorb (g : Gate R) (hl : Reduced l) : Reduced (absorb g l) := by
  cases hg : withdraw? g l with
  | none =>
      rw [absorb_of_none hg]
      exact ⟨hg, hl⟩
  | some l' =>
      rw [absorb_of_some hg]
      induction l generalizing l' with
      | nil => exact absurd hg (by simp only [withdraw?, reduceCtorEq, not_false_eq_true])
      | cons x rest ih =>
          cases hx : g.overlaps x with
          | true =>
              rw [withdraw?_cons_of_overlaps hx, Option.ite_none_right_eq_some,
                Option.some.injEq] at hg
              exact hg.2 ▸ hl.2
          | false =>
              rw [withdraw?_cons_of_not_overlaps hx, Option.map_eq_some_iff] at hg
              rcases hg with ⟨l1, hl1, rfl⟩
              -- The gates in front of what is taken out share no qubit with it.
              exact ⟨withdraw?_eq_none (by rw [Gate.overlaps_comm, hx]) hl1 hl.1, ih hl.2 l1 hl1⟩

theorem reduced_normal (l : List (Gate R)) : Reduced (normal l) := by
  induction l with
  | nil => exact trivial
  | cons g rest ih => exact reduced_absorb g ih

/-- A list without gates that cancel is built up as it stands. -/
theorem normal_of_reduced (hl : Reduced l) : normal l = l := by
  induction l with
  | nil => rfl
  | cons g rest ih =>
      change absorb g (normal rest) = g :: rest
      rw [ih hl.2, absorb_of_none hl.1]

/-- The normal form makes no new gates. -/
theorem normal_subset (l : List (Gate R)) : ∀ f ∈ normal l, f ∈ l := by
  induction l with
  | nil => exact fun f hf => hf
  | cons g rest ih =>
      intro f hf
      change f ∈ absorb g (normal rest) at hf
      cases hg : withdraw? g (normal rest) with
      | none =>
          rw [absorb_of_none hg] at hf
          exact (List.mem_cons.mp hf).elim (fun h => h ▸ List.mem_cons_self) fun h =>
            List.mem_cons_of_mem g (ih f h)
      | some l' =>
          rw [absorb_of_some hg] at hf
          rcases withdraw?_split hg with ⟨middle, k, after, hsplit, rfl, -⟩
          refine List.mem_cons_of_mem g (ih f ?_)
          rw [hsplit]
          exact (List.mem_append.mp hf).elim (List.mem_append_left _) fun h =>
            List.mem_append_right _ (List.mem_cons_of_mem k h)

theorem Reduced.of_append {before : List (Gate R)} (hl : Reduced (before ++ l)) : Reduced l := by
  induction before with
  | nil => exact hl
  | cons g rest ih => exact ih hl.2

/-- Two gates that undo each other leave a normal form as it was. If the second one cancels
    with a gate, this gate is the first one again. -/
theorem absorb_absorb (hg : g.outline = g) (hl : ∀ f ∈ l, f.outline = f) (hred : Reduced l)
    (hover : g.overlaps h = true) (hinv : areInverse g h = true) :
    Reorders (absorb g (absorb h l)) l := by
  -- Either `h` is put in front and `g` takes it out again, or `h` takes out a gate that `g` then
  -- replaces.
  cases hh : withdraw? h l with
  | none =>
      rw [absorb_of_none hh, absorb_of_some (by
        rw [withdraw?_cons_of_overlaps hover, if_pos hinv])]
      exact Reorders.refl l
  | some l' =>
      rw [absorb_of_some hh]
      rcases withdraw?_split hh with ⟨middle, k, after, rfl, rfl, hd, -, hinv'⟩
      rcases areInverse_iff.mp hinv with ⟨hqubits, hc⟩
      rcases areInverse_iff.mp hinv' with ⟨hqubits', hc'⟩
      have hsame : k = g := by
        rw [← hl k (List.mem_append_right _ List.mem_cons_self), ← hg, Gate.outline_eq_iff]
        exact ⟨kind_eq_of_cancels hc hc', (hqubits.trans hqubits').symm⟩
      subst hsame
      have hmiddle : ∀ f ∈ middle, k.overlaps f = false := fun f hf => by
        rw [Gate.overlaps_congr hqubits, hd f hf]
      -- What is behind the gate does not cancel with it, since nothing was left to cancel.
      have hstuck : withdraw? k (middle ++ after) = none := by
        rw [withdraw?_append hmiddle, hred.of_append.1, Option.map_none]
      rw [absorb_of_none hstuck]
      exact reorders_move k middle after hmiddle

end Normal

section Confluence

variable {a b c : List (Gate R)} {k : Nat}

/-- Taking a pair out keeps the normal form. -/
theorem Deletes.normal (h : Deletes a b) :
    Reorders (normal (a.map Gate.outline)) (normal (b.map Gate.outline)) := by
  rcases h.split with ⟨before, g, middle, g', after, rfl, rfl, hd, hover, hq, hc⟩
  simp only [List.map_append, List.map_cons]
  -- The first gate is moved up to the second one, and then the two are absorbed.
  have hmove : Reorders
      (g.outline :: (middle.map Gate.outline ++ g'.outline :: after.map Gate.outline))
      (middle.map Gate.outline ++ g.outline :: g'.outline :: after.map Gate.outline) := by
    refine reorders_move _ _ _ fun f hf => ?_
    rcases List.mem_map.mp hf with ⟨e, he, rfl⟩
    exact hd e he
  rw [normal_append, normal_append]
  refine foldr_absorb_reorders _ ((normal_reorders hmove).trans ?_)
  rw [normal_append, normal_append]
  refine foldr_absorb_reorders _ (absorb_absorb g.outline_outline (fun f hf => ?_)
    (reduced_normal _) hover (areInverse_iff.mpr ⟨hq, hc⟩))
  rcases List.mem_map.mp (normal_subset _ f hf) with ⟨f, -, rfl⟩
  exact f.outline_outline

/-- All lists on the way have one normal form. -/
theorem Deletions.normal (h : Deletions k a b) :
    Reorders (normal (a.map Gate.outline)) (normal (b.map Gate.outline)) := by
  induction h with
  | none a => exact Reorders.refl _
  | next hfirst _ ih => exact hfirst.normal.trans ih

/-- What is found is the next neighbour. -/
theorem wireAdjacent_of_withdraw? {g : Gate R} {rest l : List (Gate R)}
    (hw : withdraw? g.outline (rest.map Gate.outline) = some l) :
    ∃ j h, WireAdjacent (g :: rest) 0 j g h ∧ Cancels g h := by
  rcases withdraw?_split hw with ⟨middle, k, after, hsplit, -, hd, hover, hinv⟩
  rcases List.map_eq_append_iff.mp hsplit with ⟨middle, tail, rfl, rfl, htail⟩
  rcases List.map_eq_cons_iff.mp htail with ⟨k, after, rfl, rfl, rfl⟩
  rcases areInverse_iff.mp hinv with ⟨hqubits, hc⟩
  refine ⟨middle.length + 1, k, ⟨Nat.succ_pos _, rfl, ?_, hover, ?_, hqubits⟩, hc⟩
  · rw [List.getElem?_cons_succ, List.getElem?_append_right (Nat.le_refl _), Nat.sub_self]
    rfl
  · intro m f hm hmlt hf
    cases m with
    | zero => exact absurd hm (Nat.lt_irrefl 0)
    | succ m =>
        rw [List.getElem?_cons_succ, List.getElem?_append_left (by omega)] at hf
        exact hd f.outline (List.mem_map.mpr ⟨f, List.mem_of_getElem? hf, rfl⟩)

/-- A gate in front moves the positions of a pair up. -/
theorem WireAdjacent.cons {gates : List (Gate R)} {i j : Nat} {g h : Gate R}
    (hadj : WireAdjacent gates i j g h) (f : Gate R) :
    WireAdjacent (f :: gates) (i + 1) (j + 1) g h := by
  refine ⟨Nat.succ_lt_succ hadj.lt, hadj.left, hadj.right, hadj.shared, ?_, hadj.same⟩
  intro m e hm hmlt he
  cases m with
  | zero => exact absurd hm (Nat.not_lt_zero _)
  | succ m => exact hadj.between m e (by omega) (by omega) he

/-- A list in which no two neighbours undo each other has nothing to withdraw. -/
theorem reduced_of_settled (hs : Settled Cancels a) : Reduced (a.map Gate.outline) := by
  induction a with
  | nil => exact trivial
  | cons g rest ih =>
      refine ⟨?_, ih fun i j h h' hadj => hs (i + 1) (j + 1) h h' (hadj.cons g)⟩
      cases hw : withdraw? g.outline (rest.map Gate.outline) with
      | none => rfl
      | some l =>
          rcases wireAdjacent_of_withdraw? hw with ⟨j, h, hadj, hc⟩
          exact absurd hc (hs 0 j g h hadj)

/-- A list in which nothing is left to cancel is its own normal form. -/
theorem normal_of_settled (hs : Settled Cancels a) :
    normal (a.map Gate.outline) = a.map Gate.outline :=
  normal_of_reduced (reduced_of_settled hs)

/-- The scan takes out the gates that it counts, and no order takes out more. Any order that
    ends because nothing is left to cancel takes out as many, and leaves the same kinds on the
    same qubits, up to exchanges of neighbours that share no qubit. -/
theorem cancel_maximal (gates : List (Gate R)) :
    ∃ pairs, (cancel gates).2 = 2 * pairs ∧
      (cancel gates).1.length + (cancel gates).2 = gates.length ∧
      Deletions pairs gates (cancel gates).1 ∧ (∀ c, ¬ Deletes (cancel gates).1 c) ∧
      ∀ k c, Deletions k gates c →
        c.length + 2 * k = gates.length ∧ 2 * k ≤ (cancel gates).2 ∧
        ((∀ d, ¬ Deletes c d) → 2 * k = (cancel gates).2 ∧
          Reorders (c.map Gate.outline) ((cancel gates).1.map Gate.outline)) := by
  -- Two orders that have come to an end leave the same normal form, which is what they end in.
  have hend : ∀ {k l : Nat} {c d : List (Gate R)}, Deletions k gates c → Deletions l gates d →
      Settled Cancels c → Settled Cancels d →
        k = l ∧ Reorders (c.map Gate.outline) (d.map Gate.outline) := by
    intro k l c d hc hd hsc hsd
    have hsame := hc.normal.symm.trans hd.normal
    rw [normal_of_settled hsc, normal_of_settled hsd] at hsame
    have hlength := hsame.perm.length_eq
    rw [List.length_map, List.length_map] at hlength
    have hk := hc.length
    have hl := hd.length
    exact ⟨by omega, hsame⟩
  rcases cancel_deletions gates with ⟨pairs, hdel, hpairs⟩
  refine ⟨pairs, hpairs, hpairs ▸ hdel.length, hdel,
    not_deletes_iff_settled.mpr (cancel_settled gates), fun k c hc => ⟨hc.length, ?_, fun hstop => ?_⟩⟩
  · -- The scan carries the order on to its end.
    rcases cancel_deletions c with ⟨more, hmore, -⟩
    have hall := (hend (hc.append hmore) hdel (cancel_settled c) (cancel_settled gates)).1
    omega
  · rcases hend hc hdel (not_deletes_iff_settled.mp hstop) (cancel_settled gates)
      with ⟨rfl, hsame⟩
    exact ⟨hpairs.symm, hsame⟩

/-- Three negations, with a gate on another qubit in between. The first one and the last one
    compete for the one in the middle. -/
def contested : List (Gate Nat) :=
  [⟨.x, [0], [], none⟩, ⟨.z, [1], [], none⟩, ⟨.x, [0], [], none⟩, ⟨.x, [0], [], none⟩]

theorem cancel_maximal_contested :
    Deletions 1 contested (contested.take 2) ∧ (∀ d, ¬ Deletes (contested.take 2) d) ∧
      2 * 1 = (cancel contested).2 ∧
      Reorders ((contested.take 2).map Gate.outline) ((cancel contested).1.map Gate.outline) := by
  have hlast : Deletions 1 contested (contested.take 2) := by
    -- The scan cancels the first two negations, and here it is the last two.
    refine .next ⟨2, 3, _, _, ⟨by decide, rfl, rfl, by decide, ?_, rfl⟩, rfl, rfl⟩ (.none _)
    exact fun m f hm hmlt => absurd hm (by omega)
  have hstop : ∀ d, ¬ Deletes (contested.take 2) d := by
    rw [not_deletes_iff_settled]
    intro i j g h hadj
    have hj : j < 2 := (List.getElem?_eq_some_iff.mp hadj.right).1
    obtain ⟨rfl, rfl⟩ : i = 0 ∧ j = 1 := by
      have := hadj.lt
      omega
    obtain rfl := Option.some.inj hadj.left
    obtain rfl := Option.some.inj hadj.right
    exact absurd hadj.shared (by decide)
  rcases cancel_maximal contested with ⟨-, -, -, -, -, hothers⟩
  exact ⟨hlast, hstop, (hothers 1 _ hlast).2.2 hstop⟩

end Confluence

end Rewrite

end QubitLab
