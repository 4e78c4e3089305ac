import Mathlib.Data.List.Basic
import QubitLab.Gate.Action
import QubitLab.Proofs.Gate.Fits
import QubitLab.Proofs.Statevector.Pointwise

/-!
# The action of a gate

Which way a gate acts is decided by its kind and by how its qubits are divided into
controls and targets. The division is made by counting, and `action_eq_ok` says what
it comes to for a gate of the right shape: the qubits of the action are the qubits of
the gate, in the same order, and nothing of them is lost.

So the action of a gate that passes the check of its shape fits into the register,
and renaming the qubits of the gate renames those of the action. The checks on the
way to the action do not look at the qubits, so a renamed gate also fails where the
gate does, with the same error.

## Main definitions

* `Gate.Shaped`: A gate passes the check of its shape.
* `Gate.FixedUnitary`: The matrix of an `iswap` or `sqiswap` gate passes its check.
* `GateAction.mapQubits`: The same action with its qubits renamed.

## Theorems

* `checkShape_eq_ok`: The check of the shape.
* `checkDense_eq_ok`: The check of a matrix over several qubits.
* `action_eq_ok`: The three ways in which a gate acts.
* `Shaped.exists_action`, `Fits.exists_action`: A gate that fits acts in one of them.
* `qubits_action`, `fits_action`: The action is on the qubits of the gate.
* `action_mapQubits`: The action of a renamed gate.
-/

namespace QubitLab

section Renaming

variable {K : Type}

/-- The same action with each of its qubits renamed. -/
def GateAction.mapQubits (f : Nat → Nat) : GateAction K → GateAction K
  | .matrix controls target m => .matrix (controls.map f) (f target) m
  | .swap controls a b => .swap (controls.map f) (f a) (f b)
  | .dense qubits m => .dense (qubits.map f) m

theorem GateAction.qubits_mapQubits (f : Nat → Nat) (a : GateAction K) :
    (a.mapQubits f).qubits = a.qubits.map f := by
  cases a with
  | matrix controls target m =>
      change controls.map f ++ [f target] = (controls ++ [target]).map f
      rw [List.map_append, List.map_singleton]
  | swap controls a b =>
      change controls.map f ++ [f a, f b] = (controls ++ [a, b]).map f
      rw [List.map_append, List.map_cons, List.map_singleton]
  | dense qubits m => rfl

/-- A renamed action fits where the action did. -/
theorem GateAction.fits_mapQubits {n : Nat} {f : Nat → Nat} (hf : Gate.Renaming n f)
    {a : GateAction K} (ha : a.Fits n) : (a.mapQubits f).Fits n := by
  rcases ha with ⟨hd, hn, hrows⟩
  refine ⟨?_, ?_, ?_⟩
  · rw [qubits_mapQubits]
    exact Gate.nodup_map_of_renaming hf hn hd
  · intro q hq
    rw [qubits_mapQubits] at hq
    rcases List.mem_map.mp hq with ⟨p, hp, rfl⟩
    exact hf.lt p (hn p hp)
  · cases a with
    | dense qubits m =>
        change m.length = 2 ^ (qubits.map f).length
        rw [List.length_map]
        exact hrows
    | _ => trivial

end Renaming

namespace Gate

variable {R : Type} [Scalar R]

section Checks

/-- The qubits of the gate are inside a register, they are distinct, and there are as
    many as its kind asks for. -/
def Shaped (n : Nat) (g : Gate R) : Prop :=
  (∀ q ∈ g.qubits, q < n) ∧ (∀ arity, g.kind.arity? = some arity → g.qubits.length = arity) ∧
    g.qubits.Nodup

omit [Scalar R] in
/-- The check of the shape passes just for gates of the right shape. -/
theorem checkShape_eq_ok (g : Gate R) (n : Nat) : g.checkShape n = .ok () ↔ g.Shaped n := by
  unfold checkShape Shaped
  cases g.kind.arity? with
  | none =>
      simp only [Checks.check_bind_eq_ok, checkRange_eq_ok, checkDistinct_eq_ok,
        reduceCtorEq, false_implies, implies_true, true_and]
  | some arity =>
      simp only [Checks.check_bind_eq_ok, checkRange_eq_ok, checkDistinct_eq_ok,
        checkArity_eq_ok, Option.some.injEq, forall_eq']

/-- A gate that fits has the right shape. -/
theorem Fits.shaped {n : Nat} {g : Gate R} (h : g.Fits n) : g.Shaped n := by
  refine ⟨h.1, fun arity ha => ?_, h.nodup⟩
  rcases (validate_eq_ok g).mp h.2 with ⟨_, -, hk, -⟩ | ⟨ha', -⟩
  · rw [hk] at ha
    exact absurd ha (by simp only [GateKind.arity?, reduceCtorEq, not_false_eq_true])
  · rw [ha, Option.some.injEq] at ha'
    exact ha'.symm

omit [Scalar R] in
/-- A renamed gate has the right shape where the gate had. -/
theorem Shaped.mapQubits {n : Nat} {f : Nat → Nat} (hf : Renaming n f) {g : Gate R}
    (hg : g.Shaped n) : (g.mapQubits f).Shaped n := by
  refine ⟨range_mapQubits hf hg.1, fun arity ha => ?_, nodup_map_of_renaming hf hg.1 hg.2.2⟩
  rw [mapQubits_qubits, List.length_map]
  exact hg.2.1 arity ha

/-- A matrix over several qubits passes when it has the right size and is found to be unitary. -/
theorem checkDense_eq_ok (m : Rows (Complex R)) (width : Nat) :
    (checkDense m width : Except (Error R) Unit) = .ok () ↔
      (checkSide m (1 <<< width) : Except (Error R) Unit) = .ok () ∧
        m.isUnitary Scalar.unitaryTolerance = true := by
  unfold checkDense
  rw [Checks.check_bind_eq_ok]
  by_cases hu : m.isUnitary Scalar.unitaryTolerance = true
  · rw [if_pos hu, Checks.pure_eq_ok]
    exact ⟨fun h => ⟨h.1, hu⟩, fun h => ⟨h.1, rfl⟩⟩
  · rw [if_neg hu]
    simp only [reduceCtorEq, and_false, hu]

omit [Scalar R] in
theorem length_of_checkSide {m : Rows (Complex R)} {side : Nat}
    (h : (checkSide m side : Except (Error R) Unit) = .ok ()) : m.length = side := by
  unfold checkSide at h
  by_cases hm : m.length = side
  · exact hm
  · rw [if_pos hm] at h
    exact absurd h (by simp only [reduceCtorEq, not_false_eq_true])

end Checks

section Division

/-- A kind that exchanges two qubits acts on its controls and these two. -/
theorem arity_of_isSwapFamily {k : GateKind} (h : k.isSwapFamily = true) :
    k.arity? = some (k.controlCount + 2) := by
  cases k <;> first | rfl | exact absurd h (by decide)

/-- A kind that has a two by two matrix acts on its controls and one target. -/
theorem arity_of_targetMatrix? {g : Gate R} {m : Matrix2 (Complex R)}
    (h : g.targetMatrix? = some m) : g.kind.arity? = some (g.kind.controlCount + 1) := by
  unfold targetMatrix? at h
  cases hk : g.kind <;> rw [hk] at h <;> first | rfl | exact absurd h (by simp)

theorem isSwapFamily_of_targetMatrix? {g : Gate R} {m : Matrix2 (Complex R)}
    (h : g.targetMatrix? = some m) : g.kind.isSwapFamily = false := by
  unfold targetMatrix? at h
  cases hk : g.kind <;> rw [hk] at h <;> first | rfl | exact absurd h (by simp)

/-- The kinds that neither exchange two qubits nor have a matrix on a target. -/
theorem kind_of_targetMatrix?_eq_none {g : Gate R} (h : g.targetMatrix? = none)
    (hs : g.kind.isSwapFamily = false) :
    g.kind = .iswap ∨ g.kind = .sqiswap ∨ g.kind = .custom := by
  unfold targetMatrix? at h
  cases hk : g.kind <;> rw [hk] at h hs <;>
    first
    | exact Or.inl rfl
    | exact Or.inr (Or.inl rfl)
    | exact Or.inr (Or.inr rfl)
    | exact absurd hs (by decide)
    | exact absurd h (by simp)

omit [Scalar R] in
/-- The qubits of a gate of the right shape, divided into as many controls as its kind
    has and what is left. -/
theorem Shaped.split {n : Nat} {g : Gate R} (hg : g.Shaped n) {count : Nat}
    (ha : g.kind.arity? = some (g.kind.controlCount + count)) :
    ∃ controls targets, g.qubits = controls ++ targets ∧
      controls.length = g.kind.controlCount ∧ targets.length = count := by
  have hlen := hg.2.1 _ ha
  refine ⟨g.qubits.take g.kind.controlCount, g.qubits.drop g.kind.controlCount,
    (List.take_append_drop _ _).symm, ?_, ?_⟩
  · rw [List.length_take]
    omega
  · rw [List.length_drop]
    omega

omit [Scalar R] in
/-- The last two qubits of an exchange are the ones that are exchanged. -/
theorem Shaped.split_swap {n : Nat} {g : Gate R} (hg : g.Shaped n)
    (hs : g.kind.isSwapFamily = true) :
    ∃ controls a b, g.qubits = controls ++ [a, b] ∧ controls.length = g.kind.controlCount := by
  rcases hg.split (arity_of_isSwapFamily hs) with ⟨controls, targets, hq, hlen, htwo⟩
  rcases List.length_eq_two.mp htwo with ⟨a, b, rfl⟩
  exact ⟨controls, a, b, hq, hlen⟩

/-- The last qubit of a gate with a target is the target. -/
theorem Shaped.split_target {n : Nat} {g : Gate R} (hg : g.Shaped n)
    {m : Matrix2 (Complex R)} (hm : g.targetMatrix? = some m) :
    ∃ controls target, g.qubits = controls ++ [target] ∧
      controls.length = g.kind.controlCount := by
  rcases hg.split (arity_of_targetMatrix? hm) with ⟨controls, targets, hq, hlen, hone⟩
  rcases List.length_eq_one_iff.mp hone with ⟨target, rfl⟩
  exact ⟨controls, target, hq, hlen⟩

/-- The exchange of a gate, from how its qubits are divided. -/
theorem action_eq_swap {g : Gate R} (hs : g.kind.isSwapFamily = true) {controls : List Nat}
    {a b : Nat} (hq : g.qubits = controls ++ [a, b])
    (hlen : controls.length = g.kind.controlCount) :
    g.action = .ok (.swap controls a b) := by
  unfold action
  rw [hs, hq, List.drop_left' hlen, List.take_left' hlen]

/-- The matrix on the target of a gate, from how its qubits are divided. -/
theorem action_eq_matrix {g : Gate R} {m : Matrix2 (Complex R)}
    (hm : g.targetMatrix? = some m) {controls : List Nat} {target : Nat}
    (hq : g.qubits = controls ++ [target]) (hlen : controls.length = g.kind.controlCount) :
    g.action = .ok (.matrix controls target m) := by
  unfold action
  rw [isSwapFamily_of_targetMatrix? hm, hm, hq, List.drop_left' hlen, List.take_left' hlen]

/-- The matrix over all qubits of a gate that neither exchanges nor has a target. -/
theorem action_dense {g : Gate R} (hs : g.kind.isSwapFamily = false)
    (hm : g.targetMatrix? = none) :
    g.action = match g.denseMatrix? with
      | some m => do
        checkDense m g.width
        return .dense g.qubits m
      | none => .error (.unsupported (.noMatrix g.name)) := by
  unfold action
  rewrite [hs, hm]
  rfl

/-- The three ways in which a gate of the right shape acts. -/
theorem action_eq_ok {n : Nat} {g : Gate R} (hg : g.Shaped n) {a : GateAction (Complex R)}
    (h : g.action = .ok a) :
    (∃ controls x y, g.qubits = controls ++ [x, y] ∧ a = .swap controls x y) ∨
    (∃ controls target m, g.qubits = controls ++ [target] ∧ g.targetMatrix? = some m ∧
      a = .matrix controls target m) ∨
    (∃ m, g.denseMatrix? = some m ∧
      (checkDense m g.width : Except (Error R) Unit) = .ok () ∧ a = .dense g.qubits m) := by
  -- The kernels are tried in this order, and a whole matrix is the last resort.
  cases hs : g.kind.isSwapFamily with
  | true =>
      rcases hg.split_swap hs with ⟨controls, x, y, hq, hlen⟩
      rw [action_eq_swap hs hq hlen, Except.ok.injEq] at h
      exact Or.inl ⟨controls, x, y, hq, h.symm⟩
  | false =>
      refine Or.inr ?_
      cases hm : g.targetMatrix? with
      | some m =>
          rcases hg.split_target hm with ⟨controls, target, hq, hlen⟩
          rw [action_eq_matrix hm hq hlen, Except.ok.injEq] at h
          exact Or.inl ⟨controls, target, m, hq, rfl, h.symm⟩
      | none =>
          rw [action_dense hs hm] at h
          refine Or.inr ?_
          cases hd : g.denseMatrix? with
          | none =>
              rw [hd] at h
              exact absurd h (by simp only [reduceCtorEq, not_false_eq_true])
          | some m =>
              rw [hd] at h
              simp only [Checks.check_bind_eq_ok, Checks.pure_eq_ok] at h
              exact ⟨m, rfl, h.1, h.2.symm⟩

/-- The matrix of an `iswap` or `sqiswap` gate passes the check that is made of every
    matrix over several qubits. Over exact scalars it does. Over other scalars it is for
    them to say how far the entries of these matrices are from what they stand for. -/
def FixedUnitary (g : Gate R) : Prop :=
  (g.kind = .iswap →
    (Unitary.iswap : Rows (Complex R)).isUnitary Scalar.unitaryTolerance = true) ∧
    (g.kind = .sqiswap →
      (Unitary.sqrtIswap : Rows (Complex R)).isUnitary Scalar.unitaryTolerance = true)

theorem checkDense_fixed {m : Rows (Complex R)}
    (hside : (checkSide m 4 : Except (Error R) Unit) = .ok ())
    (hu : m.isUnitary Scalar.unitaryTolerance = true) {g : Gate R} (hw : g.qubits.length = 2) :
    (checkDense m g.width : Except (Error R) Unit) = .ok () := by
  rw [checkDense_eq_ok, width, hw]
  exact ⟨hside, hu⟩

/-- A gate whose matrix over all qubits passes its check has an action. -/
theorem exists_action_dense {g : Gate R} (hs : g.kind.isSwapFamily = false)
    (hm : g.targetMatrix? = none) {m : Rows (Complex R)} (hd : g.denseMatrix? = some m)
    (hcheck : (checkDense m g.width : Except (Error R) Unit) = .ok ()) :
    ∃ a, g.action = .ok a := by
  refine ⟨.dense g.qubits m, ?_⟩
  rw [action_dense hs hm, hd]
  dsimp only
  rw [hcheck]
  rfl

/-- A gate of a built-in kind has an action as soon as it has the right shape, whatever its
    angles are. -/
theorem Shaped.exists_action {n : Nat} {g : Gate R} (hg : g.Shaped n) (hk : g.kind ≠ .custom)
    (hu : g.FixedUnitary) : ∃ a, g.action = .ok a := by
  cases hs : g.kind.isSwapFamily with
  | true =>
      rcases hg.split_swap hs with ⟨controls, a, b, hq, hlen⟩
      exact ⟨_, action_eq_swap hs hq hlen⟩
  | false =>
      cases hm : g.targetMatrix? with
      | some m =>
          rcases hg.split_target hm with ⟨controls, target, hq, hlen⟩
          exact ⟨_, action_eq_matrix hm hq hlen⟩
      | none =>
          -- What has no matrix on a target and exchanges nothing is one of the two.
          rcases kind_of_targetMatrix?_eq_none hm hs with h | h | h
          · exact exists_action_dense hs hm (m := Unitary.iswap) (by rw [denseMatrix?, h])
              (checkDense_fixed rfl (hu.1 h) (hg.2.1 2 (by rw [h, GateKind.arity?])))
          · exact exists_action_dense hs hm (m := Unitary.sqrtIswap) (by rw [denseMatrix?, h])
              (checkDense_fixed rfl (hu.2 h) (hg.2.1 2 (by rw [h, GateKind.arity?])))
          · exact absurd h hk

/-- A gate that fits has an action. The only check on the way that its own check has not
    made already is the one of the matrix of `iswap` and `sqiswap`. -/
theorem Fits.exists_action {n : Nat} {g : Gate R} (hg : g.Fits n) (hu : g.FixedUnitary) :
    ∃ a, g.action = .ok a := by
  rcases (validate_eq_ok g).mp hg.2 with ⟨p, hp, hk, -, -, hside, hunitary⟩ | ⟨ha, -, -⟩
  · have hd : g.denseMatrix? = some p.matrix := by
      rw [denseMatrix?, hk]
      dsimp only
      rw [hp, Option.map_some]
    exact exists_action_dense (by rw [hk]; rfl) (by rw [targetMatrix?, hk]) hd
      ((checkDense_eq_ok _ _).mpr ⟨hside, hunitary⟩)
  · have hk : g.kind ≠ .custom := fun hk => by simp [hk, GateKind.arity?] at ha
    exact hg.shaped.exists_action hk hu

/-- The action is on the qubits of the gate, in their order. -/
theorem qubits_action {n : Nat} {g : Gate R} (hg : g.Shaped n) {a : GateAction (Complex R)}
    (h : g.action = .ok a) : a.qubits = g.qubits := by
  rcases action_eq_ok hg h with ⟨_, _, _, hq, rfl⟩ | ⟨_, _, _, hq, -, rfl⟩ | ⟨_, -, -, rfl⟩
  · exact hq.symm
  · exact hq.symm
  · rfl

theorem fits_action {n : Nat} {g : Gate R} (hg : g.Shaped n) {a : GateAction (Complex R)}
    (h : g.action = .ok a) : a.Fits n := by
  refine ⟨?_, ?_, ?_⟩
  · rw [qubits_action hg h]
    exact hg.2.2
  · rw [qubits_action hg h]
    exact hg.1
  · rcases action_eq_ok hg h with ⟨_, _, _, -, rfl⟩ | ⟨_, _, _, -, -, rfl⟩ | ⟨m, -, hd, rfl⟩
    · trivial
    · trivial
    · have hlen := length_of_checkSide ((checkDense_eq_ok _ _).mp hd).1
      rw [Nat.one_shiftLeft] at hlen
      exact hlen

end Division

section Renaming

omit [Scalar R] in
theorem name_mapQubits (f : Nat → Nat) (g : Gate R) : (g.mapQubits f).name = g.name := rfl

/-- The action of a renamed gate is the renamed action, and a gate without an action
    has none, for the same reason, after renaming. -/
theorem action_mapQubits {n : Nat} {g : Gate R} (hg : g.Shaped n) (f : Nat → Nat) :
    (g.mapQubits f).action = g.action.map (GateAction.mapQubits f) := by
  have hlen' : ∀ controls : List Nat, controls.length = g.kind.controlCount →
      (controls.map f).length = (g.mapQubits f).kind.controlCount := by
    intro controls hlen
    rw [List.length_map, mapQubits_kind, hlen]
  cases hs : g.kind.isSwapFamily with
  | true =>
      rcases hg.split_swap hs with ⟨controls, a, b, hq, hlen⟩
      have hq' : (g.mapQubits f).qubits = controls.map f ++ [f a, f b] := by
        rw [mapQubits_qubits, hq, List.map_append, List.map_cons, List.map_singleton]
      rw [action_eq_swap hs hq hlen, @action_eq_swap R _ (g.mapQubits f) hs _ _ _ hq'
        (hlen' controls hlen)]
      rfl
  | false =>
      cases hm : g.targetMatrix? with
      | some m =>
          -- Renaming goes through the list of the controls and the target alike.
          rcases hg.split_target hm with ⟨controls, target, hq, hlen⟩
          have hm' : (g.mapQubits f).targetMatrix? = some m := hm
          have hq' : (g.mapQubits f).qubits = controls.map f ++ [f target] := by
            rw [mapQubits_qubits, hq, List.map_append, List.map_singleton]
          rw [action_eq_matrix hm hq hlen, action_eq_matrix hm' hq' (hlen' controls hlen)]
          rfl
      | none =>
          have hm' : (g.mapQubits f).targetMatrix? = none := hm
          have hd' : (g.mapQubits f).denseMatrix? = g.denseMatrix? := rfl
          have hw : (g.mapQubits f).width = g.width := List.length_map f
          rw [action_dense hs hm, @action_dense R _ (g.mapQubits f) hs hm', hd', hw,
            name_mapQubits, mapQubits_qubits]
          cases g.denseMatrix? with
          | none => rfl
          | some m =>
              dsimp only
              cases (checkDense m g.width : Except (Error R) Unit) with
              | error e => rfl
              | ok u => rfl

end Renaming

end Gate

end QubitLab
