import QubitLab.Rewrite.Cancel

/-!
# Fusing rotations

Two gates with one angle each fuse when the second one is the first gate after the
first one that shares a qubit with it, both act on the same qubits in the same
order, and their kinds add up. The first one is given the sum of the angles, and
the second one is taken out. The same position is then looked at again, so that a
run of several rotations becomes one.

The sum of two finite angles need not be finite. The pass then stops, and leaves
what it has fused so far.

## Main definitions

* `Rewrite.fusion?`: The gate that a gate fuses with.
* `Rewrite.fuse`: The pass.
-/

namespace QubitLab

namespace Rewrite

variable {R : Type} [Scalar R]

omit [Scalar R] in
/-- The only angle of a gate, if it has exactly one. -/
def singleAngle? (g : Gate R) : Option R :=
  match g.params with
  | [angle] => some angle
  | _ => none

/-- The position of the gate that the gate at position `i` fuses with, and the kind,
    qubits and angle of the two together. -/
def fusion? (gates : List (Gate R)) (i : Nat) : Option (Nat × GateKind × List Nat × R) := do
  let j ← nextOnWires? gates i
  let g ← gates[i]?
  let h ← gates[j]?
  let kind ← g.kind.fused? h.kind
  if g.qubits == h.qubits then
    let a ← singleAngle? g
    let b ← singleAngle? h
    some (j, kind, g.qubits, a + b)
  else none

omit [Scalar R] in
theorem nextOnWires?_lt {gates : List (Gate R)} {i j : Nat}
    (h : nextOnWires? gates i = some j) : j < gates.length := by
  unfold nextOnWires? at h
  split at h
  · simp at h
  · rw [Option.map_eq_some_iff] at h
    obtain ⟨k, hk, rfl⟩ := h
    have := (List.findIdx?_eq_some_iff_getElem.1 hk).1
    rw [List.length_drop] at this
    omega

theorem fusion?_lt {gates : List (Gate R)} {i j : Nat} {kind : GateKind}
    {qubits : List Nat} {angle : R} (h : fusion? gates i = some (j, kind, qubits, angle)) :
    j < gates.length := by
  unfold fusion? at h
  cases hn : nextOnWires? gates i with
  | none => simp [hn] at h
  | some k =>
    have hk := nextOnWires?_lt hn
    simp only [hn, Option.bind_eq_bind, Option.bind_some, Option.bind_eq_some_iff] at h
    obtain ⟨g, -, g', -, kd, -, h⟩ := h
    split at h
    · simp only [Option.bind_eq_some_iff] at h
      obtain ⟨a, -, b, -, h⟩ := h
      simp only [Option.some.injEq, Prod.mk.injEq] at h
      omega
    · simp at h

/-- The scan from position `i` on, with the number of fusions so far. -/
def fuseFrom (gates : List (Gate R)) (i fused : Nat) :
    List (Gate R) × Except (Error R) Nat :=
  if i < gates.length then
    match hf : fusion? gates i with
    | none => fuseFrom gates (i + 1) fused
    | some (j, kind, qubits, angle) =>
      match Gate.builtin kind qubits [angle] with
      | .error e => (gates, .error e)
      | .ok g => fuseFrom ((gates.set i g).eraseIdx j) i (fused + 1)
  else (gates, .ok fused)
termination_by (gates.length, gates.length - i)
decreasing_by
  · exact Prod.Lex.right _ (by omega)
  · refine Prod.Lex.left _ _ ?_
    have := fusion?_lt hf
    rw [List.length_eraseIdx, List.length_set, if_pos this]
    omega

/-- The pass: the list after all fusions, and their number or why the pass
    stopped. -/
def fuse (gates : List (Gate R)) : List (Gate R) × Except (Error R) Nat :=
  fuseFrom gates 0 0

end Rewrite

end QubitLab
