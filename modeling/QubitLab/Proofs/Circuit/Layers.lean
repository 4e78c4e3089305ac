import QubitLab.Circuit.Layers
import QubitLab.Proofs.Gate.Fits

/-!
# Layers of gates

The layers are assigned in one pass from the left, with an array that holds for
each qubit the first layer in which it is free. The entries of this array only
grow: a gate takes a layer that is free on all its qubits, and raises the entries
of these qubits above it. So every later gate on one of these qubits goes into a
later layer, which is all that reordering a circuit by its layers needs.

The statements are about gates paired with their layers, `gates.zip (assign ..)`,
because the pass produces the layers in the order of the gates and a pair keeps
the two together when the list is split.

## Theorems

* `getElem?_occupy`: The array after a gate is put into a layer.
* `le_firstFree`: The chosen layer is free on every qubit of the gate.
* `free_le_of_mem`: No gate goes into a layer before its qubits are free.
* `pairwise_assignFrom`: Of two gates on a common qubit, the later one goes into
  the later layer.
* `lt_bound`: Every layer lies below their number.
-/

namespace QubitLab

namespace Layers

variable {R : Type}

theorem occupy_size (free : Array Nat) (layer : Nat) (qubits : List Nat) :
    (occupy free layer qubits).size = free.size := by
  unfold occupy
  induction qubits generalizing free with
  | nil => rfl
  | cons q rest ih => rw [List.foldl_cons, ih, Array.size_setIfInBounds]

/-- A qubit of the gate is free in the next layer, and the other qubits are free when they were. -/
theorem getElem?_occupy (free : Array Nat) (layer : Nat) (qubits : List Nat) (q : Nat)
    (hq : q < free.size) :
    (occupy free layer qubits)[q]? = if q ∈ qubits then some (layer + 1) else free[q]? := by
  unfold occupy
  induction qubits generalizing free with
  | nil => rw [List.foldl_nil, if_neg List.not_mem_nil]
  | cons p rest ih =>
      rw [List.foldl_cons, ih _ (by rw [Array.size_setIfInBounds]; exact hq)]
      -- The last qubit that is written decides, and all of them write the same.
      by_cases hr : q ∈ rest
      · rw [if_pos hr, if_pos (List.mem_cons_of_mem p hr)]
      · rw [if_neg hr, Array.getElem?_setIfInBounds]
        by_cases hp : p = q
        · rw [if_pos hp, if_pos (hp ▸ hq), if_pos (hp ▸ List.mem_cons_self)]
        · rw [if_neg hp, if_neg fun h => (List.mem_cons.mp h).elim (fun h => hp h.symm) hr]

/-- The chosen layer is not before a qubit of the gate is free. -/
theorem le_firstFree {free : Array Nat} {qubits : List Nat} {q layer : Nat}
    (hq : q ∈ qubits) (hf : free[q]? = some layer) : layer ≤ firstFree free qubits := by
  have hmem : layer ∈ qubits.filterMap fun p => free[p]? :=
    List.mem_filterMap.mpr ⟨q, hq, hf⟩
  unfold firstFree
  cases hmax : (qubits.filterMap fun p => free[p]?).max? with
  | none =>
      rw [List.max?_eq_none_iff] at hmax
      rw [hmax] at hmem
      exact absurd hmem List.not_mem_nil
  | some m => exact (List.max?_eq_some_iff.mp hmax).2 layer hmem

/-- A gate never goes into a layer in which one of its qubits is still taken. -/
theorem free_le_of_mem {free : Array Nat} {gates : List (Gate R)} {g : Gate R}
    {layer q first : Nat} (hmem : (g, layer) ∈ gates.zip (assignFrom free gates))
    (hq : q ∈ g.qubits) (hf : free[q]? = some first) : first ≤ layer := by
  induction gates generalizing free first with
  | nil => exact absurd hmem List.not_mem_nil
  | cons h rest ih =>
      simp only [assignFrom, List.zip_cons_cons, List.mem_cons, Prod.mk.injEq] at hmem
      rcases hmem with ⟨rfl, rfl⟩ | hmem
      · exact le_firstFree hq hf
      · have hlt : q < free.size := (Array.getElem?_eq_some_iff.mp hf).1
        have hocc := getElem?_occupy free (firstFree free h.qubits) h.qubits q hlt
        by_cases hh : q ∈ h.qubits
        · -- The entry was raised above a layer that was free before.
          rw [if_pos hh] at hocc
          have hle := le_firstFree hh hf
          have := ih hmem hocc
          omega
        · rw [if_neg hh, hf] at hocc
          exact ih hmem hocc

/-- Of two gates that share a qubit, the later one goes into the later layer. -/
theorem pairwise_assignFrom {free : Array Nat} {gates : List (Gate R)}
    (hr : ∀ g ∈ gates, ∀ q ∈ g.qubits, q < free.size) :
    (gates.zip (assignFrom free gates)).Pairwise fun a b =>
      a.1.overlaps b.1 = true → a.2 < b.2 := by
  induction gates generalizing free with
  | nil => exact List.Pairwise.nil
  | cons g rest ih =>
      simp only [assignFrom, List.zip_cons_cons, List.pairwise_cons]
      constructor
      · -- The first gate raises the entry of the common qubit above its own layer.
        rintro ⟨h, layer⟩ hmem hover
        rcases (Gate.overlaps_iff _ _).mp hover with ⟨q, hg, hh⟩
        have hlt := hr g List.mem_cons_self q hg
        have hocc := getElem?_occupy free (firstFree free g.qubits) g.qubits q hlt
        rw [if_pos hg] at hocc
        exact free_le_of_mem hmem hh hocc
      · refine ih fun h hh q hq => ?_
        rw [occupy_size]
        exact hr h (List.mem_cons_of_mem g hh) q hq

theorem assignFrom_length (free : Array Nat) (gates : List (Gate R)) :
    (assignFrom free gates).length = gates.length := by
  induction gates generalizing free with
  | nil => rfl
  | cons g rest ih => simp only [assignFrom, List.length_cons, ih]

theorem assign_length (gates : List (Gate R)) (n : Nat) :
    (assign gates n).length = gates.length :=
  assignFrom_length _ gates

/-- The layers of a list are ordered as the gates are that share a qubit. -/
theorem pairwise_assign {n : Nat} {gates : List (Gate R)}
    (hr : ∀ g ∈ gates, ∀ q ∈ g.qubits, q < n) :
    (gates.zip (assign gates n)).Pairwise fun a b =>
      a.1.overlaps b.1 = true → a.2 < b.2 :=
  pairwise_assignFrom fun g hg q hq => by
    rw [Array.size_replicate]
    exact hr g hg q hq

/-- Every layer is below the number of layers. -/
theorem lt_bound {layers : List Nat} {layer : Nat} (h : layer ∈ layers) :
    layer < bound layers := by
  unfold bound
  cases hmax : layers.max? with
  | none =>
      rw [List.max?_eq_none_iff] at hmax
      rw [hmax] at h
      exact absurd h List.not_mem_nil
  | some m =>
      have := (List.max?_eq_some_iff.mp hmax).2 layer h
      simp only
      omega

end Layers

end QubitLab
