import QubitLab.Gate.Basic
import QubitLab.Proofs.Checks

/-!
# Gates that fit into a register

What it takes for a gate to pass its checks, said without the checks: its qubits
are distinct and inside the register, and kind, angles and matrix agree with their
number. The constructors of gates and the check of a gate that is already there
are both inverted here once, so that no later proof opens them.

The checks look at the qubits of a gate in three ways only: how many there are,
whether one comes twice, and how large they are. So a gate that fits still fits
after its qubits have been renamed by a map that keeps them apart and inside the
register. `fits_mapQubits` says so, and is what relabelling a circuit rests on.

## Main definitions

* `Gate.Fits`: A gate fits into a register of a given width.
* `Gate.mapQubits`: The same gate with its qubits renamed by a function.

## Theorems

* `checkRange_eq_ok`, `checkDistinct_eq_ok`, `checkArity_eq_ok`, `checkParams_eq_ok`: The
  checks.
* `builtin_eq_ok`, `custom_eq_ok`: When the constructors succeed, and with what.
* `fits_builtin`, `fits_custom`: A constructed gate fits where its qubits do.
* `Fits.nodup`: A gate that fits acts on distinct qubits.
* `overlaps_iff`, `overlaps_comm`: Sharing a qubit.
* `fits_mapQubits`: Renaming the qubits of a gate that fits.
-/

namespace QubitLab

namespace Gate

variable {R : Type}

section Overlap

theorem actsOn_iff (g : Gate R) (q : Nat) : g.actsOn q = true ↔ q ∈ g.qubits :=
  List.contains_iff_mem

theorem overlaps_iff (g h : Gate R) :
    g.overlaps h = true ↔ ∃ q ∈ g.qubits, q ∈ h.qubits := by
  simp only [overlaps, List.any_eq_true, actsOn_iff]

theorem overlaps_comm (g h : Gate R) : g.overlaps h = h.overlaps g := by
  rw [Bool.eq_iff_iff, overlaps_iff, overlaps_iff]
  exact ⟨fun ⟨q, hg, hh⟩ => ⟨q, hh, hg⟩, fun ⟨q, hh, hg⟩ => ⟨q, hg, hh⟩⟩

/-- Only the qubits of a gate count. -/
theorem overlaps_congr {g h f : Gate R} (hq : g.qubits = h.qubits) :
    g.overlaps f = h.overlaps f := by
  rw [Bool.eq_iff_iff, overlaps_iff, overlaps_iff, hq]

end Overlap

section Checks

/-- The check passes when all qubits are inside the register. -/
theorem checkRange_eq_ok (n : Nat) (qubits : List Nat) :
    (checkRange n qubits : Except (Error R) Unit) = .ok () ↔ ∀ q ∈ qubits, q < n := by
  unfold checkRange
  cases hf : qubits.find? fun q => decide (n ≤ q) with
  | none =>
      simp only [List.find?_eq_none, decide_eq_true_eq, Nat.not_le] at hf
      exact iff_of_true rfl hf
  | some q =>
      refine iff_of_false (by simp only [reduceCtorEq, not_false_eq_true]) fun h => ?_
      have hq := h q (List.mem_of_find?_eq_some hf)
      have hn := List.find?_some hf
      simp only [decide_eq_true_eq] at hn
      omega

theorem checkRange_singleton {n q : Nat} (hq : q < n) :
    (checkRange n [q] : Except (Error R) Unit) = .ok () := by
  refine (checkRange_eq_ok n [q]).mpr fun p hp => ?_
  rw [List.mem_singleton.mp hp]
  exact hq

/-- No qubit comes twice, and none of them has been seen before. -/
theorem firstRepeatAfter?_eq_none (seen qubits : List Nat) :
    firstRepeatAfter? seen qubits = none ↔ qubits.Nodup ∧ ∀ q ∈ qubits, q ∉ seen := by
  induction qubits generalizing seen with
  | nil => simp [firstRepeatAfter?]
  | cons q rest ih =>
      -- Either the first qubit has been seen, or it is seen from now on.
      by_cases hq : q ∈ seen
      · simp [firstRepeatAfter?, hq]
      · rw [firstRepeatAfter?, if_neg hq, ih, List.nodup_cons]
        constructor
        · rintro ⟨hnd, hout⟩
          refine ⟨⟨fun hmem => hout q hmem List.mem_cons_self, hnd⟩, fun p hp => ?_⟩
          rcases List.mem_cons.mp hp with rfl | hp
          · exact hq
          · exact fun hseen => hout p hp (List.mem_cons_of_mem q hseen)
        · rintro ⟨⟨hmem, hnd⟩, hout⟩
          refine ⟨hnd, fun p hp hseen => ?_⟩
          rcases List.mem_cons.mp hseen with rfl | hseen
          · exact hmem hp
          · exact hout p (List.mem_cons_of_mem q hp) hseen

/-- The check passes when no qubit comes twice. -/
theorem checkDistinct_eq_ok (name : String) (qubits : List Nat) :
    (checkDistinct name qubits : Except (Error R) Unit) = .ok () ↔ qubits.Nodup := by
  have hnone := firstRepeatAfter?_eq_none [] qubits
  simp only [List.not_mem_nil, not_false_eq_true, implies_true, and_true] at hnone
  rw [← hnone]
  unfold checkDistinct firstRepeat?
  cases firstRepeatAfter? [] qubits with
  | none => simp only
  | some q => simp only [reduceCtorEq]

theorem checkArity_eq_ok (name : String) (arity : Nat) (qubits : List Nat) :
    (checkArity name arity qubits : Except (Error R) Unit) = .ok () ↔
      qubits.length = arity := by
  unfold checkArity
  by_cases h : qubits.length = arity
  · rw [if_pos h]
    exact iff_of_true rfl h
  · rw [if_neg h]
    exact iff_of_false (by simp only [reduceCtorEq, not_false_eq_true]) h

variable [Scalar R]

/-- The check passes when there are as many angles as the kind asks for, and all of them are
    finite. -/
theorem checkParams_eq_ok (kind : GateKind) (params : List R) :
    (checkParams kind params : Except (Error R) Unit) = .ok () ↔
      params.length = kind.paramCount ∧ ∀ x ∈ params, Scalar.isFinite x = true := by
  unfold checkParams
  by_cases hlen : params.length = kind.paramCount
  · rw [if_neg fun h => h hlen]
    cases hf : params.find? fun x => !Scalar.isFinite x with
    | none =>
        simp only [List.find?_eq_none, Bool.not_eq_true', Bool.not_eq_false] at hf
        exact iff_of_true rfl ⟨hlen, hf⟩
    | some x =>
        refine iff_of_false (by simp) fun h => ?_
        have hx := h.2 x (List.mem_of_find?_eq_some hf)
        have hnot := List.find?_some hf
        simp [hx] at hnot
  · rw [if_pos hlen]
    exact iff_of_false (by simp) fun h => hlen h.1

/-- The constructor of the built-in kinds makes three checks, and the gate of what it was given. -/
theorem builtin_eq_ok (kind : GateKind) (qubits : List Nat) (params : List R)
    (g : Gate R) :
    builtin kind qubits params = .ok g ↔
      kind.arity? = some qubits.length ∧ checkParams kind params = .ok () ∧
        qubits.Nodup ∧ g = ⟨kind, qubits, params, none⟩ := by
  unfold builtin
  cases kind.arity? with
  | none => simp only [reduceCtorEq, false_and]
  | some arity =>
      simp only [Checks.check_bind_eq_ok, checkArity_eq_ok, checkDistinct_eq_ok,
        Checks.pure_eq_ok, Option.some.injEq]
      constructor
      · rintro ⟨ha, hp, hd, rfl⟩
        exact ⟨ha.symm, hp, hd, rfl⟩
      · rintro ⟨ha, hp, hd, rfl⟩
        exact ⟨ha.symm, hp, hd, rfl⟩

/-- The constructor of custom gates looks at the matrix as well. -/
theorem custom_eq_ok (name : String) (matrix : Rows (Complex R)) (qubits : List Nat)
    (g : Gate R) :
    custom name matrix qubits = .ok g ↔
      (checkCustomHead name qubits : Except (Error R) Unit) = .ok () ∧ qubits.Nodup ∧
        (checkSide matrix (1 <<< qubits.length) : Except (Error R) Unit) = .ok () ∧
        matrix.isUnitary Scalar.unitaryTolerance = true ∧
        g = ⟨.custom, qubits, [], some ⟨name, matrix⟩⟩ := by
  unfold custom
  simp only [Checks.check_bind_eq_ok, checkDistinct_eq_ok]
  by_cases hu : matrix.isUnitary Scalar.unitaryTolerance = true
  · simp only [hu, if_true, Checks.pure_eq_ok, true_and, @eq_comm _ g]
  · simp only [hu, if_false, reduceCtorEq, and_false, false_and]

end Checks

section Fits

variable [Scalar R]

/-- The gate passes its own checks, and its qubits are inside a register of `n`
    qubits. -/
def Fits (n : Nat) (g : Gate R) : Prop :=
  (∀ q ∈ g.qubits, q < n) ∧ g.validate = .ok ()

/-- The check of a gate succeeds exactly when its kind, angles and matrix could have
    been given to the constructor that they belong to. -/
theorem validate_eq_ok (g : Gate R) :
    g.validate = .ok () ↔
      (∃ p, g.payload = some p ∧ g.kind = .custom ∧
        (checkCustomHead p.name g.qubits : Except (Error R) Unit) = .ok () ∧
        g.qubits.Nodup ∧
        (checkSide p.matrix (1 <<< g.qubits.length) : Except (Error R) Unit) = .ok () ∧
        p.matrix.isUnitary Scalar.unitaryTolerance = true) ∨
      (g.kind.arity? = some g.qubits.length ∧ checkParams g.kind g.params = .ok () ∧
        g.qubits.Nodup) := by
  rcases g with ⟨kind, qubits, params, payload⟩
  -- The check takes the constructor of custom gates only where there is a matrix to give to it.
  by_cases hc : kind = .custom ∧ payload.isSome
  · rcases hc with ⟨rfl, hp⟩
    rcases Option.isSome_iff_exists.mp hp with ⟨p, rfl⟩
    simp only [validate, Checks.bind_eq_ok, custom_eq_ok, Checks.pure_eq_ok, and_true,
      Option.some.injEq, GateKind.arity?, reduceCtorEq, false_and, or_false]
    constructor
    · rintro ⟨_, h1, h2, h3, h4, -⟩
      exact ⟨p, rfl, trivial, h1, h2, h3, h4⟩
    · rintro ⟨_, rfl, -, h1, h2, h3, h4⟩
      exact ⟨_, h1, h2, h3, h4, rfl⟩
  · have hv : (Gate.mk kind qubits params payload).validate
        = (do let _ ← builtin kind qubits params; return ()) := by
      unfold validate
      split
      · next p heq hk =>
          simp only at heq hk
          subst heq hk
          exact absurd ⟨rfl, rfl⟩ hc
      · rfl
    rw [hv]
    simp only [Checks.bind_eq_ok, builtin_eq_ok, Checks.pure_eq_ok, and_true]
    constructor
    · rintro ⟨_, h1, h2, h3, -⟩
      exact Or.inr ⟨h1, h2, h3⟩
    · rintro (⟨p, rfl, rfl, -⟩ | ⟨h1, h2, h3⟩)
      · exact absurd ⟨rfl, rfl⟩ hc
      · exact ⟨_, h1, h2, h3, rfl⟩

/-- A gate that its constructor has made fits where its qubits do. -/
theorem fits_builtin {n : Nat} {kind : GateKind} {qubits : List Nat} {params : List R}
    {g : Gate R} (hr : ∀ q ∈ qubits, q < n) (h : builtin kind qubits params = .ok g) :
    g.Fits n := by
  rcases (builtin_eq_ok kind qubits params g).mp h with ⟨ha, hp, hd, rfl⟩
  exact ⟨hr, (validate_eq_ok _).mpr (Or.inr ⟨ha, hp, hd⟩)⟩

theorem fits_custom {n : Nat} {name : String} {matrix : Rows (Complex R)} {qubits : List Nat}
    {g : Gate R} (hr : ∀ q ∈ qubits, q < n) (h : custom name matrix qubits = .ok g) :
    g.Fits n := by
  rcases (custom_eq_ok name matrix qubits g).mp h with ⟨hh, hd, hs, hu, rfl⟩
  exact ⟨hr, (validate_eq_ok _).mpr (Or.inl ⟨⟨name, matrix⟩, rfl, rfl, hh, hd, hs, hu⟩)⟩

/-- A gate that fits acts on distinct qubits. -/
theorem Fits.nodup {n : Nat} {g : Gate R} (h : g.Fits n) : g.qubits.Nodup := by
  rcases (validate_eq_ok g).mp h.2 with ⟨_, -, -, -, hd, -⟩ | ⟨-, -, hd⟩
  · exact hd
  · exact hd

end Fits

section Renaming

/-- The same gate with each of its qubits renamed. -/
def mapQubits (f : Nat → Nat) (g : Gate R) : Gate R := { g with qubits := g.qubits.map f }

@[simp] theorem mapQubits_kind (f : Nat → Nat) (g : Gate R) : (g.mapQubits f).kind = g.kind := rfl

@[simp] theorem mapQubits_qubits (f : Nat → Nat) (g : Gate R) :
    (g.mapQubits f).qubits = g.qubits.map f := rfl

@[simp] theorem mapQubits_params (f : Nat → Nat) (g : Gate R) :
    (g.mapQubits f).params = g.params := rfl

@[simp] theorem mapQubits_payload (f : Nat → Nat) (g : Gate R) :
    (g.mapQubits f).payload = g.payload := rfl

theorem mapQubits_mapQubits (f f' : Nat → Nat) (g : Gate R) :
    (g.mapQubits f).mapQubits f' = g.mapQubits fun q => f' (f q) := by
  simp only [mapQubits, List.map_map, Function.comp_def]

theorem mapQubits_congr {f f' : Nat → Nat} {g : Gate R} (h : ∀ q ∈ g.qubits, f q = f' q) :
    g.mapQubits f = g.mapQubits f' := by
  rw [mapQubits, List.map_congr_left h, mapQubits]

theorem mapQubits_eq_self {f : Nat → Nat} {g : Gate R} (h : ∀ q ∈ g.qubits, f q = q) :
    g.mapQubits f = g := by
  have hq : g.qubits.map f = g.qubits :=
    (List.map_congr_left h).trans (List.map_id g.qubits)
  rw [mapQubits, hq]

/-- A renaming keeps the qubits below `n` apart, and inside the register. -/
structure Renaming (n : Nat) (f : Nat → Nat) : Prop where
  /-- The register is mapped into itself. -/
  lt : ∀ q, q < n → f q < n
  /-- No two qubits of the register get the same name. -/
  inj : ∀ p q, p < n → q < n → f p = f q → p = q

/-- A renaming keeps qubits apart. -/
theorem nodup_map_of_renaming {n : Nat} {f : Nat → Nat} (hf : Renaming n f)
    {qubits : List Nat} (hr : ∀ q ∈ qubits, q < n) (hd : qubits.Nodup) :
    (qubits.map f).Nodup := by
  rw [List.Nodup, List.pairwise_map]
  exact List.Pairwise.imp_of_mem
    (fun hp hq hne heq => hne (hf.inj _ _ (hr _ hp) (hr _ hq) heq)) hd

theorem range_mapQubits {n : Nat} {f : Nat → Nat} (hf : Renaming n f) {g : Gate R}
    (hr : ∀ q ∈ g.qubits, q < n) : ∀ q ∈ (g.mapQubits f).qubits, q < n := by
  intro q hq
  rcases List.mem_map.mp hq with ⟨p, hp, rfl⟩
  exact hf.lt p (hr p hp)

/-- A gate that fits still does when its qubits have been renamed. -/
theorem fits_mapQubits [Scalar R] {n : Nat} {f : Nat → Nat} (hf : Renaming n f)
    {g : Gate R} (hg : g.Fits n) : (g.mapQubits f).Fits n := by
  refine ⟨range_mapQubits hf hg.1, (validate_eq_ok _).mpr ?_⟩
  have hd := nodup_map_of_renaming hf hg.1 hg.nodup
  -- Every other check reads the number of qubits only.
  simp only [mapQubits_qubits, mapQubits_kind, mapQubits_params, mapQubits_payload,
    List.length_map]
  rcases (validate_eq_ok g).mp hg.2 with ⟨p, hp, hk, hh, -, hs, hu⟩ | ⟨ha, hp, -⟩
  · refine Or.inl ⟨p, hp, hk, ?_, hd, hs, hu⟩
    simpa only [checkCustomHead, List.isEmpty_map, List.length_map] using hh
  · exact Or.inr ⟨ha, hp, hd⟩

/-- Renaming makes no gates overlap that did not, and takes no overlap away. -/
theorem overlaps_mapQubits {n : Nat} {f : Nat → Nat} (hf : Renaming n f) {g h : Gate R}
    (hg : ∀ q ∈ g.qubits, q < n) (hh : ∀ q ∈ h.qubits, q < n) :
    (g.mapQubits f).overlaps (h.mapQubits f) = g.overlaps h := by
  rw [Bool.eq_iff_iff, overlaps_iff, overlaps_iff]
  constructor
  · rintro ⟨r, hrg, hrh⟩
    rcases List.mem_map.mp hrg with ⟨p, hp, rfl⟩
    rcases List.mem_map.mp hrh with ⟨q, hq, hpq⟩
    have hpq' := hf.inj q p (hh q hq) (hg p hp) hpq
    exact ⟨p, hp, hpq' ▸ hq⟩
  · rintro ⟨q, hqg, hqh⟩
    exact ⟨f q, List.mem_map_of_mem hqg, List.mem_map_of_mem hqh⟩

/-- A renaming tells lists of qubits apart. -/
theorem map_qubits_inj {n : Nat} {f : Nat → Nat} (hf : Renaming n f) {u v : List Nat}
    (hu : ∀ q ∈ u, q < n) (hv : ∀ q ∈ v, q < n) (h : u.map f = v.map f) : u = v := by
  induction u generalizing v with
  | nil =>
      rw [List.map_nil] at h
      exact (List.map_eq_nil_iff.mp h.symm).symm
  | cons p u ih =>
      rcases v with _ | ⟨q, v⟩
      · simp at h
      · simp only [List.map_cons, List.cons.injEq] at h
        rw [hf.inj p q (hu p List.mem_cons_self) (hv q List.mem_cons_self) h.1,
          ih (fun r hr => hu r (List.mem_cons_of_mem p hr))
            (fun r hr => hv r (List.mem_cons_of_mem q hr)) h.2]

end Renaming

end Gate

end QubitLab
