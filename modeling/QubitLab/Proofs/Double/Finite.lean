import QubitLab.Double.Scalar

/-!
# Results that are not finite

A double that is infinite or no number stays in sight: no sum, difference or product that it goes
into is finite. So a result that is finite says that both of its operands were. The converse
fails, since finite operands may overflow.

The length over two legs is the one place where what is no number can turn into something else,
an infinity, and then only if the other leg is infinite. A leg that is not finite therefore
leaves a length that is no number, or one above every finite bound.

Comparing is different. What is no number is neither below nor above anything, so a length that
is not above a bound need not be within it. That is `not_above_iff`, and nothing more holds.

## Theorems

* `isFinite_of_add`, `isFinite_of_sub`, `isFinite_of_mul`: The operands of a finite result.
* `hypotenuse_of_not_finite`: The length over a leg that is not finite.
* `not_above_iff`: What is not above a bound.
-/

namespace QubitLab

namespace Double

open Float.Model

/-- What stays finite when it is packed into bits was finite before. -/
theorem isFinite_of_pack {u : UnpackedFloat} (h : (pack u).unpack.isFinite = true) :
    u.isFinite = true := by
  cases u with
  | notANumber => exact absurd h (by decide)
  | infinity sign => cases sign <;> exact absurd h (by decide)
  | zero sign => rfl
  | finite sign m e hm => rfl

section Unpacked

variable {u v : UnpackedFloat}

/-- A finite sum has two finite terms. -/
theorem finite_of_add (h : (UnpackedFloat.add .binary64 u v).isFinite = true) :
    u.isFinite = true ∧ v.isFinite = true := by
  revert h
  -- Each case has two finite operands, or a zero that leaves the other operand, or a result
  -- that is not finite.
  fun_cases UnpackedFloat.add .binary64 u v <;> first
    | exact fun _ => ⟨rfl, rfl⟩
    | exact fun h => ⟨rfl, h⟩
    | exact fun h => ⟨h, rfl⟩
    | exact fun h => absurd h Bool.false_ne_true

/-- A finite difference has two finite terms. -/
theorem finite_of_sub (h : (UnpackedFloat.sub .binary64 u v).isFinite = true) :
    u.isFinite = true ∧ v.isFinite = true := by
  revert h
  fun_cases UnpackedFloat.sub .binary64 u v <;> first
    | exact fun _ => ⟨rfl, rfl⟩
    | exact fun h => ⟨h, rfl⟩
    | exact fun h => absurd h Bool.false_ne_true

/-- A finite product has two finite factors. -/
theorem finite_of_mul (h : (UnpackedFloat.mul .binary64 u v).isFinite = true) :
    u.isFinite = true ∧ v.isFinite = true := by
  revert h
  fun_cases UnpackedFloat.mul .binary64 u v <;> first
    | exact fun _ => ⟨rfl, rfl⟩
    | exact fun h => absurd h Bool.false_ne_true

/-- Exponents are compared first, and then significands. -/
theorem compare_swap_finite (e e' : Int) (m m' : Nat) :
    (compare e' e).then (compare m' m) = ((compare e e').then (compare m m')).swap := by
  rw [Ordering.swap_then, Int.compare_swap, Nat.compare_swap]

/-- Comparing the other way round gives the opposite answer, and none where there was none. -/
theorem compare_swap (u v : UnpackedFloat) :
    v.compare u = (u.compare v).map Ordering.swap := by
  cases u with
  | notANumber => cases v <;> rfl
  | infinity s =>
      cases v with
      | infinity s' => cases s <;> cases s' <;> rfl
      | _ => cases s <;> rfl
  | zero s =>
      cases v with
      | notANumber | zero s' => rfl
      | infinity s' | finite s' m' e' hm' => cases s' <;> rfl
  | finite s m e hm =>
      cases v with
      | notANumber => rfl
      | infinity s' => cases s <;> cases s' <;> rfl
      | zero s' => cases s <;> rfl
      | finite s' m' e' hm' =>
          have hfinite := compare_swap_finite e e' m m'
          -- Of two negative numbers the one with the lesser absolute value is the greater one.
          cases s <;> cases s'
          · exact congrArg (fun o => some o.swap) hfinite
          · rfl
          · rfl
          · exact congrArg some hfinite

/-- Only what is no number has no place in the order. -/
theorem compare_eq_none (u v : UnpackedFloat) :
    u.compare v = none ↔ u.isNaN = true ∨ v.isNaN = true := by
  cases u with
  | notANumber => exact iff_of_true rfl (Or.inl rfl)
  | _ s =>
      cases v with
      | notANumber => exact iff_of_true (by cases s <;> rfl) (Or.inr rfl)
      | _ s' =>
          refine iff_of_false (fun h => ?_) fun h => h.elim Bool.false_ne_true Bool.false_ne_true
          cases s <;> cases s' <;> exact Option.some_ne_none _ h

/-- What is not above a bound is within it, or no number. -/
theorem lt_eq_false_iff (hu : u.isNaN = false) :
    u.lt v = false ↔ v.le u = true ∨ v.isNaN = true := by
  rw [UnpackedFloat.lt, UnpackedFloat.le, compare_swap u v]
  have hnone := compare_eq_none u v
  rw [hu] at hnone
  cases hc : u.compare v with
  | none => exact iff_of_true rfl (Or.inr ((hnone.mp hc).resolve_left Bool.false_ne_true))
  | some o =>
      have hnan : v.isNaN = false := Bool.eq_false_iff.mpr fun h =>
        Option.some_ne_none o (hc.symm.trans (hnone.mpr (Or.inr h)))
      rw [hnan]
      cases o <;> decide

end Unpacked

section Operands

variable {x y : Float}

theorem isFinite_of_add (h : (x + y).isFinite = true) : x.isFinite = true ∧ y.isFinite = true :=
  finite_of_add (isFinite_of_pack h)

theorem isFinite_of_sub (h : (x - y).isFinite = true) : x.isFinite = true ∧ y.isFinite = true :=
  finite_of_sub (isFinite_of_pack h)

theorem isFinite_of_mul (h : (x * y).isFinite = true) : x.isFinite = true ∧ y.isFinite = true :=
  finite_of_mul (isFinite_of_pack h)

end Operands

section Comparisons

variable {x y t : Float}

theorem lt_eq_true_iff : Scalar.lt x y = true ↔ x.toModel.unpack.lt y.toModel.unpack = true :=
  ⟨fun h => of_decide_eq_true (of_decide_eq_true h), fun h => decide_eq_true (decide_eq_true h)⟩

theorem le_eq_true_iff : Scalar.le x y = true ↔ x.toModel.unpack.le y.toModel.unpack = true :=
  ⟨fun h => of_decide_eq_true (of_decide_eq_true h), fun h => decide_eq_true (decide_eq_true h)⟩

/-- What is not above a bound is within it, or no number. -/
theorem not_above_iff (ht : t.isNaN = false) :
    Scalar.lt t x = false ↔ Scalar.le x t = true ∨ x.isNaN = true := by
  rw [← Bool.not_eq_true, lt_eq_true_iff, Bool.not_eq_true, lt_eq_false_iff ht, le_eq_true_iff]
  rfl

/-- What is not finite is an infinity or no number. -/
theorem isInf_or_isNaN (h : x.isFinite = false) : x.isInf = true ∨ x.isNaN = true := by
  change x.toModel.unpack.isFinite = false at h
  change x.toModel.unpack.isInf = true ∨ x.toModel.unpack.isNaN = true
  revert h
  cases x.toModel.unpack with
  | infinity s => exact fun _ => Or.inl rfl
  | notANumber => exact fun _ => Or.inr rfl
  | _ => exact fun h => Bool.noConfusion h

/-- An infinity without its sign is above everything finite. -/
theorem lt_abs_of_isInf (hx : x.isInf = true) (ht : t.isFinite = true) :
    Scalar.lt t x.abs = true := by
  refine lt_eq_true_iff.mpr ?_
  change t.toModel.unpack.lt (pack x.toModel.unpack.abs).unpack = true
  change x.toModel.unpack.isInf = true at hx
  change t.toModel.unpack.isFinite = true at ht
  have habs : x.toModel.unpack.abs = .infinity .positive := by
    revert hx
    cases x.toModel.unpack with
    | infinity s => exact fun _ => rfl
    | _ => exact fun hx => absurd hx Bool.false_ne_true
  -- The infinity survives packing into bits and back.
  have hpack : (pack (.infinity .positive)).unpack = .infinity .positive := rfl
  rw [habs, hpack]
  revert ht
  cases t.toModel.unpack with
  | zero s => exact fun _ => rfl
  | finite s m e hm => cases s <;> exact fun _ => rfl
  | _ => exact fun ht => absurd ht Bool.false_ne_true

/-- A sum with a term that is no number is no number. -/
theorem isNaN_add (h : x.isNaN = true ∨ y.isNaN = true) : (x + y).isNaN = true := by
  change (pack (UnpackedFloat.add .binary64 x.toModel.unpack y.toModel.unpack)).unpack.isNaN = true
  change x.toModel.unpack.isNaN = true ∨ y.toModel.unpack.isNaN = true at h
  have hadd : UnpackedFloat.add .binary64 x.toModel.unpack y.toModel.unpack = .notANumber := by
    revert h
    cases x.toModel.unpack <;> cases y.toModel.unpack <;> first
      | exact fun _ => rfl
      | exact fun h => absurd h (not_or.mpr ⟨Bool.false_ne_true, Bool.false_ne_true⟩)
  rw [hadd]
  rfl

/-- The length over a leg that is not finite is no number or above everything finite. -/
theorem hypotenuse_of_not_finite (h : ¬ (x.isFinite = true ∧ y.isFinite = true)) :
    (hypotenuse x y).isNaN = true ∨
      ∀ t : Float, t.isFinite = true → Scalar.lt t (hypotenuse x y) = true := by
  unfold hypotenuse
  by_cases hx : x.isInf = true
  · rw [if_pos hx]
    exact Or.inr fun t ht => lt_abs_of_isInf hx ht
  · by_cases hy : y.isInf = true
    · rw [if_neg hx, if_pos hy]
      exact Or.inr fun t ht => lt_abs_of_isInf hy ht
    · -- Without an infinity it is a leg that is no number, and this is passed on.
      have hnan : x.isNaN = true ∨ y.isNaN = true := by
        cases hfx : x.isFinite with
        | false => exact Or.inl ((isInf_or_isNaN hfx).resolve_left hx)
        | true =>
            have hfy : y.isFinite = false := Bool.eq_false_iff.mpr fun hfy => h ⟨hfx, hfy⟩
            exact Or.inr ((isInf_or_isNaN hfy).resolve_left hy)
      rw [if_neg hx, if_neg hy, if_pos (by rwa [Bool.or_eq_true])]
      exact Or.inl (isNaN_add hnan)

end Comparisons

end Double

end QubitLab
