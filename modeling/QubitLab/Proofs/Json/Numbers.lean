import Mathlib.Data.Nat.Digits.Defs
import QubitLab.Json.Reader
import QubitLab.Json.Writer

/-!
# Number literals read back

A number literal has no closing mark: it ends where no digit, point or exponent follows. So a
number that has been written is read back only in front of something that does not continue
it. In a text of JSON this is the end, white space, a comma or a closing bracket, and
`Delimited` says so once for all numbers.

Every literal reads back, and not only those that are written for scalars: the digits behind
the point keep their zeros, and the whole number in front of it is written without leading
ones, which the reader would refuse.

## Main definitions

* `Json.NoDigitHead`: The text does not start with a digit.
* `Json.Delimited`: The text does not go on with what is in front of it.

## Theorems

* `readDigits_map`: Digits up to the first other character.
* `exists_digits`: The digits of a whole number.
* `readWhole_toDigits`, `readFraction_chars`, `readExponent_chars`: The parts of a literal.
* `readNumber_text`: A literal.
-/

namespace QubitLab

namespace Json

/-- The text does not start with a digit. -/
def NoDigitHead (cs : List Char) : Prop := ∀ c ∈ cs.head?, digit? c = none

/-- The text is at its end, or starts with something that stands between two tokens or
    behind a closed one. -/
def Delimited (cs : List Char) : Prop :=
  ∀ c ∈ cs.head?, isSeparator c = true ∨ c = ',' ∨ c = ']' ∨ c = '}'

section Digits

theorem digit?_digitChar : ∀ d : Fin 10, digit? (digitChar d) = some d := by decide

theorem toNat_digitChar : ∀ d : Fin 10, (digitChar d).toNat - '0'.toNat = d := by decide

/-- A digit is the character of its value. -/
theorem exists_digitChar {c : Char} (h : c.isDigit = true) : ∃ d, c = digitChar d := by
  rcases Char.isDigit_iff_toNat.mp h with ⟨hlow, hhigh⟩
  have hbounds : 48 ≤ c.toNat ∧ c.toNat ≤ 57 := ⟨hlow, hhigh⟩
  refine ⟨⟨c.toNat - 48, by omega⟩, ?_⟩
  have hval : '0'.toNat + (c.toNat - 48) = c.toNat := by
    change 48 + (c.toNat - 48) = c.toNat
    omega
  rw [digitChar]
  dsimp only
  rw [hval, Char.ofNat_toNat]

/-- A text of digits is the text of their values. -/
theorem exists_map_digitChar {cs : List Char} (h : ∀ c ∈ cs, c.isDigit = true) :
    ∃ ds : List (Fin 10), cs = ds.map digitChar := by
  induction cs with
  | nil => exact ⟨[], rfl⟩
  | cons c rest ih =>
      rcases exists_digitChar (h c List.mem_cons_self) with ⟨d, rfl⟩
      rcases ih fun x hx => h x (List.mem_cons_of_mem _ hx) with ⟨ds, rfl⟩
      exact ⟨d :: ds, rfl⟩

/-- Digits are read up to the first character that is none. -/
theorem readDigits_map (ds : List (Fin 10)) {rest : List Char} (h : NoDigitHead rest) :
    readDigits (ds.map digitChar ++ rest) = (ds, rest) := by
  induction ds with
  | nil =>
      cases rest with
      | nil => rfl
      | cons c rest =>
          rw [List.map_nil, List.nil_append, readDigits, h c rfl]
  | cons d ds ih => simp only [List.map_cons, List.cons_append, readDigits, digit?_digitChar, ih]

/-- Digits have the value that their characters have in base ten. -/
theorem ofDigits_eq (ds : List (Fin 10)) :
    ofDigits ds = Nat.ofDigitChars 10 (ds.map digitChar) 0 := by
  rw [Nat.ofDigitChars_eq_foldl, List.foldl_map, ofDigits]
  simp only [toNat_digitChar]

/-- The digits of a whole number, which have its value. -/
theorem exists_digits (n : Nat) :
    ∃ d ds, Nat.toDigits 10 n = digitChar d :: ds.map digitChar ∧ ofDigits (d :: ds) = n := by
  have hdigits : ∀ c ∈ Nat.toDigits 10 n, c.isDigit = true := fun c hc =>
    Nat.isDigit_of_mem_toDigits (by decide) (Nat.le_refl 10) hc
  rcases exists_map_digitChar hdigits with ⟨ds, hds⟩
  cases ds with
  | nil => exact absurd hds Nat.toDigits_ne_nil
  | cons d ds =>
      refine ⟨d, ds, hds, ?_⟩
      rw [ofDigits_eq, ← hds]
      exact Nat.ofDigitChars_ten_toDigits

/-- Only zero is written with a zero in front. -/
theorem head_toDigits_ne_zero {n : Nat} (h : 0 < n) :
    ∀ c ∈ (Nat.toDigits 10 n).head?, c ≠ '0' := by
  induction n using Nat.strong_induction_on with
  | _ n ih =>
      rw [Nat.toDigits_eq_if (by decide)]
      by_cases hlt : n < 10
      · rw [if_pos hlt]
        have hdigit : ∀ m : Fin 10, 0 < m.val → Nat.digitChar m ≠ '0' := by decide
        intro c hc
        rw [← Option.some.inj hc]
        exact hdigit ⟨n, hlt⟩ h
      · -- The first digit is that of the number without its last one.
        have hfront := ih (n / 10) (by omega) (by omega)
        cases hdigits : Nat.toDigits 10 (n / 10) with
        | nil => exact absurd hdigits Nat.toDigits_ne_nil
        | cons d ds =>
            rw [hdigits] at hfront
            rw [if_neg hlt, List.cons_append]
            exact hfront

end Digits

section Parts

variable {rest : List Char}

/-- A whole number reads back in front of what is no digit. -/
theorem readWhole_toDigits (n : Nat) (h : NoDigitHead rest) :
    readWhole (Nat.toDigits 10 n ++ rest) = some (n, rest) := by
  by_cases hn : n = 0
  · subst hn
    rfl
  · rcases exists_digits n with ⟨d, ds, hds, hvalue⟩
    -- The reader would take a leading zero for the whole number.
    have hne : digitChar d ≠ '0' :=
      head_toDigits_ne_zero (Nat.pos_of_ne_zero hn) _ (by rw [hds]; rfl)
    have hread := readDigits_map (d :: ds) h
    rw [List.map_cons, List.cons_append] at hread
    rw [hds, List.cons_append, readWhole, if_neg hne, hread]
    dsimp only
    rw [hvalue]

/-- The characters of a fraction: a point and its digits, or nothing. -/
def fractionChars (ds : List (Fin 10)) : List Char :=
  if ds.isEmpty then [] else '.' :: ds.map digitChar

/-- The characters of an exponent, with its sign. -/
def exponentChars : Option Int → List Char
  | none => []
  | some e =>
    if 0 ≤ e then 'e' :: '+' :: Nat.toDigits 10 e.toNat
    else 'e' :: '-' :: Nat.toDigits 10 (-e).toNat

/-- A fraction reads back, and so does the lack of one, in front of what is neither digit nor
    point. -/
theorem readFraction_chars (ds : List (Fin 10)) (hdigit : NoDigitHead rest)
    (hpoint : rest.head? ≠ some '.') :
    readFraction (fractionChars ds ++ rest) = some (ds, rest) := by
  cases ds with
  | nil =>
      unfold fractionChars
      rw [List.isEmpty_nil, if_pos rfl, List.nil_append, readFraction]
      rintro tail rfl
      exact hpoint rfl
  | cons d ds =>
      have hread := readDigits_map (d :: ds) hdigit
      rw [fractionChars, List.isEmpty_cons, if_neg Bool.false_ne_true, List.cons_append,
        readFraction, hread]

/-- The digits of an exponent read back with the sign in front of them. -/
theorem readExponentDigits_toDigits (negative : Bool) (n : Nat) (h : NoDigitHead rest) :
    readExponentDigits negative (Nat.toDigits 10 n ++ rest)
      = some (some (if negative then -(n : Int) else n), rest) := by
  rcases exists_digits n with ⟨d, ds, hds, hvalue⟩
  have hread := readDigits_map (d :: ds) h
  rw [List.map_cons, List.cons_append] at hread
  rw [hds, List.cons_append, readExponentDigits, hread]
  dsimp only
  rw [hvalue]

/-- An exponent reads back, and so does the lack of one, in front of what starts none. -/
theorem readExponent_chars (e : Option Int) (hdigit : NoDigitHead rest)
    (hexponent : rest.head? ≠ some 'e' ∧ rest.head? ≠ some 'E') :
    readExponent (exponentChars e ++ rest) = some (e, rest) := by
  cases e with
  | none =>
      cases rest with
      | nil => rfl
      | cons c rest =>
          have hc : ¬ (c = 'e' ∨ c = 'E') := by
            rintro (rfl | rfl)
            · exact hexponent.1 rfl
            · exact hexponent.2 rfl
          unfold exponentChars readExponent
          rw [List.nil_append]
          dsimp only
          rw [if_neg hc]
  | some e =>
      unfold exponentChars readExponent
      dsimp only
      by_cases he : 0 ≤ e
      · rw [if_pos he, List.cons_append, List.cons_append]
        dsimp only
        rw [if_pos (Or.inl rfl)]
        change readExponentDigits false (Nat.toDigits 10 e.toNat ++ rest) = _
        rw [readExponentDigits_toDigits false _ hdigit, if_neg Bool.false_ne_true,
          Int.toNat_of_nonneg he]
      · rw [if_neg he, List.cons_append, List.cons_append]
        dsimp only
        rw [if_pos (Or.inl rfl)]
        change readExponentDigits true (Nat.toDigits 10 (-e).toNat ++ rest) = _
        rw [readExponentDigits_toDigits true _ hdigit, if_pos rfl,
          Int.toNat_of_nonneg (by omega), Int.neg_neg]

end Parts

section Literals

/-- The characters of a literal: sign, whole number, fraction and exponent. -/
theorem Number.toList_text (n : Number) :
    n.text.toList = (if n.negative then ['-'] else []) ++
      (Nat.toDigits 10 n.whole ++ (fractionChars n.fraction ++ exponentChars n.exponent)) := by
  have hnat : ∀ m : Nat, (toString m).toList = Nat.toDigits 10 m := fun m => by
    rw [Nat.toString_eq_ofList_toDigits, String.toList_ofList]
  rcases n with ⟨negative, whole, fraction, exponent⟩
  have hsign : (if negative then "-" else "").toList = if negative then ['-'] else [] := by
    cases negative <;> rfl
  have hfraction :
      (if fraction.isEmpty then "" else "." ++ String.ofList (fraction.map digitChar)).toList
        = fractionChars fraction := by
    cases fraction with
    | nil => rfl
    | cons d ds => simp [fractionChars]
  simp only [Number.text, String.toList_append, hsign, hfraction, hnat, List.append_assoc]
  cases exponent with
  | none => rfl
  | some e => by_cases he : 0 ≤ e <;> simp [exponentChars, he]

variable {rest : List Char}

/-- What delimits a number does not go on with it. -/
theorem Delimited.head (h : Delimited rest) :
    ∀ c ∈ rest.head?, digit? c = none ∧ c ≠ '.' ∧ c ≠ 'e' ∧ c ≠ 'E' := by
  intro c hc
  have hchars : c = ' ' ∨ c = '\t' ∨ c = '\n' ∨ c = '\r' ∨ c = ',' ∨ c = ']' ∨ c = '}' := by
    have hdelimiter := h c hc
    simp only [isSeparator, Bool.or_eq_true, beq_iff_eq] at hdelimiter
    tauto
  rcases hchars with rfl | rfl | rfl | rfl | rfl | rfl | rfl <;> decide

/-- What follows the digits of a fraction goes on neither with a digit nor with a point. -/
theorem noDigitHead_exponentChars (h : Delimited rest) (e : Option Int) :
    NoDigitHead (exponentChars e ++ rest) ∧ (exponentChars e ++ rest).head? ≠ some '.' := by
  cases e with
  | none => exact ⟨fun c hc => (h.head c hc).1, fun hpoint => (h.head '.' hpoint).2.1 rfl⟩
  | some e =>
      have hhead : (exponentChars (some e) ++ rest).head? = some 'e' := by
        unfold exponentChars
        dsimp only
        split <;> rfl
      unfold NoDigitHead
      rw [hhead]
      exact ⟨fun c hc => Option.some.inj hc ▸ by decide, by decide⟩

/-- What follows the whole number goes on with no digit. -/
theorem noDigitHead_fractionChars (h : Delimited rest) (ds : List (Fin 10)) (e : Option Int) :
    NoDigitHead (fractionChars ds ++ (exponentChars e ++ rest)) := by
  cases ds with
  | nil => exact (noDigitHead_exponentChars h e).1
  | cons d ds => exact fun c hc => Option.some.inj hc ▸ by decide

/-- A literal behind its sign: each part reads back in front of the parts that are left. -/
theorem readUnsigned_text (negative : Bool) (n : Number) (h : Delimited rest) :
    readUnsigned negative (Nat.toDigits 10 n.whole ++
        (fractionChars n.fraction ++ (exponentChars n.exponent ++ rest)))
      = some ({ n with negative }, rest) := by
  have hexponent := noDigitHead_exponentChars h n.exponent
  have hends : rest.head? ≠ some 'e' ∧ rest.head? ≠ some 'E' :=
    ⟨fun he => (h.head _ he).2.2.1 rfl, fun he => (h.head _ he).2.2.2 rfl⟩
  rw [readUnsigned, readWhole_toDigits _ (noDigitHead_fractionChars h _ _)]
  dsimp only [Option.bind_eq_bind, Option.bind_some]
  rw [readFraction_chars _ hexponent.1 hexponent.2]
  dsimp only [Option.bind_some]
  rw [readExponent_chars _ (fun c hc => (h.head c hc).1) hends]
  rfl

/-- A literal reads back in front of what delimits it. -/
theorem readNumber_text (n : Number) (h : Delimited rest) :
    readNumber (n.text.toList ++ rest) = some (n, rest) := by
  rw [Number.toList_text]
  simp only [List.append_assoc]
  by_cases hsign : n.negative = true
  · rw [if_pos hsign, List.cons_append, List.nil_append, readNumber, readUnsigned_text true n h,
      ← hsign]
  · -- A digit is no sign.
    rw [if_neg hsign, List.nil_append, readNumber, readUnsigned_text false n h,
      ← Bool.not_eq_true _ |>.mp hsign]
    rcases exists_digits n.whole with ⟨d, ds, hds, -⟩
    rw [hds, List.cons_append]
    rintro tail heq
    have hdigit : ∀ d, digitChar d ≠ '-' := by decide
    exact hdigit d (List.head_eq_of_cons_eq heq)

end Literals

end Json

end QubitLab
