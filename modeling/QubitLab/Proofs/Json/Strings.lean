import Mathlib.Data.List.Basic
import QubitLab.Json.Reader
import QubitLab.Json.Writer

/-!
# Strings read back

A string is written character by character, and each character is read back on its own: the
reader looks at a backslash and what follows it, or at a single character, and never further.
So the text of a string reads back whatever is in it, quotes, backslashes and control
characters included.

The reader collects code points first, and joins the halves of surrogate pairs afterwards.
No character of a text is such a half, so there is nothing to join and nothing to refuse.

## Theorems

* `readUnits_escape`, `readUnits_plain`, `readUnits_escaped`: One character.
* `readUnits_flatMap`: The characters of a string.
* `joinPairs_toNat`: The code points of characters.
* `readString_escaped`: A string.
-/

namespace QubitLab

namespace Json

/-- A backslash and the letter of an escape are read as one code point. -/
theorem readUnits_escape {c : Char} {unit : Nat} (h : escape? c = some unit) (cs : List Char) :
    readUnits ('\\' :: c :: cs) = (readUnits cs).map fun p => (unit :: p.1, p.2) := by
  have hu : c ≠ 'u' := by
    rintro rfl
    exact absurd h (by simp [escape?])
  rw [readUnits, h]
  · cases readUnits cs <;> rfl
  · rintro a b c' d rest heq -
    exact hu heq

/-- Control characters have a code point of two digits. -/
theorem hexUnit?_hexChar : ∀ n : Fin 32,
    hexUnit? '0' '0' (hexChar (n / 16)) (hexChar (n % 16)) = some n.val := by decide

/-- Any other character stands for itself. -/
theorem readUnits_plain {c : Char} (hquote : c ≠ '"') (hback : c ≠ '\\') (h : ¬ c.toNat < 0x20)
    (cs : List Char) :
    readUnits (c :: cs) = (readUnits cs).map fun p => (c.toNat :: p.1, p.2) := by
  rw [readUnits, if_neg h]
  · cases readUnits cs <;> rfl
  all_goals simp_all

/-- The code point of the character is read, and then what comes behind it. -/
theorem readUnits_escaped (c : Char) (cs : List Char) :
    readUnits (escaped c ++ cs) = (readUnits cs).map fun p => (c.toNat :: p.1, p.2) := by
  unfold escaped
  split
  · exact readUnits_escape rfl cs
  · exact readUnits_escape rfl cs
  · exact readUnits_escape rfl cs
  · exact readUnits_escape rfl cs
  · exact readUnits_escape rfl cs
  · rename_i hquote hback _ _ _
    by_cases hb : c.toNat = 0x08
    · rw [if_pos hb, hb]
      exact readUnits_escape rfl cs
    by_cases hf : c.toNat = 0x0C
    · rw [if_neg hb, if_pos hf, hf]
      exact readUnits_escape rfl cs
    by_cases hcontrol : c.toNat < 0x20
    · rw [if_neg hb, if_neg hf, if_pos hcontrol]
      simp only [List.cons_append, List.nil_append]
      rw [readUnits, hexUnit?_hexChar ⟨c.toNat, hcontrol⟩]
      cases readUnits cs <;> rfl
    · rw [if_neg hb, if_neg hf, if_neg hcontrol]
      exact readUnits_plain hquote hback hcontrol cs

theorem readUnits_flatMap (cs rest : List Char) :
    readUnits (cs.flatMap escaped ++ '"' :: rest) = some (cs.map Char.toNat, rest) := by
  induction cs with
  | nil => rw [List.flatMap_nil, List.nil_append, readUnits, List.map_nil]
  | cons c cs ih =>
      rw [List.flatMap_cons, List.append_assoc, readUnits_escaped, ih]
      rfl

/-- A character is no half of a surrogate pair. -/
theorem not_surrogate (c : Char) :
    isHighSurrogate c.toNat = false ∧ isLowSurrogate c.toNat = false := by
  unfold isHighSurrogate isLowSurrogate
  rcases c.valid with h | h
  · have hlow : c.toNat < 0xD800 := h
    simp
    omega
  · have hhigh : 0xDFFF < c.toNat := h.1
    simp
    omega

theorem joinPairs_toNat (cs : List Char) : joinPairs (cs.map Char.toNat) = some cs := by
  induction cs with
  | nil => rfl
  | cons c rest ih =>
      rcases not_surrogate c with ⟨hhigh, hlow⟩
      cases rest with
      | nil =>
          simp [joinPairs, hhigh, hlow, Char.ofNat_toNat]
      | cons d rest =>
          rw [List.map_cons] at ih
          simp [joinPairs, hhigh, hlow, Char.ofNat_toNat, ih]

/-- A string reads back, whatever comes behind it. -/
theorem readString_escaped (s : String) (rest : List Char) :
    readString (s.toList.flatMap escaped ++ '"' :: rest) = some (some s, rest) := by
  rw [readString, readUnits_flatMap]
  dsimp only [Option.bind_eq_bind, Option.bind_some]
  rw [joinPairs_toNat]
  simp

end Json

end QubitLab
