import Mathlib.Tactic.IntervalCases
import QubitLab.Proofs.Json.Numbers
import QubitLab.Proofs.Json.Strings

/-!
# Both layouts read back

The compact text of a value and its text over several lines differ in white space only, and
the reader skips white space in front of every token. What is said about the reader here is
therefore said of texts with any white space at these places, and both layouts are cases.

`Reads j cs` says that the reader gets the value `j` from the characters `cs`, whatever
follows them, as long as it does not go on with a number. The fuel of the reader need not be
more than the number of characters: an item of an array costs one call for itself and one
for the list, and it has a comma or a bracket behind it.

A string literal may stand for no text, and such a string cannot be written. `Textual` are the
values without any.

## Main definitions

* `Json.Blank`: White space.
* `Json.Reads`: The characters read back as a value.
* `Json.ReadsItems`, `Json.ReadsMembers`: What is between brackets.
* `Json.Textual`: A value all of whose strings stand for a text.

## Theorems

* `reads_number`, `reads_string`, `reads_array`, `reads_object`: The readings of the reader.
* `readsItems_of_layout`, `readsMembers_of_layout`: Any layout with commas.
* `read_compact`, `read_spread`: The two layouts.
-/

namespace QubitLab

namespace Json

section Blanks

/-- White space only. -/
def Blank (cs : List Char) : Prop := ∀ c ∈ cs, isSeparator c = true

theorem blank_nil : Blank [] := fun _ h => absurd h List.not_mem_nil

theorem blank_space : Blank [' '] := by
  intro c hc
  rw [List.mem_singleton.mp hc]
  rfl

theorem blank_lineStart (level : Nat) : Blank (lineStart level) := by
  intro c hc
  rcases List.mem_cons.mp hc with rfl | hc
  · rfl
  · rw [List.eq_of_mem_replicate hc]
    rfl

/-- White space in front of a text is skipped with whatever white space it starts with. -/
theorem skipBlanks_append {b : List Char} (hb : Blank b) (cs : List Char) :
    skipBlanks (b ++ cs) = skipBlanks cs := by
  induction b with
  | nil => rfl
  | cons c b ih =>
      unfold skipBlanks at ih ⊢
      rw [List.cons_append, List.dropWhile_cons, if_pos (hb c List.mem_cons_self)]
      exact ih fun d hd => hb d (List.mem_cons_of_mem c hd)

/-- Nothing is skipped in front of a character that is no white space. -/
theorem skipBlanks_cons {c : Char} (hc : isSeparator c = false) (cs : List Char) :
    skipBlanks (c :: cs) = c :: cs := by
  unfold skipBlanks
  rw [List.dropWhile_cons, if_neg (by rw [hc]; exact Bool.false_ne_true)]

theorem skipBlanks_skipBlanks (cs : List Char) : skipBlanks (skipBlanks cs) = skipBlanks cs := by
  induction cs with
  | nil => rfl
  | cons c cs ih =>
      by_cases hc : isSeparator c = true
      · have hskip : skipBlanks (c :: cs) = skipBlanks cs :=
          skipBlanks_append (b := [c]) (fun d hd => List.mem_singleton.mp hd ▸ hc) cs
        rw [hskip, ih]
      · rw [skipBlanks_cons (Bool.not_eq_true _ ▸ hc), skipBlanks_cons (Bool.not_eq_true _ ▸ hc)]

/-- White space delimits, and so does what delimits behind it. -/
theorem delimited_blank {b cs : List Char} (hb : Blank b) (hcs : Delimited cs) :
    Delimited (b ++ cs) := by
  cases b with
  | nil => exact hcs
  | cons c b =>
      intro d hd
      rw [← Option.some.inj hd]
      exact Or.inl (hb c List.mem_cons_self)

theorem delimited_nil : Delimited [] := fun _ h => absurd h (by simp)

theorem delimited_comma (cs : List Char) : Delimited (',' :: cs) :=
  fun _ h => Or.inr (Or.inl (Option.some.inj h).symm)

theorem delimited_bracket (cs : List Char) : Delimited (']' :: cs) :=
  fun _ h => Or.inr (Or.inr (Or.inl (Option.some.inj h).symm))

theorem delimited_brace (cs : List Char) : Delimited ('}' :: cs) :=
  fun _ h => Or.inr (Or.inr (Or.inr (Option.some.inj h).symm))

end Blanks

section Values

/-- The characters read back as the value, in front of whatever does not go on with them. -/
def Reads (j : Json) (cs : List Char) : Prop :=
  ∀ fuel rest, cs.length ≤ fuel → Delimited rest → readValue fuel (cs ++ rest) = some (j, rest)

/-- White space in front of a value is skipped. -/
theorem readValue_skipBlanks (fuel : Nat) (cs : List Char) :
    readValue fuel (skipBlanks cs) = readValue fuel cs := by
  cases fuel with
  | zero => rfl
  | succ fuel => rw [readValue, readValue, skipBlanks_skipBlanks]

/-- A value reads back behind white space. -/
theorem reads_blank {j : Json} {b cs : List Char} (hb : Blank b) (h : Reads j cs) :
    Reads j (b ++ cs) := by
  intro fuel rest hfuel hrest
  rw [List.length_append] at hfuel
  rw [List.append_assoc, ← readValue_skipBlanks, skipBlanks_append hb, readValue_skipBlanks]
  exact h fuel rest (by omega) hrest

/-- The first character of a value pays for the call that reads it. -/
theorem reads_of_cons {j : Json} {c : Char} {cs : List Char}
    (h : ∀ fuel rest, cs.length ≤ fuel → Delimited rest →
      readValue (fuel + 1) (c :: (cs ++ rest)) = some (j, rest)) : Reads j (c :: cs) := by
  intro fuel rest hfuel hrest
  cases fuel with
  | zero => exact absurd hfuel (by simp)
  | succ fuel => exact h fuel rest (Nat.le_of_succ_le_succ hfuel) hrest

theorem reads_null : Reads .null "null".toList := reads_of_cons fun _ _ _ _ => rfl

theorem reads_bool (b : Bool) : Reads (.bool b) (truthChars b) := by
  cases b <;> exact reads_of_cons fun _ _ _ _ => rfl

/-- A string reads back from its quoted text. -/
theorem reads_string (s : String) : Reads (.string (some s)) (quoted s) := by
  rw [quoted, List.cons_append]
  refine reads_of_cons fun fuel rest _ _ => ?_
  rw [List.append_assoc]
  change (readString (s.toList.flatMap escaped ++ '"' :: rest)).bind _ = _
  rw [readString_escaped]
  rfl

/-- A number starts with a sign or a digit, and nothing else does. -/
theorem readValue_number (fuel : Nat) {c : Char} (hc : c = '-' ∨ ∃ d, c = digitChar d)
    (cs : List Char) :
    readValue (fuel + 1) (c :: cs) = (readNumber (c :: cs)).map fun p => (.number p.1, p.2) := by
  have hbind : ∀ o : Option (Number × List Char),
      (o.bind fun p => some (Json.number p.1, p.2)) = o.map fun p => (.number p.1, p.2) := by
    intro o
    cases o <;> rfl
  rw [← hbind]
  rcases hc with rfl | ⟨d, rfl⟩
  · rfl
  · rcases d with ⟨d, hd⟩
    interval_cases d <;> rfl

/-- A number reads back from its text, in front of what delimits it. -/
theorem reads_number (n : Number) : Reads (.number n) n.text.toList := by
  -- The reader chooses by the first character, which is a sign or the first digit.
  have hhead : ∃ c cs, n.text.toList = c :: cs ∧ (c = '-' ∨ ∃ d, c = digitChar d) := by
    rw [Number.toList_text]
    rcases exists_digits n.whole with ⟨d, ds, hds, -⟩
    cases n.negative with
    | true => exact ⟨'-', _, rfl, Or.inl rfl⟩
    | false => exact ⟨digitChar d, _, by rw [hds]; rfl, Or.inr ⟨d, rfl⟩⟩
  rcases hhead with ⟨c, cs, htext, hc⟩
  rw [htext]
  refine reads_of_cons fun fuel rest _ hrest => ?_
  have hread := readNumber_text n hrest
  rw [htext, List.cons_append] at hread
  rw [readValue_number fuel hc, hread]
  rfl

end Values

section Brackets

/-- The characters of items, without the brackets. -/
def ReadsItems (items : List Json) (cs : List Char) : Prop :=
  ∀ fuel b rest, Blank b → cs.length ≤ fuel →
    readItems (fuel + 1) (cs ++ (b ++ ']' :: rest)) = some (items, rest)

/-- The characters of members, without the braces. -/
def ReadsMembers (members : List (Option String × Json)) (cs : List Char) : Prop :=
  ∀ fuel b rest, Blank b → cs.length ≤ fuel →
    readMembers (fuel + 1) (cs ++ (b ++ '}' :: rest)) = some (members, rest)

variable {j : Json} {cs ds b : List Char}

/-- A value is no closing bracket. -/
theorem readValue_bracket (fuel : Nat) (cs : List Char) : readValue fuel (']' :: cs) = none := by
  cases fuel <;> rfl

/-- The reader of an array looks for a closing bracket first. Where it has items, it goes on
    behind the white space. -/
theorem readValue_array {fuel : Nat} {items : List Json} {rest : List Char}
    (h : readItems fuel cs = some (items, rest)) :
    readValue (fuel + 1) ('[' :: cs) = some (.array items, rest) := by
  -- The bracket is looked for behind white space, and the items are read in front of it.
  have hskip : readItems fuel (skipBlanks cs) = readItems fuel cs := by
    cases fuel with
    | zero => rfl
    | succ fuel => rw [readItems, readItems, readValue_skipBlanks]
  rw [← hskip] at h
  rw [readValue, skipBlanks_cons rfl]
  simp only [Option.bind_eq_bind]
  generalize skipBlanks cs = ds at h ⊢
  cases ds with
  | nil =>
      change (readItems fuel []).bind _ = _
      rw [h]
      rfl
  | cons c ds =>
      by_cases hbracket : c = ']'
      · -- A closing bracket starts no item, so the items were not read there.
        subst hbracket
        cases fuel with
        | zero => exact absurd h (by simp [readItems])
        | succ fuel => exact absurd h (by simp [readItems, readValue_bracket])
      · simp [hbracket, h]

/-- Items between brackets read back as an array, with white space in front of the last bracket. -/
theorem reads_array {items : List Json} (h : ReadsItems items cs) (hb : Blank b) :
    Reads (.array items) ('[' :: (cs ++ (b ++ [']']))) := by
  refine reads_of_cons fun fuel rest hfuel _ => ?_
  simp only [List.length_append, List.length_singleton] at hfuel
  -- The call for the list of items is paid for by the closing bracket.
  obtain ⟨fuel, rfl⟩ := Nat.exists_eq_add_of_le' (show 1 ≤ fuel by omega)
  simp only [List.append_assoc, List.cons_append, List.nil_append]
  exact readValue_array (h fuel b rest hb (by omega))

theorem reads_array_nil : Reads (.array []) ['[', ']'] := reads_of_cons fun _ _ _ _ => rfl

/-- A single item is followed by the closing bracket. -/
theorem readsItems_single (h : Reads j cs) : ReadsItems [j] cs := by
  intro fuel b rest hb hfuel
  have hread := h fuel _ hfuel (delimited_blank hb (delimited_bracket rest))
  rw [readItems, hread]
  dsimp only [Option.bind_eq_bind, Option.bind_some]
  rw [skipBlanks_append hb, skipBlanks_cons rfl]
  rfl

/-- An item is followed by a comma and the other items. -/
theorem readsItems_cons {items : List Json} (h : Reads j cs) (hitems : ReadsItems items ds) :
    ReadsItems (j :: items) (cs ++ ',' :: ds) := by
  intro fuel b rest hb hfuel
  rw [List.length_append, List.length_cons] at hfuel
  -- The comma pays for the call that reads the other items.
  obtain ⟨fuel, rfl⟩ := Nat.exists_eq_add_of_le' (show 1 ≤ fuel by omega)
  have hread := h (fuel + 1) (',' :: (ds ++ (b ++ ']' :: rest))) (by omega) (delimited_comma _)
  rw [List.append_assoc, List.cons_append, readItems, hread]
  dsimp only [Option.bind_eq_bind, Option.bind_some]
  rw [skipBlanks_cons rfl]
  change (readItems (fuel + 1) _).bind _ = _
  rw [hitems fuel b rest hb (by omega)]
  rfl

/-- A member is no closing brace. -/
theorem readMembers_brace (fuel : Nat) (cs : List Char) :
    readMembers fuel ('}' :: cs) = none := by
  cases fuel <;> rfl

/-- The reader of an object looks for a closing brace first. -/
theorem readValue_object {fuel : Nat} {members : List (Option String × Json)}
    {rest : List Char} (h : readMembers fuel cs = some (members, rest)) :
    readValue (fuel + 1) ('{' :: cs) = some (.object members, rest) := by
  have hskip : readMembers fuel (skipBlanks cs) = readMembers fuel cs := by
    cases fuel with
    | zero => rfl
    | succ fuel => rw [readMembers, readMembers, skipBlanks_skipBlanks]
  rw [← hskip] at h
  rw [readValue, skipBlanks_cons rfl]
  simp only [Option.bind_eq_bind]
  generalize skipBlanks cs = ds at h ⊢
  cases ds with
  | nil =>
      change (readMembers fuel []).bind _ = _
      rw [h]
      rfl
  | cons c ds =>
      by_cases hbrace : c = '}'
      · subst hbrace
        exact absurd ((readMembers_brace _ _).symm.trans h) (by simp)
      · simp [hbrace, h]

/-- Members between braces read back as an object, with white space in front of the last brace. -/
theorem reads_object {members : List (Option String × Json)} (h : ReadsMembers members cs)
    (hb : Blank b) : Reads (.object members) ('{' :: (cs ++ (b ++ ['}']))) := by
  refine reads_of_cons fun fuel rest hfuel _ => ?_
  simp only [List.length_append, List.length_singleton] at hfuel
  obtain ⟨fuel, rfl⟩ := Nat.exists_eq_add_of_le' (show 1 ≤ fuel by omega)
  simp only [List.append_assoc, List.cons_append, List.nil_append]
  exact readValue_object (h fuel b rest hb (by omega))

theorem reads_object_nil : Reads (.object []) ['{', '}'] := reads_of_cons fun _ _ _ _ => rfl

/-- A member in front of a comma or a closing brace. -/
theorem readMembers_member {fuel : Nat} {rest : List Char} (hb : Blank b) (key : String)
    (h : Reads j cs) (hfuel : cs.length ≤ fuel) (hrest : Delimited rest) :
    readMembers (fuel + 1) (b ++ (quoted key ++ ':' :: (cs ++ rest))) =
      match skipBlanks rest with
      | ',' :: rest => (readMembers fuel rest).map fun p => ((some key, j) :: p.1, p.2)
      | '}' :: rest => some ([(some key, j)], rest)
      | _ => none := by
  -- The name, the colon and the value are read one after the other.
  have hkey := readString_escaped key (':' :: (cs ++ rest))
  have hvalue := h fuel rest hfuel hrest
  rw [readMembers, skipBlanks_append hb]
  simp only [quoted, List.cons_append, List.append_assoc, List.nil_append]
  rw [skipBlanks_cons rfl]
  change (readString _).bind _ = _
  rw [hkey]
  dsimp only [Option.bind_some]
  rw [skipBlanks_cons rfl]
  change (readValue fuel (cs ++ rest)).bind _ = _
  rw [hvalue]
  dsimp only [Option.bind_some]
  -- The reader chooses by the character behind the value.
  generalize skipBlanks rest = behind
  cases behind with
  | nil => rfl
  | cons c tail =>
      by_cases hcomma : c = ','
      · subst hcomma
        change (readMembers fuel tail).bind _ = (readMembers fuel tail).map _
        cases readMembers fuel tail <;> rfl
      · by_cases hbrace : c = '}'
        · subst hbrace
          rfl
        · simp [hcomma, hbrace]

/-- A single member is followed by the closing brace. -/
theorem readsMembers_single (hb : Blank b) (key : String) (h : Reads j cs) :
    ReadsMembers [(some key, j)] (b ++ (quoted key ++ ':' :: cs)) := by
  intro fuel b' rest hb' hfuel
  simp only [List.length_append, List.length_cons] at hfuel
  simp only [List.append_assoc, List.cons_append]
  rw [readMembers_member hb key h (by omega) (delimited_blank hb' (delimited_brace rest)),
    skipBlanks_append hb', skipBlanks_cons rfl]
  rfl

/-- A member is followed by a comma and the other members. -/
theorem readsMembers_cons {members : List (Option String × Json)} (hb : Blank b) (key : String)
    (h : Reads j cs) (hmembers : ReadsMembers members ds) :
    ReadsMembers ((some key, j) :: members) (b ++ (quoted key ++ ':' :: (cs ++ ',' :: ds))) := by
  intro fuel b' rest hb' hfuel
  simp only [List.length_append, List.length_cons] at hfuel
  obtain ⟨fuel, rfl⟩ := Nat.exists_eq_add_of_le' (show 1 ≤ fuel by omega)
  simp only [List.append_assoc, List.cons_append]
  rw [readMembers_member hb key h (by omega) (delimited_comma _), skipBlanks_cons rfl]
  change (readMembers (fuel + 1) _).map _ = _
  rw [hmembers fuel b' rest hb' (by omega)]
  rfl

end Brackets

section Layouts

/-- Items with commas between them, in whatever layout each of them is. -/
theorem readsItems_of_layout (chars : Json → List Char) (joined : List Json → List Char)
    (hone : ∀ j, joined [j] = chars j)
    (hmore : ∀ j k rest, joined (j :: k :: rest) = chars j ++ ',' :: joined (k :: rest))
    {items : List Json} (hne : items ≠ []) (h : ∀ j ∈ items, Reads j (chars j)) :
    ReadsItems items (joined items) := by
  induction items with
  | nil => exact absurd rfl hne
  | cons j items ih =>
      have hj := h j List.mem_cons_self
      cases items with
      | nil => exact hone j ▸ readsItems_single hj
      | cons k rest =>
          rw [hmore]
          exact readsItems_cons hj
            (ih (List.cons_ne_nil k rest) fun x hx => h x (List.mem_cons_of_mem j hx))

/-- Members with commas between them, each behind the same white space. -/
theorem readsMembers_of_layout {b : List Char} (hb : Blank b) (chars : Json → List Char)
    (joined : List (Option String × Json) → List Char)
    (hone : ∀ key j, joined [(some key, j)] = b ++ (quoted key ++ ':' :: chars j))
    (hmore : ∀ key j m rest, joined ((some key, j) :: m :: rest)
      = b ++ (quoted key ++ ':' :: (chars j ++ ',' :: joined (m :: rest))))
    {members : List (Option String × Json)} (hne : members ≠ [])
    (hkeys : ∀ m ∈ members, ∃ key, m.1 = some key) (h : ∀ m ∈ members, Reads m.2 (chars m.2)) :
    ReadsMembers members (joined members) := by
  induction members with
  | nil => exact absurd rfl hne
  | cons m members ih =>
      rcases m with ⟨content, j⟩
      obtain ⟨key, rfl⟩ : ∃ key, content = some key := hkeys _ List.mem_cons_self
      have hj : Reads j (chars j) := h _ List.mem_cons_self
      cases members with
      | nil =>
          rw [hone]
          exact readsMembers_single hb key hj
      | cons m rest =>
          rw [hmore]
          exact readsMembers_cons hb key hj (ih (List.cons_ne_nil m rest)
            (fun x hx => hkeys x (List.mem_cons_of_mem _ hx))
            fun x hx => h x (List.mem_cons_of_mem _ hx))

/-- All strings in the value stand for texts. -/
inductive Textual : Json → Prop
  /-- The value `null`. -/
  | null : Textual .null
  /-- A truth value. -/
  | bool (b : Bool) : Textual (.bool b)
  /-- A number. -/
  | number (n : Number) : Textual (.number n)
  /-- A string with a content. -/
  | string (s : String) : Textual (.string (some s))
  /-- An array of such values. -/
  | array {items : List Json} : (∀ j ∈ items, Textual j) → Textual (.array items)
  /-- An object of such values under such names. -/
  | object {members : List (Option String × Json)} : (∀ m ∈ members, ∃ key, m.1 = some key) →
      (∀ m ∈ members, Textual m.2) → Textual (.object members)

variable {j : Json}

/-- The compact text reads back, by induction on the value. -/
theorem reads_compact (h : Textual j) : Reads j (compactChars j) := by
  induction h with
  | null => exact reads_null
  | bool b => exact reads_bool b
  | number n => exact reads_number n
  | string s => exact reads_string s
  | @array items _ ih =>
      cases items with
      | nil => exact reads_array_nil
      | cons j items =>
          have hitems := readsItems_of_layout compactChars compactItems (fun _ => rfl)
            (fun _ _ _ => rfl) (List.cons_ne_nil j items) ih
          exact reads_array hitems blank_nil
  | @object members hkeys _ ih =>
      cases members with
      | nil => exact reads_object_nil
      | cons m members =>
          have hmembers := readsMembers_of_layout blank_nil compactChars compactMembers
            (fun _ _ => rfl) (fun _ _ _ _ => rfl) (List.cons_ne_nil m members) hkeys ih
          exact reads_object hmembers blank_nil

/-- The text over several lines reads back, at every depth of indentation. -/
theorem reads_spread (h : Textual j) (level : Nat) : Reads j (spreadChars level j) := by
  -- The items of a value are one level deeper than the value.
  induction h generalizing level with
  | null => exact reads_null
  | bool b => exact reads_bool b
  | number n => exact reads_number n
  | string s => exact reads_string s
  | @array items _ ih =>
      cases items with
      | nil => exact reads_array_nil
      | cons j items =>
          have hitems := readsItems_of_layout
            (fun k => lineStart (level + 1) ++ spreadChars (level + 1) k) (spreadItems (level + 1))
            (fun _ => rfl) (fun _ _ _ => rfl) (List.cons_ne_nil j items)
            fun k hk => reads_blank (blank_lineStart (level + 1)) (ih k hk (level + 1))
          have harray := reads_array hitems (blank_lineStart level)
          rw [spreadChars]
          simpa only [List.cons_append, List.append_assoc] using harray
  | @object members hkeys _ ih =>
      cases members with
      | nil => exact reads_object_nil
      | cons m members =>
          have hmembers := readsMembers_of_layout (blank_lineStart (level + 1))
            (fun k => ' ' :: spreadChars (level + 1) k) (spreadMembers (level + 1))
            (fun key k => by simp [spreadMembers, quotedContent])
            (fun key k n rest => by simp [spreadMembers, quotedContent])
            (List.cons_ne_nil m members) hkeys
            fun k hk => reads_blank blank_space (ih k hk (level + 1))
          have hobject := reads_object hmembers (blank_lineStart level)
          rw [spreadChars]
          simpa only [List.cons_append, List.append_assoc] using hobject

/-- A text that is one value and nothing else. -/
theorem read_of_reads {cs : List Char} (h : Reads j cs) : read (String.ofList cs) = some j := by
  have hread := h (2 * cs.length + 2) [] (by omega) delimited_nil
  rw [List.append_nil] at hread
  rw [read, String.toList_ofList, hread]
  rfl

/-- The compact text of a value is read as the value. -/
theorem read_compact (h : Textual j) : read j.compact = some j := read_of_reads (reads_compact h)

/-- The text of a value over several lines is read as the value. -/
theorem read_spread (h : Textual j) : read j.spread = some j := read_of_reads (reads_spread h 0)

end Layouts

end Json

end QubitLab
