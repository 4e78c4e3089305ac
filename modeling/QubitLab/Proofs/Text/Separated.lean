/-!
# Texts that can be taken apart

A text that is put together from pieces with a separator between them determines the pieces,
as long as no piece has the separator in it. What is needed of this is said here: for a piece
and what follows its separator, for a list of pieces, for a list of lines, and for the whole
numbers, whose texts have digits in them and nothing else.

It has to be known whether there are any pieces, since no piece and one empty piece make the
same text. Where each piece is ended by the separator instead, the text says that as well.

## Theorems

* `front_inj`, `append_inj`: A front part up to the first item of another kind.
* `separated_inj`: The piece up to the first separator.
* `intercalate_inj`: Pieces with separators between them.
* `endedLines_inj`, `count_endedLines`: Lines, and how many there are.
* `notMem_toString`, `toString_inj`: Whole numbers.
* `eq_of_map_eq`: A list is determined by the texts of its items when each item is.
-/

namespace QubitLab

namespace Text

section Pieces

variable {c : Char}

/-- A front part and what is behind it, when the first item behind it is of another kind. -/
theorem front_inj {α : Type} {P : α → Prop} {u v s t : List α} (hu : ∀ a ∈ u, P a)
    (hv : ∀ a ∈ v, P a) (hs : ∀ a ∈ s.head?, ¬ P a) (ht : ∀ a ∈ t.head?, ¬ P a)
    (h : u ++ s = v ++ t) : u = v ∧ s = t := by
  -- By induction on one front part. It cannot end first, since the other text would then start with
  -- an item of the wrong kind.
  induction u generalizing v with
  | nil =>
      rcases v with _ | ⟨b, v⟩
      · exact ⟨rfl, h⟩
      · exact absurd (hv b List.mem_cons_self) (hs b (congrArg List.head? h))
  | cons a u ih =>
      rcases v with _ | ⟨b, v⟩
      · exact absurd (hu a List.mem_cons_self) (ht a (congrArg List.head? h).symm)
      · rcases List.cons.inj h with ⟨rfl, hrest⟩
        rcases ih (fun c hc => hu c (List.mem_cons_of_mem a hc))
          (fun c hc => hv c (List.mem_cons_of_mem a hc)) hrest with ⟨rfl, rfl⟩
        exact ⟨rfl, rfl⟩

/-- A word in front of something that does not continue it. -/
theorem append_inj {P : Char → Prop} {u v s t : String} (hu : ∀ a ∈ u.toList, P a)
    (hv : ∀ a ∈ v.toList, P a) (hs : ∀ a ∈ s.toList.head?, ¬ P a)
    (ht : ∀ a ∈ t.toList.head?, ¬ P a) (h : u ++ s = v ++ t) : u = v ∧ s = t := by
  have hlist : u.toList ++ s.toList = v.toList ++ t.toList := by
    rw [← String.toList_append, h, String.toList_append]
  rcases front_inj hu hv hs ht hlist with ⟨hword, hrest⟩
  exact ⟨String.toList_inj.mp hword, String.toList_inj.mp hrest⟩

/-- A text determines what stands in front of the first separator, and what behind it. -/
theorem separated_inj {sep u v s t : String} (hsep : sep = String.singleton c)
    (hu : c ∉ u.toList) (hv : c ∉ v.toList) (h : u ++ (sep ++ s) = v ++ (sep ++ t)) :
    u = v ∧ s = t := by
  have hhead : ∀ w : String, ∀ a ∈ (sep ++ w).toList.head?, ¬ a ≠ c := by
    intro w a ha
    rw [hsep, String.toList_append, String.toList_singleton] at ha
    exact not_not_intro (Option.some.inj ha).symm
  rcases append_inj (P := (· ≠ c)) (fun a ha hac => hu (hac ▸ ha))
    (fun a ha hac => hv (hac ▸ ha)) (hhead s) (hhead t) h with ⟨hfront, hback⟩
  exact ⟨hfront, (String.append_right_inj sep).mp hback⟩

/-- A text determines the pieces that it is put together from, once it is known whether there
    are any. -/
theorem intercalate_inj {sep : String} (hsep : sep = String.singleton c) {us vs : List String}
    (hus : ∀ s ∈ us, c ∉ s.toList) (hvs : ∀ s ∈ vs, c ∉ s.toList) (hnil : us = [] ↔ vs = [])
    (h : sep.intercalate us = sep.intercalate vs) : us = vs := by
  subst hsep
  by_cases hu : us = []
  · rw [hu, hnil.mp hu]
  · have hsplit := String.toList_split_intercalate hus
    rw [h, String.toList_split_intercalate hvs, if_neg hu, if_neg (mt hnil.mpr hu)] at hsplit
    exact hsplit.symm

/-- A character of the whole text is in the separator or in a piece. -/
theorem mem_intercalate {sep : String} {l : List String}
    (h : c ∈ (sep.intercalate l).toList) : c ∈ sep.toList ∨ ∃ s ∈ l, c ∈ s.toList := by
  induction l with
  | nil => simp at h
  | cons s rest ih =>
      rcases rest with _ | ⟨s', rest⟩
      · exact Or.inr ⟨s, List.mem_cons_self, by simpa using h⟩
      · rw [String.intercalate_cons_cons, String.toList_append, String.toList_append,
          List.mem_append, List.mem_append] at h
        rcases h with (h | h) | h
        · exact Or.inr ⟨s, List.mem_cons_self, h⟩
        · exact Or.inl h
        · rcases ih h with h | ⟨p, hp, h⟩
          · exact Or.inl h
          · exact Or.inr ⟨p, List.mem_cons_of_mem s hp, h⟩

end Pieces

section Lines

/-- Lines that each end with a line feed are pieces between line feeds, the last one empty. -/
theorem join_endedLines (lines : List String) :
    String.join (lines.map (· ++ "\n")) = "\n".intercalate (lines ++ [""]) := by
  induction lines with
  | nil => rfl
  | cons s rest ih =>
      rw [List.map_cons, String.join_cons, ih, List.cons_append]
      rcases rest with _ | ⟨s', rest⟩
      · rfl
      · exact (String.intercalate_cons_cons).symm

/-- A text determines the lines that it ends one by one. -/
theorem endedLines_inj {us vs : List String} (hus : ∀ s ∈ us, '\n' ∉ s.toList)
    (hvs : ∀ s ∈ vs, '\n' ∉ s.toList)
    (h : String.join (us.map (· ++ "\n")) = String.join (vs.map (· ++ "\n"))) : us = vs := by
  rw [join_endedLines, join_endedLines] at h
  have hempty : '\n' ∉ "".toList := List.not_mem_nil
  refine List.append_cancel_right (intercalate_inj (c := '\n') rfl ?_ ?_ ?_ h)
  · exact List.forall_mem_append.mpr ⟨hus, List.forall_mem_singleton.mpr hempty⟩
  · exact List.forall_mem_append.mpr ⟨hvs, List.forall_mem_singleton.mpr hempty⟩
  · simp only [List.append_eq_nil_iff, List.cons_ne_nil, and_false]

/-- There are as many line feeds as lines. -/
theorem count_endedLines {lines : List String} (h : ∀ s ∈ lines, '\n' ∉ s.toList) :
    (String.join (lines.map (· ++ "\n"))).toList.count '\n' = lines.length := by
  induction lines with
  | nil => rfl
  | cons s rest ih =>
      have hrest := ih fun p hp => h p (List.mem_cons_of_mem s hp)
      have hs := List.count_eq_zero.mpr (h s List.mem_cons_self)
      rw [List.map_cons, String.join_cons, String.toList_append, String.toList_append,
        List.count_append, List.count_append, hs, hrest, List.length_cons, Nat.zero_add,
        Nat.add_comm]
      rfl

end Lines

section Numbers

theorem isDigit_of_mem_toString {n : Nat} {c : Char} (h : c ∈ (toString n).toList) :
    c.isDigit = true := by
  rw [Nat.toString_eq_repr, Nat.toList_repr] at h
  exact Nat.isDigit_of_mem_toDigits (by decide) (Nat.le_refl 10) h

theorem notMem_toString {c : Char} (hc : c.isDigit = false) (n : Nat) :
    c ∉ (toString n).toList := fun h =>
  Bool.false_ne_true (hc.symm.trans (isDigit_of_mem_toString h))

theorem toString_inj {m n : Nat} (h : toString m = toString n) : m = n := by
  have hvalue := congrArg (fun s : String => Nat.ofDigitChars 10 s.toList 0) h
  simpa only [Nat.toString_eq_repr, Nat.toList_repr, Nat.ofDigitChars_ten_toDigits] using hvalue

end Numbers

theorem eq_of_map_eq {α β : Type} {f : α → β} {P : α → Prop}
    (hf : ∀ x y, P x → P y → f x = f y → x = y) {us vs : List α} (hus : ∀ x ∈ us, P x)
    (hvs : ∀ x ∈ vs, P x) (h : us.map f = vs.map f) : us = vs := by
  induction us generalizing vs with
  | nil => exact (List.map_eq_nil_iff.mp h.symm).symm
  | cons x us ih =>
      rcases vs with _ | ⟨y, vs⟩
      · exact absurd h (List.cons_ne_nil _ _)
      · rcases List.forall_mem_cons.mp hus with ⟨hx, hus⟩
        rcases List.forall_mem_cons.mp hvs with ⟨hy, hvs⟩
        rcases List.cons.inj h with ⟨hhead, htail⟩
        rw [hf x y hx hy hhead, ih hus hvs htail]

end Text

end QubitLab
