import QubitLab.Circuit.Stored
import QubitLab.Json.Real
import QubitLab.Json.Shape
import QubitLab.Proofs.Json.Layouts

/-!
# Shapes that are written and read

Each shape that a reader expects is written by somebody, and the two have to fit. `Recovers`
says that they do: a JSON value can be written as a text, and it is read as the value that it
was written for. The rules below say so of a shape as soon as it holds of its parts, so that
a type of stored values has only to name its fields.

Numbers are where this can fail. A whole number has to fit into a word. A scalar has to have
a literal that is read as the same scalar, and this is a matter of the scalars and of the
format of their literals. `ReadsBack` asks it of one scalar, since a format may be exact for
some of them only.

## Main definitions

* `Json.Recovers`: A JSON value can be written, and is read as a given value.
* `Json.ReadsBack`: The literal of a scalar is read as this scalar.

## Theorems

* `recovers_natural`, `recovers_real`, `recovers_text`, `recovers_truth`: The plain shapes.
* `recovers_list`, `recovers_pair`, `recovers_some`: Shapes with parts.
* `recovers_record`: Records, from what is read of their fields.
* `decode_compact`, `decode_spread`: Texts of values that can be recovered.
-/

namespace QubitLab

namespace Json

/-- The JSON value can be written as a text, and the reader takes it for the value `a`. -/
structure Recovers {α : Type} (value? : Json → Option α) (j : Json) (a : α) : Prop where
  /-- All of its strings can be written. -/
  textual : Textual j
  /-- It is read as `a`. -/
  read : value? j = some a

section Plain

/-- A whole number is recovered when it is a word. -/
theorem recovers_natural {n : Nat} (h : n < wordLimit) : Recovers natural? (ofNat n) n :=
  ⟨.number _, if_pos h⟩

theorem recovers_truth (b : Bool) : Recovers truth? (.bool b) b := ⟨.bool b, rfl⟩

theorem recovers_text (s : String) : Recovers text? (text s) s := ⟨.string s, rfl⟩

/-- A name out of a list, under which its value is found again. -/
theorem recovers_name {α : Type} {ofName? : String → Option α} {name : String} {a : α}
    (h : ofName? name = some a) : Recovers (fun j => do ofName? (← name? j)) (text name) a :=
  ⟨.string name, h⟩

variable {R : Type} [RealText R]

/-- The literal of the scalar is read as the scalar. -/
def ReadsBack (x : R) : Prop := (RealText.literal? x).bind RealText.ofLiteral? = some x

instance [DecidableEq R] (x : R) : Decidable (ReadsBack x) :=
  inferInstanceAs (Decidable (_ = some x))

/-- A scalar is recovered when its literal is. -/
theorem recovers_real {x : R} (h : ReadsBack x) : Recovers real? (ofReal x) x := by
  unfold ReadsBack at h
  unfold ofReal
  -- A scalar without a literal is written as `null`, which is not read as a scalar.
  cases hliteral : RealText.literal? x with
  | none =>
      rw [hliteral] at h
      exact absurd h (by simp)
  | some n =>
      rw [hliteral] at h
      exact ⟨.number n, h⟩

end Plain

section Parts

variable {α β : Type}

theorem mapM_map_eq_some {f : Json → Option α} {g : α → Json} {l : List α}
    (h : ∀ a ∈ l, f (g a) = some a) : (l.map g).mapM f = some l := by
  induction l with
  | nil => rfl
  | cons a l ih =>
      rw [List.map_cons, List.mapM_cons, h a List.mem_cons_self,
        ih fun b hb => h b (List.mem_cons_of_mem a hb)]
      rfl

/-- A list is recovered from its items. -/
theorem recovers_list {item? : Json → Option α} {toJson : α → Json} {l : List α}
    (h : ∀ a ∈ l, Recovers item? (toJson a) a) :
    Recovers (list? item?) (.array (l.map toJson)) l := by
  refine ⟨.array fun j hj => ?_, mapM_map_eq_some fun a ha => (h a ha).read⟩
  rcases List.mem_map.mp hj with ⟨a, ha, rfl⟩
  exact (h a ha).textual

/-- A pair is an array of two. -/
theorem recovers_pair {first? : Json → Option α} {second? : Json → Option β} {i j : Json} {a : α}
    {b : β} (ha : Recovers first? i a) (hb : Recovers second? j b) :
    Recovers (pair? first? second?) (.array [i, j]) (a, b) := by
  refine ⟨.array fun k hk => ?_, ?_⟩
  · rcases List.mem_cons.mp hk with rfl | hk
    · exact ha.textual
    · rw [List.mem_singleton.mp hk]
      exact hb.textual
  · rw [pair?, ha.read, hb.read]
    rfl

theorem recovers_none (value? : Json → Option α) : Recovers (optional? value?) .null none :=
  ⟨.null, rfl⟩

/-- A value that is present must not be written as `null`. -/
theorem recovers_some {value? : Json → Option α} {j : Json} {a : α} (h : Recovers value? j a)
    (hne : j ≠ .null) : Recovers (optional? value?) j (some a) := by
  refine ⟨h.textual, ?_⟩
  have hmap : optional? value? j = (value? j).map some := by
    cases j with
    | null => exact absurd rfl hne
    | _ => rfl
  rw [hmap, h.read]
  rfl

end Parts

section Fields

variable {α : Type} (value? : Json → Option α) (default : α) (j : Json)

@[simp] theorem required?_some : required? value? (some j) = value? j := rfl

@[simp] theorem withDefault?_some : withDefault? value? default (some j) = value? j := rfl

@[simp] theorem withDefault?_none : withDefault? value? default none = some default := rfl

end Fields

section Records

variable {members : List (String × Json)}

/-- A record can be written when its fields can, since its names are texts. -/
theorem textual_record (h : ∀ m ∈ members, Textual m.2) : Textual (record members) := by
  refine .object (fun m hm => ?_) fun m hm => ?_
  · rcases List.mem_map.mp hm with ⟨p, -, rfl⟩
    exact ⟨p.1, rfl⟩
  · rcases List.mem_map.mp hm with ⟨p, hp, rfl⟩
    exact h p hp

/-- All members of a record have a name. -/
theorem namedMembers?_record :
    namedMembers? (members.map fun m => (some m.1, m.2)) = some members := by
  unfold namedMembers?
  induction members with
  | nil => rfl
  | cons m rest ih =>
      rw [List.map_cons, List.mapM_cons, ih]
      rfl

/-- Where no name comes twice, the only member of a name is the first one. -/
theorem onlyMember?_eq (h : (members.map Prod.fst).Nodup) (key : String) :
    onlyMember? members key = some (List.lookup key members) := by
  induction members with
  | nil => rfl
  | cons m rest ih =>
      rw [List.map_cons, List.nodup_cons] at h
      by_cases hkey : m.1 = key
      · -- No other member has the name, so the rest contributes nothing.
        have hrest : rest.filter (fun p => p.1 == key) = [] := by
          rw [List.filter_eq_nil_iff]
          intro p hp
          rw [beq_iff_eq]
          rintro rfl
          exact h.1 (hkey ▸ List.mem_map_of_mem hp)
        subst hkey
        rw [onlyMember?, List.filter_cons_of_pos (by simp), hrest, List.lookup_cons,
          beq_self_eq_true]
      · have hcons := ih h.2
        unfold onlyMember? at hcons ⊢
        rw [List.filter_cons_of_neg (by simpa using hkey), hcons, List.lookup_cons,
          beq_eq_false_iff_ne.mpr (Ne.symm hkey)]

/-- A field is there when there is a member of its name. -/
theorem fields?_record (h : (members.map Prod.fst).Nodup) (names : List String) :
    fields? names (record members) = some (names.map fun name => List.lookup name members) := by
  -- The fields are looked up one after the other, each under its own name.
  have hnames : names.mapM (onlyMember? members)
      = some (names.map fun name => List.lookup name members) := by
    induction names with
    | nil => rfl
    | cons name names ih =>
        rw [List.mapM_cons, onlyMember?_eq h, ih]
        rfl
  change (namedMembers? (members.map fun m => (some m.1, m.2))).bind _ = _
  rw [namedMembers?_record]
  exact hnames

/-- A record recovers what is read from its fields. -/
theorem recovers_record {α : Type} {names : List String} {read : List (Option Json) → Option α}
    {a : α} (hnames : (members.map Prod.fst).Nodup) (htextual : ∀ m ∈ members, Textual m.2)
    (hread : read (names.map fun name => List.lookup name members) = some a) :
    Recovers (fun j => do read (← fields? names j)) (record members) a := by
  refine ⟨textual_record htextual, ?_⟩
  rw [fields?_record hnames]
  exact hread

end Records

section Texts

variable {R α : Type} {value? : Json → Option α} {j : Json} {a : α}

/-- A value is read back from its text on one line, by what checks it afterwards. -/
theorem decode_compact (h : Recovers value? j a) :
    decode value? j.compact = (.ok a : Except (Error R) α) := by
  unfold decode
  rw [read_compact h.textual]
  dsimp only
  rw [h.read]

/-- A value is read back from its text over several lines. -/
theorem decode_spread (h : Recovers value? j a) :
    decode value? j.spread = (.ok a : Except (Error R) α) := by
  unfold decode
  rw [read_spread h.textual]
  dsimp only
  rw [h.read]

end Texts

end Json

end QubitLab
