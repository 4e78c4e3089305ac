/-!
# Snapshots

A store of values by name, with the names in ascending order. Strings are compared
character by character by code point, which is the order of their bytes.

## Main definitions

* `Snapshots`: The store.
* `Snapshots.find?`, `Snapshots.insert`: Looking up and storing.
* `Snapshots.names`: The names in ascending order.
-/

namespace QubitLab

/-- Values by name, in ascending order of the names. -/
structure Snapshots (α : Type) where
  /-- The names with their values. -/
  entries : List (String × α)
deriving Repr

namespace Snapshots

variable {α : Type}

/-- The store without a value. -/
def empty : Snapshots α := ⟨[]⟩

/-- The entries with a value put in at the place of its name. -/
def insertEntry (name : String) (a : α) : List (String × α) → List (String × α)
  | [] => [(name, a)]
  | e :: rest =>
    if name < e.1 then (name, a) :: e :: rest
    else if name = e.1 then (name, a) :: rest
    else e :: insertEntry name a rest

/-- The store with a value under a name, in the place of any value before. -/
def insert (s : Snapshots α) (name : String) (a : α) : Snapshots α :=
  ⟨insertEntry name a s.entries⟩

/-- The value under a name. -/
def find? (s : Snapshots α) (name : String) : Option α :=
  (s.entries.find? fun e => e.1 == name).map Prod.snd

/-- The names in ascending order. -/
def names (s : Snapshots α) : List String := s.entries.map Prod.fst

/-- The number of values. -/
def size (s : Snapshots α) : Nat := s.entries.length

end Snapshots

end QubitLab
