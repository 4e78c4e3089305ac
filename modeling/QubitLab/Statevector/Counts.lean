/-!
# Counts of outcomes

How often each outcome came up, in the order in which they came up first.

## Main definitions

* `Counts`: The counts.
* `Counts.add`: One more of an outcome.
* `Counts.count`: How often an outcome came up.
-/

namespace QubitLab

/-- How often each outcome came up. -/
structure Counts where
  /-- The outcomes with their counts, in the order in which they came up first. -/
  entries : List (String × Nat)
deriving Repr, DecidableEq

namespace Counts

/-- No outcome at all. -/
def empty : Counts := ⟨[]⟩

/-- The entries with one more of an outcome. -/
def addEntry (key : String) : List (String × Nat) → List (String × Nat)
  | [] => [(key, 1)]
  | e :: rest => if e.1 = key then (key, e.2 + 1) :: rest else e :: addEntry key rest

/-- The counts with one more of an outcome. -/
def add (c : Counts) (key : String) : Counts := ⟨addEntry key c.entries⟩

/-- How often an outcome came up. -/
def count (c : Counts) (key : String) : Nat :=
  match c.entries.find? fun e => e.1 == key with
  | some e => e.2
  | none => 0

/-- The number of outcomes altogether. -/
def total (c : Counts) : Nat := (c.entries.map Prod.snd).foldr (· + ·) 0

end Counts

end QubitLab
