import Mathlib.Data.String.Basic
import QubitLab.Statevector.Snapshots

/-!
# Snapshots as a table

The store of the snapshots is a list in the order of the names. For its users it is a table:
what is put in under a name is found under it, and nothing else changes. That the names are
in strictly ascending order is kept by every insertion, so no name occurs twice.

## Main definitions

* `Snapshots.Sorted`: The names are in strictly ascending order.

## Theorems

* `find?_insert`: What is found after an insertion.
* `sorted_insert`: The order is kept.
* `mem_names`: The names are those under which something is found.
-/

namespace QubitLab

namespace Snapshots

variable {α : Type} {s : Snapshots α}

/-- What is put in is found under its name, and nothing else changes. -/
theorem find?_insert (s : Snapshots α) (name : String) (a : α) (key : String) :
    (s.insert name a).find? key = if name = key then some a else s.find? key := by
  unfold insert find?
  induction s.entries with
  | nil => by_cases h : name = key <;> simp [insertEntry, h]
  | cons e rest ih =>
      rw [insertEntry]
      -- The entry goes in front of the first one, takes its place, or goes behind it.
      split_ifs with hlt heq <;> by_cases h : name = key <;> by_cases he : e.1 = key <;>
        simp_all

/-- An entry is the new one or was there before. -/
theorem mem_insertEntry {name : String} {a : α} {e : String × α} {l : List (String × α)}
    (h : e ∈ insertEntry name a l) : e = (name, a) ∨ e ∈ l := by
  induction l with
  | nil => exact Or.inl (List.mem_singleton.mp h)
  | cons x rest ih =>
      rw [insertEntry] at h
      split_ifs at h
      · exact List.mem_cons.mp h
      · exact (List.mem_cons.mp h).imp_right (List.mem_cons_of_mem x)
      · rcases List.mem_cons.mp h with rfl | h
        · exact Or.inr List.mem_cons_self
        · exact (ih h).imp_right (List.mem_cons_of_mem x)

/-- The entries are in strictly ascending order of their names. -/
def Sorted (s : Snapshots α) : Prop := s.entries.Pairwise fun e f => e.1 < f.1

/-- The names are listed in strictly ascending order. -/
theorem Sorted.names (hs : s.Sorted) : s.names.Pairwise (· < ·) := List.pairwise_map.mpr hs

/-- An insertion keeps the order. -/
theorem sorted_insert (hs : s.Sorted) (name : String) (a : α) : (s.insert name a).Sorted := by
  rcases s with ⟨entries⟩
  unfold Sorted insert at *
  induction entries with
  | nil => exact List.pairwise_singleton _ _
  | cons e rest ih =>
      rcases List.pairwise_cons.mp hs with ⟨hfirst, hrest⟩
      rw [insertEntry]
      split_ifs with hlt heq
      · refine List.pairwise_cons.mpr ⟨fun f hf => ?_, hs⟩
        rcases List.mem_cons.mp hf with rfl | hf
        · exact hlt
        · exact lt_trans hlt (hfirst f hf)
      · exact List.pairwise_cons.mpr ⟨fun f hf => heq ▸ hfirst f hf, hrest⟩
      · -- The name comes behind the first entry, so that one stays in front.
        have hgt : e.1 < name := lt_of_le_of_ne (not_lt.mp hlt) (Ne.symm heq)
        refine List.pairwise_cons.mpr ⟨fun f hf => ?_, ih hrest⟩
        rcases mem_insertEntry hf with rfl | hf
        · exact hgt
        · exact hfirst f hf

/-- The names are those under which something is found. -/
theorem mem_names {name : String} : name ∈ s.names ↔ ∃ a, s.find? name = some a := by
  unfold names find?
  induction s.entries with
  | nil => simp
  | cons e rest ih =>
      by_cases he : e.1 = name
      · simp [he]
      · simp only [List.map_cons, List.mem_cons, Ne.symm he, false_or, ih, List.find?_cons,
          beq_eq_false_iff_ne.mpr he]

end Snapshots

end QubitLab
