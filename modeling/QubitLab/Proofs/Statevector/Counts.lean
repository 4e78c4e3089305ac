import Mathlib.Data.List.Nodup
import QubitLab.Statevector.Counts

/-!
# Counting outcomes one by one

What is left of outcomes that are counted one after the other is how often each of them came
up. Counting looks for the entry of an outcome and adds a new one only where there is none,
so no outcome has two entries, and a count is never split over several of them.

## Main definitions

* `Counts.tally`: The counts with the outcomes of a list counted as well.

## Theorems

* `Counts.count_add`, `Counts.total_add`: One more outcome.
* `Counts.count_tally`, `Counts.total_tally`: The outcomes of a list.
* `Counts.mem_keys_tally`, `Counts.nodup_keys_tally`: Which entries there are.
-/

namespace QubitLab

namespace Counts

/-- The outcomes that came up. -/
def keys (c : Counts) : List String := c.entries.map Prod.fst

section Add

variable {k : String} {e : String × Nat} {rest : List (String × Nat)}

/-- An entry of the outcome is counted up in its place. -/
theorem addEntry_of_eq (h : e.1 = k) : addEntry k (e :: rest) = (k, e.2 + 1) :: rest := by
  rw [addEntry, if_pos h]

/-- An entry of another outcome is passed over. -/
theorem addEntry_of_ne (h : e.1 ≠ k) : addEntry k (e :: rest) = e :: addEntry k rest := by
  rw [addEntry, if_neg h]

/-- One more outcome raises its own count and no other. -/
theorem count_add (c : Counts) (k key : String) :
    (c.add k).count key = c.count key + if k = key then 1 else 0 := by
  rcases c with ⟨entries⟩
  unfold add count
  induction entries with
  | nil => by_cases h : k = key <;> simp [addEntry, h]
  | cons e rest ih =>
      dsimp only at ih ⊢
      by_cases hk : e.1 = k
      · -- The entry is the first one, and only its number changes.
        rw [addEntry_of_eq hk]
        by_cases h : k = key <;> simp [hk, h]
      · rw [addEntry_of_ne hk]
        by_cases h : e.1 = key
        · have hne : ¬ k = key := fun hkey => hk (h.trans hkey.symm)
          simp [h, hne]
        · simpa [h] using ih

/-- One more outcome raises the total by one. -/
theorem total_add (c : Counts) (k : String) : (c.add k).total = c.total + 1 := by
  rcases c with ⟨entries⟩
  unfold add total
  induction entries with
  | nil => rfl
  | cons e rest ih =>
      dsimp only at ih ⊢
      by_cases hk : e.1 = k
      · rw [addEntry_of_eq hk]
        simp only [List.map_cons, List.foldr_cons]
        omega
      · rw [addEntry_of_ne hk]
        simp only [List.map_cons, List.foldr_cons, ih]
        omega

/-- An outcome that is counted has an entry. -/
theorem mem_keys_add {c : Counts} {k key : String} :
    key ∈ (c.add k).keys ↔ key ∈ c.keys ∨ key = k := by
  rcases c with ⟨entries⟩
  unfold add keys
  induction entries with
  | nil => simp [addEntry]
  | cons e rest ih =>
      dsimp only at ih ⊢
      by_cases hk : e.1 = k
      · rw [addEntry_of_eq hk]
        simp only [List.map_cons, List.mem_cons, hk]
        tauto
      · rw [addEntry_of_ne hk]
        simp only [List.map_cons, List.mem_cons, ih]
        tauto

/-- No outcome gets a second entry. -/
theorem nodup_keys_add {c : Counts} (hc : c.keys.Nodup) (k : String) : (c.add k).keys.Nodup := by
  rcases c with ⟨entries⟩
  unfold keys at hc ⊢
  induction entries with
  | nil => exact List.nodup_singleton k
  | cons e rest ih =>
      rw [List.map_cons, List.nodup_cons] at hc
      unfold add at ih ⊢
      dsimp only at ih ⊢
      by_cases hk : e.1 = k
      · rw [addEntry_of_eq hk, List.map_cons, List.nodup_cons]
        exact ⟨hk ▸ hc.1, hc.2⟩
      · -- Behind the first entry, the only name that may be new is that of the outcome.
        have hmem : e.1 ∈ (add ⟨rest⟩ k).keys ↔ e.1 ∈ keys ⟨rest⟩ ∨ e.1 = k := mem_keys_add
        rw [addEntry_of_ne hk, List.map_cons, List.nodup_cons]
        exact ⟨fun h => (hmem.mp h).elim hc.1 hk, ih hc.2⟩

end Add

section Tally

/-- The counts with the outcomes of a list counted as well. -/
def tally (c : Counts) (outcomes : List String) : Counts := outcomes.foldl add c

/-- How often an outcome is counted is how often it is in the list. -/
theorem count_tally (c : Counts) (outcomes : List String) (key : String) :
    (c.tally outcomes).count key = c.count key + outcomes.count key := by
  induction outcomes generalizing c with
  | nil => rfl
  | cons k rest ih =>
      have hrest := ih (c.add k)
      rw [count_add] at hrest
      rw [List.count_cons]
      simp only [beq_iff_eq]
      exact hrest.trans (by omega)

/-- All outcomes of the list are counted. -/
theorem total_tally (c : Counts) (outcomes : List String) :
    (c.tally outcomes).total = c.total + outcomes.length := by
  induction outcomes generalizing c with
  | nil => rfl
  | cons k rest ih =>
      have hrest := ih (c.add k)
      rw [total_add] at hrest
      rw [List.length_cons]
      exact hrest.trans (by omega)

/-- The entries are those of the outcomes that came up. -/
theorem mem_keys_tally {c : Counts} {outcomes : List String} {key : String} :
    key ∈ (c.tally outcomes).keys ↔ key ∈ c.keys ∨ key ∈ outcomes := by
  induction outcomes generalizing c with
  | nil => simp [tally]
  | cons k rest ih =>
      have hrest := ih (c := c.add k)
      rw [mem_keys_add] at hrest
      rw [List.mem_cons, ← or_assoc]
      exact hrest

theorem nodup_keys_tally {c : Counts} (hc : c.keys.Nodup) (outcomes : List String) :
    (c.tally outcomes).keys.Nodup := by
  induction outcomes generalizing c with
  | nil => exact hc
  | cons k rest ih => exact ih (nodup_keys_add hc k)

end Tally

end Counts

end QubitLab
