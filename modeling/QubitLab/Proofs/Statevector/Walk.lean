import QubitLab.Proofs.Statevector.Groups
import QubitLab.Proofs.Statevector.Programs
import QubitLab.Statevector.Update

/-!
# Walks over the groups of a buffer

A kernel walks over the groups of a buffer and overwrites each of them in place. The
walk is treated once, for any update that changes one group at a time and reads no
other one: by the time a group's turn comes, it is still as it was, and afterwards it
stays as it is. So every amplitude of the result can be said in terms of the buffer
before the walk, and the order of the groups is of no account. Groups may be passed over,
as those are in which a control is not set.

The invariant of the walk is `amplitude_foldGroups_below`. After the first so many
groups, the indices that belong to them have been updated, and all others have not.

## Main definitions

* `Kernel.walk`: The walk over the groups that are to be visited.

## Theorems

* `amplitude_setIfInBounds`, `amplitude_exchange`: Writing one amplitude, and
  exchanging two.
* `amplitude_writes_other`, `amplitude_writes_self`: Several writes at distinct places.
* `amplitude_foldGroups`: A walk over groups, from what it does to a single group.
* `amplitude_walk`: The same for a kernel.
-/

namespace QubitLab

variable {K : Type} [Zero K]

namespace Buffer

open Statevector

section Writing

/-- A write inside of the buffer is seen at its own place and nowhere else. -/
theorem amplitude_setIfInBounds {s : Buffer K} {i : Nat} (hi : i < s.size) (v : K) (j : Nat) :
    amplitude (s.setIfInBounds i v) j = if j = i then v else s.amplitude j := by
  unfold amplitude
  rw [Array.getD_eq_getD_getElem?, Array.getD_eq_getD_getElem?, Array.getElem?_setIfInBounds]
  by_cases hj : i = j
  · rw [if_pos hj, if_pos (hj ▸ hi), if_pos hj.symm, Option.getD_some]
  · rw [if_neg hj, if_neg fun h => hj h.symm]

/-- Each of the two places holds what the other one held. They may be the same. -/
theorem amplitude_exchange {s : Buffer K} {i j : Nat} (hi : i < s.size)
    (hj : j < s.size) (k : Nat) :
    ((Kernel.exchange i j).after s).amplitude k
      = if k = i then s.amplitude j else if k = j then s.amplitude i else s.amplitude k := by
  have hj' : j < (s.setIfInBounds i (s.amplitude j)).size := by
    rw [Array.size_setIfInBounds]
    exact hj
  change amplitude ((s.setIfInBounds i (s.amplitude j)).setIfInBounds j (s.amplitude i)) k = _
  rw [amplitude_setIfInBounds hj', amplitude_setIfInBounds hi]
  -- The second write comes last, and it only matters when the two places are the same.
  by_cases hkj : k = j
  · rw [if_pos hkj, if_pos hkj]
    split
    · next hki => rw [← hki, hkj]
    · rfl
  · rw [if_neg hkj, if_neg hkj]

end Writing

section Writes

variable (f : List K → K) {base : Nat}

/-- Writes leave a place alone that none of them hits. -/
theorem amplitude_writes_other {l : List (List K × Nat)} {s : Buffer K} {i : Nat}
    (hin : ∀ p ∈ l, base + p.2 < s.size) (hi : ∀ p ∈ l, base + p.2 ≠ i) :
    amplitude (l.foldl (fun s p => s.setIfInBounds (base + p.2) (f p.1)) s) i
      = s.amplitude i := by
  -- The buffer changes from write to write, and the place has the same amplitude in all of them.
  induction l generalizing s with
  | nil => rfl
  | cons p rest ih =>
      have hp := hin p List.mem_cons_self
      rw [List.foldl_cons, ih (fun q hq => by
        rw [Array.size_setIfInBounds]; exact hin q (List.mem_cons_of_mem p hq))
        fun q hq => hi q (List.mem_cons_of_mem p hq),
        amplitude_setIfInBounds hp, if_neg fun h => hi p List.mem_cons_self h.symm]

/-- Writes at distinct places: each place holds what was written there. -/
theorem amplitude_writes_self {l : List (List K × Nat)} {s : Buffer K} {row : List K}
    {offset : Nat} (hin : ∀ p ∈ l, base + p.2 < s.size) (hd : (l.map Prod.snd).Nodup)
    (hmem : (row, offset) ∈ l) :
    amplitude (l.foldl (fun s p => s.setIfInBounds (base + p.2) (f p.1)) s) (base + offset)
      = f row := by
  induction l generalizing s with
  | nil => exact absurd hmem List.not_mem_nil
  | cons p rest ih =>
      -- The write is the first one of the list or a later one.
      rw [List.map_cons, List.nodup_cons] at hd
      have hrest : ∀ q ∈ rest, base + q.2 < (s.setIfInBounds (base + p.2) (f p.1)).size := by
        intro q hq
        rw [Array.size_setIfInBounds]
        exact hin q (List.mem_cons_of_mem p hq)
      rw [List.foldl_cons]
      rcases List.mem_cons.mp hmem with rfl | hmem
      · -- No later write hits the place again.
        rw [amplitude_writes_other f hrest, amplitude_setIfInBounds (hin _ List.mem_cons_self),
          if_pos rfl]
        intro q hq h
        refine hd.1 (List.mem_map.mpr ⟨q, hq, ?_⟩)
        omega
      · exact ih hrest hd.2 hmem

end Writes

section Walk

variable {n : Nat} {sorted : List Nat} {step : Nat → Buffer K → Buffer K}
  {act : (Nat → K) → Nat → K}

omit [Zero K] in
/-- The walk has a buffer of the right size at every step. -/
theorem size_foldGroups (hsize : ∀ base s, (step base s).size = s.size) (count : Nat)
    (s : Buffer K) :
    (Nat.fold count (fun k _ s => step (groupBase k sorted) s) s).size = s.size := by
  induction count with
  | zero => rfl
  | succ m ih => rw [Nat.fold_succ, hsize, ih]

/-- After the first so many groups, the indices in them have been updated and the
    others have not. -/
theorem amplitude_foldGroups_below (hs : sorted.Pairwise (· < ·)) (hn : ∀ q ∈ sorted, q < n)
    (hsize : ∀ base s, (step base s).size = s.size)
    (hstep : ∀ base s, s.size = 2 ^ n → base < 2 ^ n → clear sorted base = base →
      ∀ i, i < 2 ^ n → (step base s).amplitude i
        = if clear sorted i = base then act s.amplitude i else s.amplitude i)
    (hlocal : ∀ (ψ φ : Nat → K) i, i < 2 ^ n →
      (∀ j, j < 2 ^ n → clear sorted j = clear sorted i → ψ j = φ j) → act ψ i = act φ i)
    {s : Buffer K} (hbuf : s.size = 2 ^ n) {m : Nat} (hm : m ≤ 2 ^ (n - sorted.length))
    {i : Nat} (hi : i < 2 ^ n) :
    (Nat.fold m (fun k _ s => step (groupBase k sorted) s) s).amplitude i
      = if owner sorted i < m then act s.amplitude i else s.amplitude i := by
  -- The induction is on the groups that have been walked over. What is asked of the group that
  -- comes next is that nobody has touched it.
  induction m generalizing i with
  | zero => rw [if_neg (Nat.not_lt_zero _), Nat.fold_zero]
  | succ m ih =>
      have hbase := groupBase_lt hs hn (show m < 2 ^ (n - sorted.length) by omega)
      rw [Nat.fold_succ, hstep _ _ ((size_foldGroups hsize m s).trans hbuf) hbase
        (clear_groupBase hs m) i hi]
      by_cases howner : owner sorted i = m
      · -- The group of the index is still untouched when its turn comes.
        rw [if_pos ((owner_eq_iff hs i m).mp howner), if_pos (by omega)]
        refine hlocal _ _ i hi fun j hj hij => ?_
        have hsame : owner sorted j = m := by
          rw [owner_eq_iff hs, hij]
          exact (owner_eq_iff hs i m).mp howner
        rw [ih (by omega) hj, if_neg (by omega)]
      · -- The index belongs to another group, before or after this one, and keeps what it has.
        rw [if_neg fun h => howner ((owner_eq_iff hs i m).mpr h), ih (by omega) hi]
        by_cases hlt : owner sorted i < m
        · rw [if_pos hlt, if_pos (by omega)]
        · rw [if_neg hlt, if_neg (by omega)]

/-- A walk over all groups updates every index, each from its own group as it was
    before the walk. -/
theorem amplitude_foldGroups (hs : sorted.Pairwise (· < ·)) (hn : ∀ q ∈ sorted, q < n)
    (hsize : ∀ base s, (step base s).size = s.size)
    (hstep : ∀ base s, s.size = 2 ^ n → base < 2 ^ n → clear sorted base = base →
      ∀ i, i < 2 ^ n → (step base s).amplitude i
        = if clear sorted i = base then act s.amplitude i else s.amplitude i)
    (hlocal : ∀ (ψ φ : Nat → K) i, i < 2 ^ n →
      (∀ j, j < 2 ^ n → clear sorted j = clear sorted i → ψ j = φ j) → act ψ i = act φ i)
    {s : Buffer K} (hbuf : s.size = 2 ^ n) {i : Nat} (hi : i < 2 ^ n) :
    (Nat.fold (s.size >>> sorted.length)
      (fun k _ s => step (groupBase k sorted) s) s).amplitude i = act s.amplitude i := by
  have hcount : s.size >>> sorted.length = 2 ^ (n - sorted.length) := by
    rw [hbuf, shiftRight_length hs hn]
  rw [hcount, amplitude_foldGroups_below hs hn hsize hstep hlocal hbuf (Nat.le_refl _) hi,
    if_pos (owner_lt hs hn hi)]

end Walk

end Buffer

namespace Kernel

open Statevector

/-- The walk over so many groups, from the first one. The body is made at the least index of
    each group that is to be visited. -/
def walk (sorted : List Nat) (visited : Nat → Bool) (body : Nat → Kernel K Unit)
    (count : Nat) : Kernel K Unit :=
  (List.range count).forM fun k =>
    if visited (groupBase k sorted) then body (groupBase k sorted) else return ()

variable {n : Nat} {sorted : List Nat} {visited : Nat → Bool} {body : Nat → Kernel K Unit}

/-- A walk updates the groups that it visits, each from its own amplitudes before the walk. -/
theorem amplitude_walk (act : (Nat → K) → Nat → K) (hs : sorted.Pairwise (· < ·))
    (hn : ∀ q ∈ sorted, q < n)
    (hbody : ∀ base s, s.size = 2 ^ n → base < 2 ^ n → clear sorted base = base →
      ∀ i, i < 2 ^ n → ((body base).after s).amplitude i
        = if clear sorted i = base then act s.amplitude i else s.amplitude i)
    (hlocal : ∀ (ψ φ : Nat → K) i, i < 2 ^ n →
      (∀ j, j < 2 ^ n → clear sorted j = clear sorted i → ψ j = φ j) → act ψ i = act φ i)
    {s : Buffer K} (hbuf : s.size = 2 ^ n) {i : Nat} (hi : i < 2 ^ n) :
    ((walk sorted visited body (s.size >>> sorted.length)).after s).amplitude i
      = if visited (clear sorted i) then act s.amplitude i else s.amplitude i := by
  have hwalk : (walk sorted visited body (s.size >>> sorted.length)).after s
      = Nat.fold (s.size >>> sorted.length) (fun k _ s =>
          if visited (groupBase k sorted) then (body (groupBase k sorted)).after s else s) s := by
    rw [walk, after_forM_range]
    congr 1
    funext k _ s
    exact apply_ite (fun p : Kernel K Unit => p.after s) _ _ _
  rw [hwalk]
  refine @Buffer.amplitude_foldGroups K _ n sorted
    (fun base s => if visited base then (body base).after s else s)
    (fun ψ i => if visited (clear sorted i) then act ψ i else ψ i) hs hn (fun base s => ?_)
    (fun base s hsize hbase hclear i hi => ?_) (fun ψ φ i hi hψ => ?_) s hbuf i hi
  · split
    · exact size_after (body base) s
    · rfl
  · -- Whether a group is visited is decided at its least index, the same for all members.
    by_cases hgroup : clear sorted i = base
    · rw [if_pos hgroup, hgroup]
      split
      · rw [hbody base s hsize hbase hclear i hi, if_pos hgroup]
      · rfl
    · rw [if_neg hgroup]
      split
      · rw [hbody base s hsize hbase hclear i hi, if_neg hgroup]
      · rfl
  · rw [hlocal ψ φ i hi hψ, hψ i hi rfl]

end Kernel

end QubitLab
