import QubitLab.Proofs.Exact.Scalar
import QubitLab.Proofs.Simulator.Evolution
import QubitLab.Proofs.Statevector.Snapshots

/-!
# Snapshots over a run

What a snapshot holds is decided by the operations alone: the latest of them that took one
under the name, if the snapshots have not been dropped since. Between the two nothing else
counts, because evolution leaves the snapshots alone and what is put back is a copy. So the
store of a simulator can be told from the list of the operations that were made, whether
each of them answered or failed, and `find?_after` says how.

The run is taken from its end. The last operation is a save, a drop, or one that leaves the
store as it is, and the store before it is that of a shorter run.

All buffers of a simulator have one size, so a snapshot that is put back always fits.

## Main definitions

* `Simulator.after`: What operations lead to, one after the other.
* `Operation.IsLive`, `Operation.IsLatestSave`: Whether a run leaves a snapshot under a name,
  and the operation that took it.
* `Simulator.Sized`: All buffers have the size of the register.
* `Simulator.StoreLaw`: What holds of the store after a run.

## Theorems

* `snapshots_perform`: The operations that leave the store alone.
* `find?_after`: What a run leaves under a name.
* `keeps_sized_perform`, `keeps_sorted_perform`: The sizes of the buffers and the order of the
  names.
* `snapshots_tell_history`: All of it in one.
-/

namespace QubitLab

namespace Operation

variable {R : Type} {ops : List (Operation R)} {op first : Operation R} {name : String}
  {ends : Operation R → Prop} {i : Nat}

/-- Operation `i` is the given one, and none behind it is one of those that put an end
    to it. -/
structure Stands (ops : List (Operation R)) (first : Operation R) (ends : Operation R → Prop)
    (i : Nat) : Prop where
  /-- The operation was made. -/
  made : ops[i]? = some first
  /-- Nothing has put an end to it. -/
  unbroken : ∀ j op, i < j → ops[j]? = some op → ¬ ends op

/-- A snapshot was taken under the name, and the snapshots have not been dropped since. -/
def IsLive (ops : List (Operation R)) (name : String) : Prop :=
  ∃ i, Stands ops (saveState name) (fun op => op = clearSnapshots) i

/-- Operation `i` took a snapshot under the name, and since then none has been taken under
    that name, nor have the snapshots been dropped. -/
def IsLatestSave (ops : List (Operation R)) (name : String) (i : Nat) : Prop :=
  Stands ops (saveState name) (fun op => op = saveState name ∨ op = clearSnapshots) i

theorem not_stands_nil : ¬ Stands [] first ends i := fun h => by simpa using h.made

/-- One more operation is the one that was looked for, or it is not an end. -/
theorem stands_append :
    Stands (ops ++ [op]) first ends i ↔
      i = ops.length ∧ op = first ∨ Stands ops first ends i ∧ ¬ ends op := by
  constructor
  · rintro ⟨hi, hends⟩
    -- The operation that stands is one of the shorter list, or the last one.
    rcases Nat.lt_trichotomy i ops.length with hlt | rfl | hgt
    · rw [List.getElem?_append_left hlt] at hi
      refine Or.inr ⟨⟨hi, fun j op' hj hop' => hends j op' hj ?_⟩, ?_⟩
      · rwa [List.getElem?_append_left (List.getElem?_eq_some_iff.mp hop').1]
      · exact hends ops.length op hlt List.getElem?_concat_length
    · rw [List.getElem?_concat_length] at hi
      exact Or.inl ⟨rfl, Option.some.inj hi⟩
    · rw [List.getElem?_eq_none (by simp only [List.length_append, List.length_singleton]; omega)]
        at hi
      exact absurd hi (by simp)
  · -- Behind the last operation there is none, and behind the others there is one more.
    have hlast : ∀ j op', (ops ++ [op])[j]? = some op' →
        j < ops.length ∧ ops[j]? = some op' ∨ j = ops.length ∧ op' = op := by
      intro j op' hop'
      rcases Nat.lt_or_ge j ops.length with hlt | hge
      · exact Or.inl ⟨hlt, by rwa [List.getElem?_append_left hlt] at hop'⟩
      · have hle := (List.getElem?_eq_some_iff.mp hop').1
        rw [List.length_append, List.length_singleton] at hle
        obtain rfl : j = ops.length := by omega
        rw [List.getElem?_concat_length] at hop'
        exact Or.inr ⟨rfl, (Option.some.inj hop').symm⟩
    rintro (⟨rfl, rfl⟩ | ⟨⟨hi, hends⟩, hop⟩)
    · refine ⟨List.getElem?_concat_length, fun j op' hj hop' => ?_⟩
      rcases hlast j op' hop' with ⟨hlt, -⟩ | ⟨heq, -⟩ <;> omega
    · have hlt := (List.getElem?_eq_some_iff.mp hi).1
      refine ⟨by rwa [List.getElem?_append_left hlt], fun j op' hj hop' => ?_⟩
      rcases hlast j op' hop' with ⟨-, hop'⟩ | ⟨-, rfl⟩
      · exact hends j op' hj hop'
      · exact hop

/-- One more operation takes the snapshot, or leaves it if it does not drop it. -/
theorem isLive_append :
    IsLive (ops ++ [op]) name ↔
      op = saveState name ∨ IsLive ops name ∧ op ≠ clearSnapshots := by
  unfold IsLive
  simp only [stands_append, exists_or, exists_eq_left, exists_and_right, ne_eq]

/-- One more operation is the latest save, or neither a save nor a drop. -/
theorem exists_isLatestSave_append :
    (∃ i, IsLatestSave (ops ++ [op]) name i) ↔ op = saveState name ∨
      (∃ i, IsLatestSave ops name i) ∧ ¬ (op = saveState name ∨ op = clearSnapshots) := by
  unfold IsLatestSave
  simp only [stands_append, exists_or, exists_eq_left, exists_and_right]

/-- Where snapshots have been taken under a name, one of them is the latest. -/
theorem isLive_iff : IsLive ops name ↔ ∃ i, IsLatestSave ops name i := by
  induction ops using List.reverseRecOn with
  | nil =>
      constructor <;> rintro ⟨i, h⟩
      · exact absurd h not_stands_nil
      · exact absurd h not_stands_nil
  | append_singleton ops op ih =>
      rw [isLive_append, exists_isLatestSave_append, ih]
      -- The two conditions differ only in what another save does, and that is a save itself.
      by_cases h : op = saveState name
      · simp only [h, true_or]
      · simp only [h, false_or, ne_eq]

end Operation

namespace Simulator

open Transition

variable {R G : Type} {n : Nat}

/-- All buffers of the simulator, the copies included, have the size of the register. -/
structure Sized (n : Nat) (s : Simulator R G) : Prop where
  /-- The width of the register. -/
  width : s.numQubits = n
  /-- The amplitudes. -/
  buffer : s.buffer.size = 2 ^ n
  /-- The snapshots. -/
  snapshots : ∀ e ∈ s.snapshots.entries, e.2.size = 2 ^ n

/-- The sizes do not depend on the amplitudes. -/
theorem inert_sized : Inert (Sized n : Simulator R G → Prop) :=
  ⟨fun hs hb => ⟨hs.width, hb.trans hs.buffer, hs.snapshots⟩,
    fun _ hs => ⟨hs.width, hs.buffer, hs.snapshots⟩⟩

/-- The store does not depend on the amplitudes. -/
theorem inert_snapshots (store : Snapshots (Buffer (Complex R))) :
    Inert fun s : Simulator R G => s.snapshots = store :=
  ⟨fun hs _ => hs, fun _ hs => hs⟩

section Noise

/-- The property does not depend on the noise. -/
def NoiseBlind (P : Simulator R G → Prop) : Prop :=
  ∀ (s : Simulator R G) (noise : Option (NoiseModel R)), P s → P { s with noise }

theorem noiseBlind_sized : NoiseBlind (Sized n : Simulator R G → Prop) :=
  fun _ _ hs => ⟨hs.width, hs.buffer, hs.snapshots⟩

theorem noiseBlind_snapshots (store : Snapshots (Buffer (Complex R))) :
    NoiseBlind fun s : Simulator R G => s.snapshots = store :=
  fun _ _ hs => hs

variable {P : Simulator R G → Prop}

/-- Setting the noise keeps what does not depend on it. -/
theorem NoiseBlind.keeps_setNoise (hP : NoiseBlind P) (model : NoiseModel R) :
    KeepsAlways P (setNoise model) :=
  keeps_bind (keeps_note _) fun _ => keeps_change fun s hs => hP s _ hs

theorem NoiseBlind.keeps_clearNoise (hP : NoiseBlind P) :
    KeepsAlways P (clearNoise : Step R G Unit) :=
  keeps_bind (keeps_note _) fun _ => keeps_change fun s hs => hP s _ hs

variable [Scalar R]

theorem NoiseBlind.keeps_setNoiseModel (hP : NoiseBlind P) (channel : NoiseChannel) (rate : R) :
    KeepsAlways P (setNoiseModel channel rate) :=
  keeps_require_bind fun model _ => hP.keeps_setNoise model

/-- So does giving it a matrix, whether there is noise or not. -/
theorem NoiseBlind.keeps_setCustomNoise (hP : NoiseBlind P) (rows : Rows (Complex R)) :
    KeepsAlways P (setCustomNoise rows) := by
  refine keeps_bind (keeps_reading _) fun noise => ?_
  cases noise with
  | none => exact keeps_fail _
  | some model => exact keeps_require_bind fun model _ => hP.keeps_setNoise model

end Noise

section Store

/-- A snapshot that is not there is refused, and nothing changes. -/
theorem loadState_of_none {name : String} {s : Simulator R G}
    (h : s.snapshots.find? name = none) :
    loadState name s = ⟨.error (.snapshotNotFound name), s, []⟩ := by
  unfold loadState
  rw [reading_bind, h]
  rfl

/-- A snapshot that is there is put back, and nothing else changes. -/
theorem loadState_of_some {name : String} {s : Simulator R G} {b : Buffer (Complex R)}
    (h : s.snapshots.find? name = some b) :
    loadState name s = ⟨.ok (), s.withBuffer b, [.snapshotLoaded name]⟩ := by
  unfold loadState
  rw [reading_bind, h]
  rfl

/-- The copy that is taken has the size of the buffer. -/
theorem keeps_sized_saveState (name : String) :
    KeepsAlways (Sized n) (saveState name : Step R G Unit) := by
  refine keeps_bind (keeps_note _) fun _ => keeps_change fun s hs => ?_
  refine ⟨hs.width, hs.buffer, fun e he => ?_⟩
  rcases Snapshots.mem_insertEntry he with rfl | he
  · exact hs.buffer
  · exact hs.snapshots e he

/-- What is found is one of the copies, and so it has the size of the buffer. -/
theorem keeps_sized_loadState (name : String) :
    KeepsAlways (Sized n) (loadState name : Step R G Unit) := by
  refine keeps_of_state fun s hs => ?_
  cases h : s.snapshots.find? name with
  | none => rwa [loadState_of_none h]
  | some b =>
      rcases Option.map_eq_some_iff.mp h with ⟨e, he, rfl⟩
      rw [loadState_of_some h]
      exact inert_sized.withBuffer hs
        ((hs.snapshots e (List.mem_of_find?_eq_some he)).trans hs.buffer.symm)

theorem keeps_sized_clearSnapshots :
    KeepsAlways (Sized n) (clearSnapshots : Step R G Unit) := by
  refine keeps_bind (keeps_reading _) fun _ => keeps_bind (keeps_note _) fun _ => ?_
  exact keeps_change fun s hs => ⟨hs.width, hs.buffer, fun e he => absurd he List.not_mem_nil⟩

end Store

variable [Scalar R] [RandomSource R G]

section Operations

/-- Every operation keeps the sizes. -/
theorem keeps_sized_perform (op : Operation R) :
    KeepsAlways (Sized n) (perform op : Step R G Unit) := by
  by_cases hop : op.evolves = true
  · exact inert_sized.keeps_perform hop
  · cases op with
    | saveState name => exact keeps_sized_saveState name
    | loadState name => exact keeps_sized_loadState name
    | clearSnapshots => exact keeps_sized_clearSnapshots
    | setNoiseModel channel rate => exact noiseBlind_sized.keeps_setNoiseModel channel rate
    | setCustomNoise rows => exact noiseBlind_sized.keeps_setCustomNoise rows
    | clearNoise => exact noiseBlind_sized.keeps_clearNoise
    | _ => exact absurd rfl hop

/-- Only saving and dropping touch the snapshots. -/
theorem snapshots_perform {op : Operation R} (hsave : ∀ name, op ≠ .saveState name)
    (hclear : op ≠ .clearSnapshots) (s : Simulator R G) :
    (perform op s).state.snapshots = s.snapshots := by
  suffices h : KeepsAlways (fun t => t.snapshots = s.snapshots) (perform op) from
    keepsAlways_iff.mp h s rfl
  have hblind := noiseBlind_snapshots (G := G) s.snapshots
  -- Evolution is inert. What is left are loads, which only read the store, and the noise.
  by_cases hop : op.evolves = true
  · exact (inert_snapshots s.snapshots).keeps_perform hop
  · cases op with
    | saveState name => exact absurd rfl (hsave name)
    | clearSnapshots => exact absurd rfl hclear
    | loadState name =>
        refine keeps_of_state fun t ht => ?_
        change (loadState name t).state.snapshots = s.snapshots
        cases h : t.snapshots.find? name with
        | none => rwa [loadState_of_none h]
        | some b => rwa [loadState_of_some h]
    | setNoiseModel channel rate => exact hblind.keeps_setNoiseModel channel rate
    | setCustomNoise rows => exact hblind.keeps_setCustomNoise rows
    | clearNoise => exact hblind.keeps_clearNoise
    | _ => exact absurd rfl hop

/-- What is stored under a name is only changed by a save under it, or by a drop. -/
theorem find?_perform {op : Operation R} {name : String} (hsave : op ≠ .saveState name)
    (hclear : op ≠ .clearSnapshots) (s : Simulator R G) :
    (perform op s).state.snapshots.find? name = s.snapshots.find? name := by
  by_cases hany : ∃ other, op = .saveState other
  · -- A snapshot under another name is put in beside the one that is looked for.
    rcases hany with ⟨other, rfl⟩
    have hne : other ≠ name := fun h => hsave (congrArg Operation.saveState h)
    exact (Snapshots.find?_insert s.snapshots other s.buffer name).trans (if_neg hne)
  · rw [snapshots_perform (fun other h => hany ⟨other, h⟩) hclear]

end Operations

section Runs

/-- The simulator after operations one after the other, whether they answer or fail. -/
def after (ops : List (Operation R)) (s : Simulator R G) : Simulator R G :=
  ops.foldl (fun s op => (perform op s).state) s

/-- The last operation is made on what the others have left. -/
theorem after_append (ops : List (Operation R)) (op : Operation R) (s : Simulator R G) :
    after (ops ++ [op]) s = (perform op (after ops s)).state :=
  List.foldl_concat ..

/-- What every operation keeps holds after any run. -/
theorem after_keeps {P : Simulator R G → Prop}
    (hP : ∀ op : Operation R, KeepsAlways P (perform op : Step R G Unit)) {s : Simulator R G}
    (hs : P s) (ops : List (Operation R)) : P (after ops s) := by
  induction ops using List.reverseRecOn with
  | nil => exact hs
  | append_singleton ops op ih =>
      rw [after_append]
      exact keepsAlways_iff.mp (hP op) _ ih

/-- The names stay in order, since an insertion keeps the order. -/
theorem keeps_sorted_perform (op : Operation R) :
    KeepsAlways (fun s => s.snapshots.Sorted) (perform op : Step R G Unit) := by
  refine keeps_of_state fun s hs => ?_
  -- A save inserts a name, a drop removes all of them, and nothing else touches the store.
  by_cases hsave : ∃ name, op = .saveState name
  · rcases hsave with ⟨name, rfl⟩
    exact Snapshots.sorted_insert hs name s.buffer
  · by_cases hclear : op = .clearSnapshots
    · subst hclear
      exact List.Pairwise.nil
    · rwa [snapshots_perform (fun name h => hsave ⟨name, h⟩) hclear]

open Operation in
/-- What a run from an empty store leaves under a name is the buffer at the latest save. -/
theorem find?_after {s : Simulator R G} (hs : s.snapshots = .empty) (ops : List (Operation R))
    (name : String) (b : Buffer (Complex R)) :
    (after ops s).snapshots.find? name = some b ↔
      ∃ i, IsLatestSave ops name i ∧ b = (after (ops.take i) s).buffer := by
  induction ops using List.reverseRecOn with
  | nil =>
      have hnone : (after [] s).snapshots.find? name = none := congrArg (·.find? name) hs
      rw [hnone]
      exact ⟨fun h => absurd h (by simp), fun ⟨i, h, _⟩ => absurd h not_stands_nil⟩
  | append_singleton ops op ih =>
      -- An earlier save was made in the shorter run, and its buffer is the one of then.
      have hlatest : (∃ i, IsLatestSave (ops ++ [op]) name i ∧
            b = (after ((ops ++ [op]).take i) s).buffer) ↔
          op = .saveState name ∧ b = (after ops s).buffer ∨
            (∃ i, IsLatestSave ops name i ∧ b = (after (ops.take i) s).buffer) ∧
              ¬ (op = .saveState name ∨ op = .clearSnapshots) := by
        constructor
        · rintro ⟨i, h, rfl⟩
          rcases stands_append.mp h with ⟨rfl, hop⟩ | ⟨h, hop⟩
          · exact Or.inl ⟨hop, by rw [List.take_left]⟩
          · have hlt := (List.getElem?_eq_some_iff.mp h.made).1
            exact Or.inr ⟨⟨i, h, by rw [List.take_append_of_le_length hlt.le]⟩, hop⟩
        · rintro (⟨hop, rfl⟩ | ⟨⟨i, h, rfl⟩, hop⟩)
          · exact ⟨ops.length, stands_append.mpr (Or.inl ⟨rfl, hop⟩), by rw [List.take_left]⟩
          · have hlt := (List.getElem?_eq_some_iff.mp h.made).1
            exact ⟨i, stands_append.mpr (Or.inr ⟨h, hop⟩),
              by rw [List.take_append_of_le_length hlt.le]⟩
      rw [after_append, hlatest]
      -- The last operation is a save under the name, a drop, or leaves what is found as it is.
      by_cases hsave : op = .saveState name
      · subst hsave
        have hfind : (perform (.saveState name) (after ops s)).state.snapshots.find? name
            = some (after ops s).buffer :=
          (Snapshots.find?_insert _ name _ name).trans (if_pos rfl)
        rw [hfind]
        simp [eq_comm]
      · by_cases hclear : op = .clearSnapshots
        · subst hclear
          have hfind : (perform .clearSnapshots (after ops s)).state.snapshots.find? name
            = none := rfl
          rw [hfind]
          simp
        · rw [find?_perform hsave hclear, ih]
          simp [hsave, hclear]

/-- What holds of the store of a simulator `s` after a run. -/
structure StoreLaw (s : Simulator R G) (ops : List (Operation R)) : Prop where
  /-- The buffer has the size of the register. -/
  buffer : (after ops s).buffer.size = 2 ^ s.numQubits
  /-- So has every snapshot. -/
  stored : ∀ e ∈ (after ops s).snapshots.entries, e.2.size = 2 ^ s.numQubits
  /-- A snapshot can be put back if one was taken since they were last dropped. -/
  loads : ∀ name, (loadState name (after ops s)).result = .ok () ↔ Operation.IsLive ops name
  /-- It is the buffer at the latest save, and nothing else changes. -/
  restores : ∀ name, Operation.IsLive ops name → ∃ i, Operation.IsLatestSave ops name i ∧
    (loadState name (after ops s)).state
      = (after ops s).withBuffer (after (ops.take i) s).buffer
  /-- Where there is no snapshot, nothing changes. -/
  refuses : ∀ name e, (loadState name (after ops s)).result = .error e →
    e = .snapshotNotFound name ∧ (loadState name (after ops s)).state = after ops s
  /-- Only saving and dropping touch the snapshots. -/
  untouched : ∀ op : Operation R, (∀ name, op ≠ .saveState name) → op ≠ .clearSnapshots →
    (perform op (after ops s)).state.snapshots = (after ops s).snapshots
  /-- The names are in strictly ascending order. -/
  ascending : (after ops s).snapshots.names.Pairwise (· < ·)
  /-- They are those of the snapshots that can be put back. -/
  live : ∀ name, name ∈ (after ops s).snapshots.names ↔ Operation.IsLive ops name

open Operation in
/-- After a setup and any operations, the snapshots are what the operations say. -/
theorem snapshots_tell_history {setup : Setup R G} (hsetup : IsSetup setup) {s : Simulator R G}
    (hs : (setup ()).result = .ok s) (ops : List (Operation R)) : StoreLaw s ops := by
  rcases hsetup.fresh hs with ⟨hbuffer, hempty⟩
  have hsized : (after ops s).Sized s.numQubits := by
    refine after_keeps keeps_sized_perform ⟨rfl, ?_, fun e he => ?_⟩ ops
    · rw [hbuffer, Buffer.size_ground]
    · rw [hempty] at he
      exact absurd he List.not_mem_nil
  have hsorted : (after ops s).snapshots.Sorted := by
    refine after_keeps keeps_sorted_perform ?_ ops
    rw [hempty]
    exact List.Pairwise.nil
  -- A snapshot is found just when one was taken and not dropped.
  have hlive : ∀ name, (∃ b, (after ops s).snapshots.find? name = some b) ↔ IsLive ops name := by
    intro name
    rw [isLive_iff]
    constructor
    · rintro ⟨b, hb⟩
      rcases (find?_after hempty ops name b).mp hb with ⟨i, hi, -⟩
      exact ⟨i, hi⟩
    · rintro ⟨i, hi⟩
      exact ⟨_, (find?_after hempty ops name _).mpr ⟨i, hi, rfl⟩⟩
  refine ⟨hsized.buffer, hsized.snapshots, fun name => ?_, fun name hname => ?_,
    fun name e he => ?_, fun op hsave hclear => snapshots_perform hsave hclear _, hsorted.names,
    fun name => Snapshots.mem_names.trans (hlive name)⟩
  · -- A load succeeds when a snapshot is found under the name.
    rw [← hlive]
    cases hfind : (after ops s).snapshots.find? name with
    | none => simp [loadState_of_none hfind]
    | some b => simp [loadState_of_some hfind]
  · rcases (hlive name).mpr hname with ⟨b, hb⟩
    rcases (find?_after hempty ops name b).mp hb with ⟨i, hi, rfl⟩
    exact ⟨i, hi, by rw [loadState_of_some hb]⟩
  · cases hfind : (after ops s).snapshots.find? name with
    | none =>
        rw [loadState_of_none hfind] at he ⊢
        exact ⟨(Except.error.inj he).symm, rfl⟩
    | some b =>
        rw [loadState_of_some hfind] at he
        exact absurd he (by simp)

/-- Two snapshots are dropped, and two others taken. A gate is refused in between. -/
def retaken : List (Operation ℝ) :=
  [.saveState "plus", .applyGate ⟨.x, [0], [], none⟩, .saveState "one", .clearSnapshots,
    .saveState "one", .applyGate ⟨.cx, [0, 1], [], none⟩, .applyGate ⟨.h, [0], [], none⟩,
    .saveState "minus", .loadState "plus"]

theorem retaken_tells_history :
    (create (fun _ => true) (⟨[], []⟩ : Exact.Tape) 1 ()).result
        = .ok (started ⟨[], []⟩ 1 : Simulator ℝ Exact.Tape) ∧
      StoreLaw (started (⟨[], []⟩ : Exact.Tape) 1) retaken ∧
      (after retaken (started (⟨[], []⟩ : Exact.Tape) 1)).snapshots.names = ["minus", "one"] := by
  have hsetup : (create (fun _ => true) (⟨[], []⟩ : Exact.Tape) 1 ()).result
      = .ok (started ⟨[], []⟩ 1 : Simulator ℝ Exact.Tape) :=
    create_eq_ok_iff.mpr ⟨Nat.zero_lt_one, rfl, rfl, rfl⟩
  exact ⟨hsetup, snapshots_tell_history (.create _ _ 1) hsetup retaken, rfl⟩

end Runs

end Simulator

end QubitLab
