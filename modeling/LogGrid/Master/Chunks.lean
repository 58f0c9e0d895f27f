import LogGrid.Base.Tiling
import LogGrid.Common.Message

/-!
# `CreateChunkTask` and `EnqueueFileChunks`

A file becomes a list of tasks that differ only in their byte range.
-/

open LogGrid.Tiling

namespace LogGrid

/-- `SearchConfig`. -/
structure SearchConfig where
  outputDir : Bytes := ascii "/sessions/"
  maxResults : UInt64 := 10000
  deriving DecidableEq, Repr

namespace Master

/-- `CHUNK_SIZE`, with `DOCKER_DEBUG` defined. -/
def chunkSize : UInt64 := 5 * 1024 * 1024

/-- `CreateChunkTask`. The source leaves `task_id` and the offsets uninitialized: the offsets are
set by `EnqueueFileChunks` and the id by `DispatchNextTask`, before anything reads them. -/
def createChunkTask (filepath keyword : Bytes) (searchId : Nat) (config : SearchConfig) :
    Except Exn TaskPayload :=
  if 256 ≤ filepath.length then
    .error (.runtimeError (ascii "[MASTER] Path exceeds maximum allowed length: " ++ filepath))
  else
    .ok {
      searchId
      taskId := 0
      maxResults := config.maxResults
      startOffset := 0
      endOffset := 0
      keyword := .strncpy 64 keyword
      filename := .strncpy 256 filepath }

/-- The `while` loop of `EnqueueFileChunks`, run for at most `fuel` turns. -/
def enqueueLoop (chunk fileSize : UInt64) (baseTask : TaskPayload) :
    Nat → UInt64 → List TaskPayload → Option (List TaskPayload)
  | 0, _, _ => none
  | fuel + 1, currentByte, outTasks =>
    if currentByte < fileSize then
      let task := { baseTask with
        startOffset := currentByte
        endOffset := min (currentByte + chunk) fileSize }
      enqueueLoop chunk fileSize baseTask fuel (currentByte + chunk) (outTasks ++ [task])
    else some outTasks

/-- `EnqueueFileChunks`. `currentByte` has `2 ^ 64` values, so a loop that takes more turns than that
never ends, and the result is `none`. -/
def enqueueFileChunks (chunk fileSize : UInt64) (baseTask : TaskPayload) (outTasks : List TaskPayload) :
    Option (List TaskPayload) :=
  enqueueLoop chunk fileSize baseTask (2 ^ 64) 0 outTasks

theorem enqueueLoop_append (chunk fileSize : UInt64) (baseTask : TaskPayload) (fuel : Nat)
    (currentByte : UInt64) (front outTasks : List TaskPayload) :
    enqueueLoop chunk fileSize baseTask fuel currentByte (front ++ outTasks) =
      (enqueueLoop chunk fileSize baseTask fuel currentByte outTasks).map (front ++ ·) := by
  induction fuel generalizing currentByte outTasks with
  | zero => rfl
  | succ fuel ih =>
    simp only [enqueueLoop]
    split
    · rw [List.append_assoc, ih]
    · rfl

def range (task : TaskPayload) : Nat × Nat := (task.startOffset.toNat, task.endOffset.toNat)

/-- `task` is `baseTask` with another byte range. -/
def SameRequest (baseTask task : TaskPayload) : Prop :=
  task = { baseTask with startOffset := task.startOffset, endOffset := task.endOffset }

theorem toNat_min (a b : UInt64) : (min a b).toNat = min a.toNat b.toNat := by
  show (if a ≤ b then a else b).toNat = _
  split
  · rename_i h; rw [UInt64.le_iff_toNat_le] at h; omega
  · rename_i h; rw [UInt64.le_iff_toNat_le] at h; omega

/-- From `currentByte` on, the loop cuts the rest of the file into chunks, and appends a task for each. -/
theorem enqueueLoop_spec (chunk fileSize : UInt64) (baseTask : TaskPayload) (hchunk : 0 < chunk.toNat)
    (hsum : fileSize.toNat + chunk.toNat < 2 ^ 64) (fuel : Nat) (currentByte : UInt64)
    (outTasks : List TaskPayload) (hfuel : fileSize.toNat - currentByte.toNat < fuel) :
    ∃ tasks, enqueueLoop chunk fileSize baseTask fuel currentByte outTasks = some (outTasks ++ tasks) ∧
      tasks.map range = pieces chunk.toNat currentByte.toNat fileSize.toNat ∧
      ∀ t ∈ tasks, SameRequest baseTask t := by
  induction fuel generalizing currentByte outTasks with
  | zero => omega
  | succ fuel ih =>
    rw [enqueueLoop]
    split
    case isTrue hlt =>
      rw [UInt64.lt_iff_toNat_lt] at hlt
      have hnext : (currentByte + chunk).toNat = currentByte.toNat + chunk.toNat := by
        rw [UInt64.toNat_add]
        exact Nat.mod_eq_of_lt (by omega)
      obtain ⟨tasks, htasks, hranges, hall⟩ := ih (currentByte + chunk)
        (outTasks ++ [{ baseTask with
          startOffset := currentByte
          endOffset := min (currentByte + chunk) fileSize }]) (by omega)
      refine ⟨{ baseTask with
        startOffset := currentByte
        endOffset := min (currentByte + chunk) fileSize } :: tasks, by rw [htasks]; simp, ?_, ?_⟩
      · rw [List.map_cons, hranges, pieces_cons _ _ _ hchunk hlt, hnext]
        simp only [range, toNat_min, hnext]
      · exact List.forall_mem_cons.mpr ⟨rfl, hall⟩
    case isFalse hge =>
      rw [UInt64.lt_iff_toNat_lt, not_lt] at hge
      exact ⟨[], by simp, (pieces_of_le _ _ _ hchunk hge).symm, by simp⟩

theorem enqueueFileChunks_ranges (chunk fileSize : UInt64) (baseTask : TaskPayload)
    (outTasks : List TaskPayload) (hchunk : 0 < chunk.toNat)
    (hsum : fileSize.toNat + chunk.toNat < 2 ^ 64) :
    ∃ tasks, enqueueFileChunks chunk fileSize baseTask outTasks = some (outTasks ++ tasks) ∧
      tasks.map range = pieces chunk.toNat 0 fileSize.toNat ∧ ∀ t ∈ tasks, SameRequest baseTask t :=
  enqueueLoop_spec chunk fileSize baseTask hchunk hsum (2 ^ 64) 0 outTasks
    (by have := fileSize.toNat_lt; simp; omega)

theorem enqueueFileChunks_spec (chunk fileSize : UInt64) (baseTask : TaskPayload)
    (outTasks : List TaskPayload) (hchunk : 0 < chunk.toNat)
    (hsum : fileSize.toNat + chunk.toNat < 2 ^ 64) :
    ∃ tasks, enqueueFileChunks chunk fileSize baseTask outTasks = some (outTasks ++ tasks) ∧
      Tiles 0 (tasks.map range) fileSize.toNat ∧
      ∀ t ∈ tasks, SameRequest baseTask t ∧ t.endOffset.toNat ≤ t.startOffset.toNat + chunk.toNat := by
  obtain ⟨tasks, htasks, hranges, hall⟩ := enqueueFileChunks_ranges chunk fileSize baseTask outTasks hchunk hsum
  refine ⟨tasks, htasks, hranges ▸ pieces_tiles _ _ _ hchunk (Nat.zero_le _), ?_⟩
  intro t ht
  exact ⟨hall t ht, pieces_le _ _ _ (range t) (hranges ▸ List.mem_map_of_mem ht)⟩

theorem enqueueFileChunks_hits (chunk fileSize : UInt64) (baseTask : TaskPayload) (hchunk : 0 < chunk.toNat)
    (hsum : fileSize.toNat + chunk.toNat < 2 ^ 64) (offset : Nat) (hoffset : offset < fileSize.toNat) :
    ∃ tasks, enqueueFileChunks chunk fileSize baseTask [] = some tasks ∧ hits offset (tasks.map range) = 1 := by
  obtain ⟨tasks, htasks, htile, -⟩ := enqueueFileChunks_spec chunk fileSize baseTask [] hchunk hsum
  exact ⟨tasks, htasks, htile.hits_inside (Nat.zero_le _) hoffset⟩

theorem enqueueFileChunks_first (chunk fileSize : UInt64) (baseTask : TaskPayload) (tasks : List TaskPayload)
    (hsize : 0 < fileSize) (h : enqueueFileChunks chunk fileSize baseTask [] = some tasks) :
    { baseTask with startOffset := 0, endOffset := min chunk fileSize } ∈ tasks := by
  obtain ⟨fuel, hfuel⟩ : ∃ fuel, 2 ^ 64 = fuel + 1 := ⟨2 ^ 64 - 1, by omega⟩
  unfold enqueueFileChunks at h
  rw [hfuel, enqueueLoop, if_pos hsize, UInt64.zero_add] at h
  simp only at h
  rw [List.nil_append, ← List.append_nil [_], enqueueLoop_append, Option.map_eq_some_iff] at h
  obtain ⟨rest, -, rfl⟩ := h
  exact List.mem_append_left rest (List.mem_singleton.mpr rfl)

end Master

end LogGrid
