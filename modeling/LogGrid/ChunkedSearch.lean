import LogGrid.Master.Chunks
import LogGrid.Worker.FileProcessor
import Mathlib.Algebra.BigOperators.Group.List.Basic

/-!
# A chunked search is a whole-file search

`EnqueueFileChunks` on the master and `SearchTask` on the worker agree on who
searches which line: the chunks tile the file, and a chunk's task searches the
lines that start in it.
-/

open LogGrid.Lines LogGrid.Ifstream LogGrid.Tiling LogGrid.Master LogGrid.FileProcessor

namespace LogGrid.ChunkedSearch

def withRange (task : TaskPayload) (startByte endByte : UInt64) : TaskPayload :=
  { task with startOffset := startByte, endOffset := endByte }

theorem searchTask_range (host : Host) (task : TaskPayload) (maxLineCount startByte endByte : UInt64)
    (file : LogFile) (pattern : Bytes → Bool) (hopen : host.openFile task.filename.cStr = some file)
    (hregex : host.regex task.keyword.cStr = some pattern)
    (hstart : startByte.toNat < 2 ^ 63) (hend : endByte.toNat < 2 ^ 63)
    (hcount : (starts newline file.bytes startByte.toNat endByte.toNat).length < 2 ^ 32) :
    let r := searchTask host (withRange task startByte endByte) maxLineCount
    let hits := matching pattern task.filename.cStr file startByte.toNat endByte.toNat
    r.totalMatches.toNat = hits.length ∧ r.lines = hits.take maxLineCount.toNat ∧
      r.linesFound.toNat = r.lines.length :=
  searchTask_spec host (withRange task startByte endByte) maxLineCount file pattern hopen hregex
    hstart hend hcount

/-- The tasks of a tiling own the lines of the whole range, in order and each in one task. -/
theorem flatMap_starts (file : LogFile) (tasks : List TaskPayload) (hi : Nat)
    (htile : Tiles 0 (tasks.map range) hi) :
    tasks.flatMap (fun t => starts newline file.bytes t.startOffset.toNat t.endOffset.toNat) =
      starts newline file.bytes 0 hi := by
  rw [← htile.flatMap_eq (starts newline file.bytes) (starts_empty _ _)
    (fun a b c hab hbc => starts_append _ _ a b c hab hbc), List.flatMap_map]
  rfl

theorem flatMap_matching (pattern : Bytes → Bool) (name : Bytes) (file : LogFile)
    (tasks : List TaskPayload) (hi : Nat) (htile : Tiles 0 (tasks.map range) hi) :
    tasks.flatMap (fun t => matching pattern name file t.startOffset.toNat t.endOffset.toNat) =
      matching pattern name file 0 hi := by
  rw [← htile.flatMap_eq (matching pattern name file)
    (fun a => by simp [matching, linesIn, starts_empty])
    (fun a b c hab hbc => matching_append pattern name file a b c hab hbc), List.flatMap_map]
  rfl

theorem length_le_flatMap {α β : Type} (f : α → List β) (l : List α) (a : α) (ha : a ∈ l) :
    (f a).length ≤ (l.flatMap f).length := by
  rw [List.flatMap_def]
  exact (List.sublist_flatten_of_mem (List.mem_map_of_mem ha)).length_le

theorem starts_task_le (file : LogFile) (tasks : List TaskPayload) (hi : Nat)
    (htile : Tiles 0 (tasks.map range) hi) (t : TaskPayload) (ht : t ∈ tasks) :
    (starts newline file.bytes t.startOffset.toNat t.endOffset.toNat).length ≤
      (starts newline file.bytes 0 hi).length := by
  rw [← flatMap_starts file tasks hi htile]
  exact length_le_flatMap
    (fun t => starts newline file.bytes t.startOffset.toNat t.endOffset.toNat) tasks t ht

theorem chunk_range (file : LogFile) (task : TaskPayload) (tasks : List TaskPayload)
    (htile : Tiles 0 (tasks.map range) file.bytes.length) (hsame : ∀ t ∈ tasks, SameRequest task t)
    (hcount : (starts newline file.bytes 0 file.bytes.length).length < 2 ^ 32)
    (t : TaskPayload) (ht : t ∈ tasks) :
    t = withRange task t.startOffset t.endOffset ∧ t.startOffset.toNat < 2 ^ 63 ∧
      t.endOffset.toNat < 2 ^ 63 ∧
      (starts newline file.bytes t.startOffset.toNat t.endOffset.toNat).length < 2 ^ 32 := by
  have hfile := file.length_lt
  obtain ⟨-, h1, h2⟩ := htile.mem_bounds (List.mem_map_of_mem ht)
  simp only [range] at h1 h2
  have hle := starts_task_le file tasks _ htile t ht
  exact ⟨hsame t ht, by omega, by omega, by omega⟩

theorem chunks_results (host : Host) (task : TaskPayload) (maxLineCount : UInt64) (file : LogFile)
    (pattern : Bytes → Bool) (hopen : host.openFile task.filename.cStr = some file)
    (hregex : host.regex task.keyword.cStr = some pattern) (tasks : List TaskPayload)
    (htile : Tiles 0 (tasks.map range) file.bytes.length) (hsame : ∀ t ∈ tasks, SameRequest task t)
    (hcount : (starts newline file.bytes 0 file.bytes.length).length < 2 ^ 32)
    (hlimit : (matching pattern task.filename.cStr file 0 file.bytes.length).length ≤ maxLineCount.toNat) :
    tasks.flatMap (fun t => (searchTask host t maxLineCount).lines) =
        matching pattern task.filename.cStr file 0 file.bytes.length ∧
      (tasks.map fun t => (searchTask host t maxLineCount).totalMatches.toNat).sum =
        (matching pattern task.filename.cStr file 0 file.bytes.length).length := by
  have hwhole := flatMap_matching pattern task.filename.cStr file tasks _ htile
  have hone : ∀ t ∈ tasks,
      (searchTask host t maxLineCount).totalMatches.toNat =
          (matching pattern task.filename.cStr file t.startOffset.toNat t.endOffset.toNat).length ∧
        (searchTask host t maxLineCount).lines =
          matching pattern task.filename.cStr file t.startOffset.toNat t.endOffset.toNat := by
    intro t ht
    obtain ⟨heq, hstart, hend, hlines⟩ := chunk_range file task tasks htile hsame hcount t ht
    have hr := searchTask_range host task maxLineCount t.startOffset t.endOffset file pattern hopen
      hregex hstart hend hlines
    rw [← heq] at hr
    obtain ⟨h1, h2, -⟩ := hr
    refine ⟨h1, h2.trans (List.take_of_length_le ?_)⟩
    refine le_trans ?_ hlimit
    rw [← hwhole]
    exact length_le_flatMap
      (fun t => matching pattern task.filename.cStr file t.startOffset.toNat t.endOffset.toNat)
      tasks t ht
  constructor
  · rw [← hwhole]
    exact List.flatMap_congr fun t ht => (hone t ht).2
  · rw [← hwhole, List.length_flatMap]
    exact congrArg List.sum (List.map_congr_left fun t ht => (hone t ht).1)

/-- **Chunked search equals whole-file search.** A task counts the matching lines that start in its
byte range and returns the first of them; the tasks of `EnqueueFileChunks` own every line of the file
once, and their results in order are the result of one task for the whole file. -/
theorem chunked_search_eq_whole (host : Host) (task : TaskPayload) (file : LogFile)
    (pattern : Bytes → Bool) (hopen : host.openFile task.filename.cStr = some file)
    (hregex : host.regex task.keyword.cStr = some pattern) :
    (∀ startByte endByte maxLineCount : UInt64, startByte ≤ endByte → endByte.toNat ≤ 2 ^ 63 - 1 →
      (starts newline file.bytes startByte.toNat endByte.toNat).length < 2 ^ 32 →
      let r := searchTask host (withRange task startByte endByte) maxLineCount
      let hits := matching pattern task.filename.cStr file startByte.toNat endByte.toNat
      r.totalMatches.toNat = hits.length ∧ r.lines = hits.take maxLineCount.toNat) ∧
    (∀ chunk maxLineCount : UInt64, 0 < chunk → file.bytes.length + chunk.toNat < 2 ^ 64 →
      ∃ tasks, enqueueFileChunks chunk (UInt64.ofNat file.bytes.length) task [] = some tasks ∧
        tasks.flatMap (fun t => starts newline file.bytes t.startOffset.toNat t.endOffset.toNat) =
          starts newline file.bytes 0 file.bytes.length ∧
        ((starts newline file.bytes 0 file.bytes.length).length < 2 ^ 32 →
          (matching pattern task.filename.cStr file 0 file.bytes.length).length ≤ maxLineCount.toNat →
          let whole := searchTask host (withRange task 0 (UInt64.ofNat file.bytes.length)) maxLineCount
          tasks.flatMap (fun t => (searchTask host t maxLineCount).lines) = whole.lines ∧
            (tasks.map fun t => (searchTask host t maxLineCount).totalMatches.toNat).sum =
              whole.totalMatches.toNat)) := by
  have hfile := file.length_lt
  constructor
  · intro startByte endByte maxLineCount hle hend hcount
    rw [UInt64.le_iff_toNat_le] at hle
    obtain ⟨h1, h2, -⟩ := searchTask_range host task maxLineCount startByte endByte file pattern hopen
      hregex (by omega) (by omega) hcount
    exact ⟨h1, h2⟩
  · intro chunk maxLineCount hchunk hsum
    have hsize : (UInt64.ofNat file.bytes.length).toNat = file.bytes.length := by
      rw [UInt64.toNat_ofNat']; exact Nat.mod_eq_of_lt (by omega)
    rw [UInt64.lt_iff_toNat_lt] at hchunk
    obtain ⟨tasks, htasks, htile, hall⟩ := enqueueFileChunks_spec chunk
      (UInt64.ofNat file.bytes.length) task [] (by simpa using hchunk) (by omega)
    rw [hsize] at htile
    refine ⟨tasks, htasks, flatMap_starts file tasks _ htile, fun hcount hlimit => ?_⟩
    have hwhole := searchTask_range host task maxLineCount 0 (UInt64.ofNat file.bytes.length) file
      pattern hopen hregex (by simp) (by omega) (by rw [hsize]; exact hcount)
    rw [hsize] at hwhole
    obtain ⟨h1, h2, -⟩ := hwhole
    obtain ⟨h3, h4⟩ := chunks_results host task maxLineCount file pattern hopen hregex tasks htile
      (fun t ht => (hall t ht).1) hcount hlimit
    exact ⟨h3.trans (h2.trans (List.take_of_length_le hlimit)).symm, h4.trans h1.symm⟩

/-- A file with a CRLF line and no newline at its end. -/
def smallFile : LogFile := ⟨ascii "E1\r\nI\nE2", by decide⟩

/-- A machine with that one file, and a pattern that finds the letter `E`. -/
def smallHost : Host where
  openFile name := if name = ascii "a.log" then some smallFile else none
  regex keyword := if keyword = ascii "E" then some (fun line => decide (ch 'E' ∈ line)) else none
  uninit := 0

def smallTask : TaskPayload where
  searchId := 0
  taskId := 0
  maxResults := 10
  startOffset := 0
  endOffset := 0
  keyword := .strncpy 64 (ascii "E")
  filename := .strncpy 256 (ascii "a.log")

/-- The first line of the small file lies in a chunk of three bytes, and its three chunks find both matches. -/
theorem chunked_search_small :
    ((searchTask smallHost (withRange smallTask 0 3) 10).totalMatches.toNat = 1 ∧
      (searchTask smallHost (withRange smallTask 0 3) 10).lines = [ascii "a.log: E1"]) ∧
    ∃ tasks, enqueueFileChunks 3 8 smallTask [] = some tasks ∧
      tasks.flatMap (fun t => (searchTask smallHost t 10).lines) =
        (searchTask smallHost (withRange smallTask 0 8) 10).lines ∧
      (tasks.map fun t => (searchTask smallHost t 10).totalMatches.toNat).sum =
        (searchTask smallHost (withRange smallTask 0 8) 10).totalMatches.toNat := by
  have hname : smallTask.filename.cStr = ascii "a.log" := by decide
  have hkeyword : smallTask.keyword.cStr = ascii "E" := by decide
  obtain ⟨hone, hall⟩ := chunked_search_eq_whole smallHost smallTask smallFile
    (fun line => decide (ch 'E' ∈ line))
    (by simp [smallHost, hname]) (by simp [smallHost, hkeyword])
  constructor
  · obtain ⟨h1, h2⟩ := hone 0 3 10 (by decide) (by decide) (by decide)
    exact ⟨h1.trans (by decide), h2.trans (by decide)⟩
  · obtain ⟨tasks, htasks, -, hresults⟩ := hall 3 10 (by decide) (by decide)
    obtain ⟨h1, h2⟩ := hresults (by decide) (by decide)
    exact ⟨tasks, htasks, h1, h2⟩

end LogGrid.ChunkedSearch
