import LogGrid.BatchCodec
import LogGrid.ChunkedSearch

/-!
# The sizes in a batch

`SerializeBatch` narrows three numbers to 32 bits: the size of the body, the
length of each line and the count of the lines. A chunk bounds the lines that
start in it, so the count fits. A chunk does not bound how long they are.
-/

open LogGrid.StandardLayout LogGrid.Lines LogGrid.Ifstream LogGrid.BatchCodec LogGrid.Master
  LogGrid.FileProcessor LogGrid.ChunkedSearch

namespace LogGrid.BatchSize

/-! ## One batch -/

def linesSize (lines : List Bytes) : Nat := (lines.map fun line => 4 + line.length).sum

/-- The lines, then line count, total matches, search id and task id. -/
def bodySize (lines : List Bytes) : Nat := linesSize lines + 28

/-- The four bytes in front of the `i`-th line. -/
def lengthField (batch : ChunkResult) (i : Nat) : UInt32 :=
  ofBytes (((serializeBatch batch).body.drop (linesSize (batch.lines.take i))).take 4)

/-- No number in the message of a batch is reduced modulo `2 ^ 32`. -/
structure Exact (batch : ChunkResult) : Prop where
  size : (serializeBatch batch).header.size.toNat = (serializeBatch batch).body.length
  lengths : ∀ (i : Nat) (h : i < batch.lines.length), (lengthField batch i).toNat = batch.lines[i].length
  count : batch.linesFound.toNat = batch.lines.length

theorem bodySize_singleton (line : Bytes) : bodySize [line] = 4 + line.length + 28 := by
  simp [bodySize, linesSize]

theorem encodeLines_length (lines : List Bytes) : (encodeLines lines).length = linesSize lines := by
  unfold linesSize
  rw [encodeLines_eq, List.length_flatMap]
  simp only [encodeLine_length]

theorem serializeBatch_length (batch : ChunkResult) :
    (serializeBatch batch).body.length = bodySize batch.lines := by
  unfold bodySize
  rw [serializeBatch_body]
  simp only [List.length_append, toBytes_length, encodeLines_length, byteSize_uint32, byteSize_uint64]

theorem serializeBatch_size (batch : ChunkResult) :
    (serializeBatch batch).header.size.toNat = (serializeBatch batch).body.length % 2 ^ 32 := by
  rw [← UInt32.toNat_ofNat']
  rfl

theorem split_at (lines : List Bytes) (i : Nat) (h : i < lines.length) :
    lines = lines.take i ++ lines[i] :: lines.drop (i + 1) := by
  rw [List.getElem_cons_drop, List.take_append_drop]

theorem lengthField_eq (batch : ChunkResult) (i : Nat) (h : i < batch.lines.length) :
    (lengthField batch i).toNat = batch.lines[i].length % 2 ^ 32 := by
  have hbody : encodeLines batch.lines = encodeLines (batch.lines.take i) ++
      (encodeLine batch.lines[i] ++ encodeLines (batch.lines.drop (i + 1))) := by
    simp only [encodeLines_eq]
    conv_lhs => rw [split_at batch.lines i h, List.flatMap_append, List.flatMap_cons]
  unfold lengthField
  rw [serializeBatch_body, hbody, encodeLine]
  simp only [List.append_assoc]
  rw [List.drop_left' (encodeLines_length _), List.take_left' (by rw [toBytes_length, byteSize_uint32]),
    ofBytes_toBytes _ trivial, UInt32.toNat_ofNat']

theorem length_le_linesSize (lines : List Bytes) (i : Nat) (h : i < lines.length) :
    lines[i].length ≤ linesSize lines := by
  conv_rhs => rw [split_at lines i h]
  unfold linesSize
  rw [List.map_append, List.sum_append, List.map_cons, List.sum_cons]
  omega

theorem exact_iff (batch : ChunkResult) (hcount : batch.linesFound.toNat = batch.lines.length) :
    Exact batch ↔ bodySize batch.lines < 2 ^ 32 := by
  constructor
  · intro hexact
    have hsize := hexact.size
    rw [serializeBatch_size, serializeBatch_length] at hsize
    omega
  · intro hlt
    refine ⟨?_, ?_, hcount⟩
    · rw [serializeBatch_size, serializeBatch_length]
      exact Nat.mod_eq_of_lt hlt
    · intro i hi
      have hle := length_le_linesSize batch.lines i hi
      unfold bodySize at hlt
      rw [lengthField_eq batch i hi]
      exact Nat.mod_eq_of_lt (by omega)

/-! ## The tasks of the master -/

/-- A chunk of a file, under the id that `DispatchNextTask` gave it. -/
def Created (task : TaskPayload) : Prop :=
  ∃ (filepath keyword : Bytes) (searchId taskId : Nat) (config : SearchConfig) (fileSize : UInt64)
    (baseTask : TaskPayload) (tasks : List TaskPayload), fileSize.toNat < 2 ^ 63 ∧
    createChunkTask filepath keyword searchId config = .ok baseTask ∧
    enqueueFileChunks chunkSize fileSize baseTask [] = some tasks ∧ ∃ t ∈ tasks, task = { t with taskId }

/-- The task is about one chunk of a file. -/
def InChunk (task : TaskPayload) : Prop :=
  task.startOffset.toNat < 2 ^ 63 ∧ task.endOffset.toNat < 2 ^ 63 ∧
    task.endOffset.toNat ≤ task.startOffset.toNat + chunkSize.toNat

theorem Created.inChunk {task : TaskPayload} (h : Created task) : InChunk task := by
  obtain ⟨filepath, keyword, searchId, taskId, config, fileSize, baseTask, tasks, hsize, -, htasks, t, ht,
    rfl⟩ := h
  obtain ⟨tasks', htasks', htile, hall⟩ := enqueueFileChunks_spec chunkSize fileSize baseTask [] (by decide)
    (by simp [chunkSize]; omega)
  rw [htasks, List.nil_append, Option.some.injEq] at htasks'
  rw [htasks'] at ht
  have hbounds := htile.mem_bounds (List.mem_map_of_mem ht)
  simp only [Master.range] at hbounds
  exact ⟨by simp only; omega, by simp only; omega, (hall t ht).2⟩

theorem created_first (filepath keyword : Bytes) (searchId taskId : Nat) (config : SearchConfig)
    (fileSize endByte : UInt64) (hpath : filepath.length < 256) (hpos : 0 < fileSize)
    (hsize : fileSize.toNat < 2 ^ 63) (hend : endByte = min chunkSize fileSize) :
    Created {
      searchId
      taskId
      maxResults := config.maxResults
      startOffset := 0
      endOffset := endByte
      keyword := .strncpy 64 keyword
      filename := .strncpy 256 filepath } := by
  have hbase : ∃ baseTask, createChunkTask filepath keyword searchId config = .ok baseTask := by
    unfold createChunkTask
    rw [if_neg (by omega)]
    exact ⟨_, rfl⟩
  obtain ⟨baseTask, hbase⟩ := hbase
  obtain ⟨tasks, htasks, -, -⟩ := enqueueFileChunks_spec chunkSize fileSize baseTask [] (by decide)
    (by simp [chunkSize]; omega)
  rw [List.nil_append] at htasks
  subst hend
  refine ⟨filepath, keyword, searchId, taskId, config, fileSize, baseTask, tasks, hsize, hbase, htasks, _,
    enqueueFileChunks_first _ _ _ tasks hpos htasks, ?_⟩
  unfold createChunkTask at hbase
  rw [if_neg (by omega), Except.ok.injEq] at hbase
  rw [← hbase]

/-- The result lines of the lines that start in the task's chunk. -/
def hits (host : Host) (task : TaskPayload) : List Bytes :=
  match host.openFile task.filename.cStr, host.regex task.keyword.cStr with
  | some file, some pattern =>
    matching pattern task.filename.cStr file task.startOffset.toNat task.endOffset.toNat
  | _, _ => []

/-- The first of them, as many as the task allows. -/
def results (host : Host) (task : TaskPayload) : List Bytes := (hits host task).take task.maxResults.toNat

theorem searchTask_results (host : Host) (task : TaskPayload) (h : InChunk task) :
    (searchTask host task task.maxResults).totalMatches.toNat = (hits host task).length ∧
      (searchTask host task task.maxResults).lines = results host task ∧
      (searchTask host task task.maxResults).linesFound.toNat =
        (searchTask host task task.maxResults).lines.length := by
  obtain ⟨hstart, hend, hchunk⟩ := h
  unfold results hits
  cases hopen : host.openFile task.filename.cStr with
  | none =>
    have hnone : searchTask host task task.maxResults = {} := by rw [searchTask, hopen]
    rw [hnone]
    exact ⟨rfl, List.take_nil.symm, rfl⟩
  | some file =>
    cases hregex : host.regex task.keyword.cStr with
    | none =>
      have hnone : searchTask host task task.maxResults = {} := by simp only [searchTask, hopen, hregex]
      rw [hnone]
      exact ⟨rfl, List.take_nil.symm, rfl⟩
    | some pattern =>
      have hle := starts_length_le newline file.bytes task.startOffset.toNat task.endOffset.toNat
      have hmax : chunkSize.toNat < 2 ^ 32 := by decide
      exact searchTask_spec host task task.maxResults file pattern hopen hregex hstart hend (by omega)

/-- **Batch sizes.** The line count is exact for every task of the master, and every size in the message
is exact exactly when the result lines of the chunk, their lengths and the fields take less than
`2 ^ 32` bytes. -/
theorem batch_sizes_exact_iff (host : Host) (task : TaskPayload) (hcreated : Created task)
    (searchId taskId : UInt64) :
    let batch := { searchTask host task task.maxResults with searchId, taskId }
    batch.linesFound.toNat = batch.lines.length ∧ (Exact batch ↔ bodySize (results host task) < 2 ^ 32) := by
  obtain ⟨-, hlines, hcount⟩ := searchTask_results host task hcreated.inChunk
  refine ⟨hcount, ?_⟩
  rw [← hlines]
  exact exact_iff _ hcount

/-- A small file is one chunk, and nothing in its batch wraps. -/
theorem batch_sizes_exact_small : Exact { searchTask smallHost (withRange smallTask 0 8) 10 with
    searchId := 0, taskId := 0 } :=
  (batch_sizes_exact_iff smallHost (withRange smallTask 0 8)
    (created_first (ascii "a.log") (ascii "E") 0 0 { maxResults := 10 } 8 8 (by decide) (by decide) (by decide)
      (by decide)) 0 0).2.mpr (by decide)

/-! ## One long line -/

theorem matching_one_line (name : Bytes) (file : LogFile) (n e : Nat)
    (hbytes : file.bytes = List.replicate (n + 1) (ch 'E')) (he : 0 < e) :
    matching (fun line => decide (ch 'E' ∈ line)) name file 0 e = [formatLine name file.bytes] := by
  generalize hpattern : (fun line : Bytes => decide (ch 'E' ∈ line)) = pattern
  have hfile : file.bytes ≠ [] := by
    rw [hbytes]
    exact List.cons_ne_nil _ _
  have hline : newline ∉ file.bytes := by
    rw [hbytes, List.mem_replicate]
    rintro ⟨-, hnewline⟩
    exact absurd hnewline (by decide)
  have hcr : dropCr file.bytes = file.bytes := by
    unfold dropCr
    rw [if_neg]
    rw [hbytes, List.getLast?_replicate, if_neg (Nat.succ_ne_zero n)]
    decide
  have hmatch : pattern file.bytes = true := by
    rw [← hpattern, hbytes, decide_eq_true_eq, List.mem_replicate]
    exact ⟨Nat.succ_ne_zero n, rfl⟩
  unfold matching
  rw [linesIn_one_line newline file.bytes _ hfile hline he, List.map_singleton, hcr,
    List.filter_cons_of_pos hmatch, List.filter_nil, List.map_singleton]

def longLinePath : Bytes := ascii "/data/a.log"

/-- `2 ^ 32` letters and no newline. -/
def longLine : Bytes := List.replicate (2 ^ 32) (ch 'E')

theorem longLine_length : longLine.length = 2 ^ 32 := List.length_replicate

def longLineFile : LogFile where
  bytes := longLine
  length_lt := by rw [longLine_length]; omega

def longLineHost : Host where
  openFile name := if name = longLinePath then some longLineFile else none
  regex keyword := if keyword = ascii "E" then some (fun line => decide (ch 'E' ∈ line)) else none
  uninit := 0

/-- The first chunk of the file, dispatched under the id 1. -/
def longLineTask : TaskPayload where
  searchId := 0
  taskId := 1
  maxResults := 10000
  startOffset := 0
  endOffset := chunkSize
  keyword := .strncpy 64 (ascii "E")
  filename := .strncpy 256 longLinePath

theorem longLineTask_created : Created longLineTask :=
  created_first longLinePath (ascii "E") 0 1 {} (2 ^ 32) chunkSize (by decide) (by decide) (by decide) (by decide)

theorem results_long_line : results longLineHost longLineTask = [formatLine longLinePath longLineFile.bytes] := by
  have hname : longLineTask.filename.cStr = longLinePath := by decide
  have hkeyword : longLineTask.keyword.cStr = ascii "E" := by decide
  have hopen : longLineHost.openFile longLinePath = some longLineFile := by
    unfold longLineHost
    simp only [if_true]
  have hregex : longLineHost.regex (ascii "E") = some (fun line => decide (ch 'E' ∈ line)) := by
    unfold longLineHost
    simp only [if_true]
  obtain ⟨n, hn⟩ : ∃ n, 2 ^ 32 = n + 1 := ⟨2 ^ 32 - 1, by omega⟩
  have hbytes : longLineFile.bytes = List.replicate (n + 1) (ch 'E') := by
    show longLine = _
    unfold longLine
    rw [hn]
  have hone := matching_one_line longLinePath longLineFile n chunkSize.toNat hbytes (by decide)
  unfold results hits
  rw [hname, hkeyword, hopen, hregex]
  simp only
  rw [show longLineTask.startOffset.toNat = 0 from rfl, show longLineTask.endOffset = chunkSize from rfl, hone,
    List.take_of_length_le (by rw [List.length_singleton]; decide)]

/-- The line does not fit its length field and the message does not fit its size. -/
theorem batch_sizes_wrap : Created longLineTask ∧
    let batch := searchTask longLineHost longLineTask longLineTask.maxResults
    (serializeBatch batch).body.length = 2 ^ 32 + 45 ∧ (serializeBatch batch).header.size.toNat = 45 ∧
      (lengthField batch 0).toNat = 13 ∧ ¬ Exact batch := by
  refine ⟨longLineTask_created, ?_⟩
  obtain ⟨-, hlines, -⟩ := searchTask_results longLineHost longLineTask longLineTask_created.inChunk
  rw [results_long_line] at hlines
  generalize searchTask longLineHost longLineTask longLineTask.maxResults = batch at hlines
  have hlen : (formatLine longLinePath longLineFile.bytes).length = 2 ^ 32 + 13 := by
    have hpath : longLinePath.length = 11 := rfl
    have hcolon : (ascii ": ").length = 2 := rfl
    have hfile : longLineFile.bytes.length = 2 ^ 32 := longLine_length
    unfold formatLine
    rw [List.length_append, List.length_append]
    omega
  have hlength := serializeBatch_length batch
  rw [hlines, bodySize_singleton, hlen] at hlength
  have hbody : (serializeBatch batch).body.length = 2 ^ 32 + 45 := by omega
  have hsize : (serializeBatch batch).header.size.toNat = 45 := by
    have hmod := serializeBatch_size batch
    omega
  refine ⟨hbody, hsize, ?_, ?_⟩
  · have hfield := lengthField_eq batch 0 (by rw [hlines]; exact Nat.zero_lt_one)
    simp only [hlines, List.getElem_cons_zero] at hfield
    omega
  · intro hexact
    have := hexact.size
    omega

end LogGrid.BatchSize
