import LogGrid.Common.Message
import Mathlib.Data.List.Range

/-!
# The result batch on the wire

`SerializeBatch` runs on a worker and `DeserializeBatch` on the master. The
lines stand at the front of the body, each behind its length; the fixed fields
are pushed behind them and come off in the opposite order.
-/

open LogGrid.StandardLayout

namespace LogGrid.BatchCodec

/-! ## The worker's side -/

/-- What the loop of `SerializeBatch` writes for one line. The length is narrowed to 32 bits. -/
def encodeLine (line : Bytes) : Bytes := toBytes (UInt32.ofNat line.length) ++ line

def encodeLines (lines : List Bytes) : Bytes := lines.foldl (fun body line => body ++ encodeLine line) []

def serializeBatch (batch : ChunkResult) : Message :=
  let body := encodeLines batch.lines
  let msg : Message := { header := { size := UInt32.ofNat body.length }, body }
  (((msg.push batch.linesFound).push batch.totalMatches).push batch.searchId).push batch.taskId

/-- The message that `WorkerClient::SendTaskDone` sends. -/
def taskDoneMessage (batch : ChunkResult) : Message :=
  let msg := serializeBatch batch
  { msg with header := { msg.header with id := LogSearchMsg.workerTaskDone.value } }

/-! ## The master's side -/

/-- How a decoder can fail: with an exception, or by a read outside the body, which C++ leaves undefined. -/
inductive Fault
  | thrown (e : Exn)
  | outOfBounds
  deriving DecidableEq, Repr

/-- The local variables of the loop in `DeserializeBatch`, and the offsets it has read so far. -/
structure LineReader where
  lines : List Bytes := []
  offset : Nat := 0
  reads : List Nat := []

/-- One turn of the loop: `memcpy` of the length, then the bytes of the line. -/
def readLine (body : Bytes) (r : LineReader) : Except Fault LineReader :=
  if body.length < r.offset + 4 then .error .outOfBounds
  else
    let len : UInt32 := ofBytes ((body.drop r.offset).take 4)
    if body.length < r.offset + 4 + len.toNat then .error .outOfBounds
    else .ok {
      lines := r.lines ++ [(body.drop (r.offset + 4)).take len.toNat]
      offset := r.offset + 4 + len.toNat
      reads := r.reads ++ List.range' r.offset (4 + len.toNat) }

def readLines (body : Bytes) : Nat → LineReader → Except Fault LineReader
  | 0, r => .ok r
  | n + 1, r =>
    match readLine body r with
    | .error e => .error e
    | .ok r => readLines body n r

/-- `msg >> data`, and the offsets it reads. -/
def popField (α : Type) [StandardLayout α] (msg : Message) : Except Fault (α × Message × List Nat) :=
  match msg.pop α with
  | .error e => .error (.thrown e)
  | .ok (data, rest) => .ok (data, rest, List.range' rest.body.length (byteSize α))

/-- `MasterServer::DeserializeBatch`, with the offsets it reads. -/
def deserializeBatch (msg : Message) : Except Fault (ChunkResult × List Nat) := do
  let (searchId, msg, r₁) ← popField UInt64 msg
  let (totalMatches, msg, r₂) ← popField UInt64 msg
  let (lineCount, msg, r₃) ← popField UInt32 msg
  let r ← readLines msg.body lineCount.toNat {}
  return ({ lines := r.lines, searchId, totalMatches, linesFound := lineCount },
    r.reads ++ r₃ ++ r₂ ++ r₁)

/-- The two decoding steps of `OnMessage`: the task id comes off first, then the batch. -/
def receiveBatch (msg : Message) : Except Fault (UInt64 × ChunkResult × List Nat) := do
  let (taskId, msg, r₁) ← popField UInt64 msg
  let (batch, r₂) ← deserializeBatch msg
  return (taskId, batch, r₂ ++ r₁)

/-! ## Round trip -/

theorem encodeLines_append (front : Bytes) (lines : List Bytes) :
    lines.foldl (fun body line => body ++ encodeLine line) front = front ++ lines.flatMap encodeLine := by
  induction lines generalizing front with
  | nil => simp
  | cons line lines ih => rw [List.foldl_cons, ih, List.flatMap_cons, List.append_assoc]

theorem encodeLines_eq (lines : List Bytes) : encodeLines lines = lines.flatMap encodeLine := by
  rw [encodeLines, encodeLines_append, List.nil_append]

theorem encodeLine_length (line : Bytes) : (encodeLine line).length = 4 + line.length := by
  rw [encodeLine, List.length_append, toBytes_length]; rfl

theorem readLine_encoded (body : Bytes) (r : LineReader) (line rest : Bytes)
    (hline : line.length < 2 ^ 32) (hbody : body.drop r.offset = encodeLine line ++ rest) :
    readLine body r = .ok {
      lines := r.lines ++ [line]
      offset := r.offset + (encodeLine line).length
      reads := r.reads ++ List.range' r.offset (encodeLine line).length } := by
  have hlen := congrArg List.length hbody
  rw [List.length_drop, List.length_append, encodeLine_length] at hlen
  have hpre : (body.drop r.offset).take 4 = toBytes (UInt32.ofNat line.length) := by
    rw [hbody, encodeLine, List.append_assoc, List.take_left' (by rw [toBytes_length]; rfl)]
  have hval : (ofBytes ((body.drop r.offset).take 4) : UInt32).toNat = line.length := by
    rw [hpre, ofBytes_toBytes _ trivial, UInt32.toNat_ofNat']
    exact Nat.mod_eq_of_lt hline
  have htext : (body.drop (r.offset + 4)).take line.length = line := by
    rw [← List.drop_drop, hbody, encodeLine, List.append_assoc,
      List.drop_left' (by rw [toBytes_length]; rfl), List.take_left]
  rw [readLine, if_neg (by omega)]
  simp only [hval, htext, encodeLine_length]
  rw [if_neg (by omega), Nat.add_assoc]

theorem readLines_encoded (body : Bytes) (lines : List Bytes) (r : LineReader)
    (hlines : ∀ line ∈ lines, line.length < 2 ^ 32)
    (hbody : body.drop r.offset = lines.flatMap encodeLine) :
    readLines body lines.length r = .ok {
      lines := r.lines ++ lines
      offset := r.offset + (lines.flatMap encodeLine).length
      reads := r.reads ++ List.range' r.offset (lines.flatMap encodeLine).length } := by
  induction lines generalizing r with
  | nil => simp [readLines]
  | cons line lines ih =>
    rw [List.flatMap_cons] at hbody
    rw [List.length_cons, readLines,
      readLine_encoded body r line _ (hlines line (by simp)) hbody]
    simp only
    rw [ih _ (fun l hl => hlines l (by simp [hl]))]
    · simp only [List.flatMap_cons, List.length_append, List.append_assoc, List.singleton_append,
        Nat.add_assoc, ← List.range'_append_1]
    · simp only
      rw [← List.drop_drop, hbody, List.drop_left]

theorem popField_of_body {α : Type} [StandardLayout α] (msg : Message) (front : Bytes) (data : α)
    (hbody : msg.body = front ++ toBytes data) (hdata : Holds data) :
    ∃ rest : Message, rest.body = front ∧
      popField α msg = .ok (data, rest, List.range' front.length (byteSize α)) := by
  refine ⟨⟨{ msg.header with size := UInt32.ofNat front.length }, front⟩, rfl, ?_⟩
  rw [popField, Message.pop_of_body msg front data hbody hdata]

theorem byteSize_uint32 : byteSize UInt32 = 4 := rfl
theorem byteSize_uint64 : byteSize UInt64 = 8 := rfl

theorem range_glue (n k : Nat) : List.range' 0 n ++ List.range' n k = List.range' 0 (n + k) := by
  have h := @List.range'_append_1 0 n k
  rwa [Nat.zero_add] at h

theorem serializeBatch_body (batch : ChunkResult) :
    (serializeBatch batch).body = (((encodeLines batch.lines ++ toBytes batch.linesFound) ++
      toBytes batch.totalMatches) ++ toBytes batch.searchId) ++ toBytes batch.taskId := rfl

theorem deserializeBatch_of_body (msg : Message) (batch : ChunkResult)
    (hmsg : msg.body = ((encodeLines batch.lines ++ toBytes batch.linesFound) ++
      toBytes batch.totalMatches) ++ toBytes batch.searchId)
    (hcount : batch.linesFound.toNat = batch.lines.length) (hlines : ∀ line ∈ batch.lines, line.length < 2 ^ 32) :
    deserializeBatch msg = .ok ({ batch with taskId := 0 }, List.range msg.body.length) := by
  obtain ⟨m₁, hm₁, h₁⟩ := popField_of_body msg _ batch.searchId hmsg trivial
  obtain ⟨m₂, hm₂, h₂⟩ := popField_of_body m₁ _ batch.totalMatches hm₁ trivial
  obtain ⟨m₃, hm₃, h₃⟩ := popField_of_body m₂ _ batch.linesFound hm₂ trivial
  have hread := readLines_encoded m₃.body batch.lines {} hlines (by rw [hm₃, encodeLines_eq]; rfl)
  rw [← hcount] at hread
  have hlen : msg.body.length = (encodeLines batch.lines).length + 4 + 8 + 8 := by
    rw [hmsg]; simp only [List.length_append, toBytes_length]; rfl
  simp only [deserializeBatch, h₁, h₂, h₃, hread, bind, Except.bind, pure, Except.pure]
  rw [hlen, List.range_eq_range', ← encodeLines_eq]
  simp only [List.length_append, toBytes_length, List.nil_append, byteSize_uint32, byteSize_uint64,
    range_glue]

theorem receiveBatch_of_body (msg : Message) (batch : ChunkResult)
    (hmsg : msg.body = (serializeBatch batch).body) (hcount : batch.linesFound.toNat = batch.lines.length)
    (hlines : ∀ line ∈ batch.lines, line.length < 2 ^ 32) :
    receiveBatch msg = .ok (batch.taskId, { batch with taskId := 0 }, List.range msg.body.length) := by
  rw [serializeBatch_body] at hmsg
  obtain ⟨rest, hrest, h₁⟩ := popField_of_body msg _ batch.taskId hmsg trivial
  have h₂ := deserializeBatch_of_body rest batch hrest hcount hlines
  have hlen : msg.body.length = rest.body.length + 8 := by
    rw [hmsg, hrest]; simp only [List.length_append, toBytes_length]; rfl
  simp only [receiveBatch, h₁, h₂, bind, Except.bind, pure, Except.pure]
  rw [hlen, hrest, List.range_eq_range', List.range_eq_range']
  simp only [List.length_append, toBytes_length, byteSize_uint32, byteSize_uint64, range_glue]

/-- **Result batch round trip.** The master gets back the batch that the worker serialized, and reads
every byte of the body once. -/
theorem batch_round_trip (batch : ChunkResult) (hcount : batch.linesFound.toNat = batch.lines.length)
    (hlines : ∀ line ∈ batch.lines, line.length < 2 ^ 32)
    (_hbody : (serializeBatch batch).body.length < 2 ^ 32) :
    ∃ decoded reads, receiveBatch (serializeBatch batch) = .ok (batch.taskId, decoded, reads) ∧
      decoded.searchId = batch.searchId ∧ decoded.totalMatches = batch.totalMatches ∧
      decoded.linesFound = batch.linesFound ∧ decoded.lines = batch.lines ∧
      reads.Perm (List.range (serializeBatch batch).body.length) := by
  have h := receiveBatch_of_body (serializeBatch batch) batch rfl hcount hlines
  exact ⟨_, _, h, rfl, rfl, rfl, rfl, List.Perm.refl _⟩

/-- An empty line and bytes that are not text survive too. -/
theorem batch_round_trip_two_lines :
    let batch : ChunkResult :=
      { lines := [[0, 255, 10], []], searchId := 7, taskId := 9, totalMatches := 5, linesFound := 2 }
    ∃ decoded reads, receiveBatch (serializeBatch batch) = .ok (batch.taskId, decoded, reads) ∧
      decoded.searchId = batch.searchId ∧ decoded.totalMatches = batch.totalMatches ∧
      decoded.linesFound = batch.linesFound ∧ decoded.lines = batch.lines ∧
      reads.Perm (List.range (serializeBatch batch).body.length) :=
  batch_round_trip
    { lines := [[0, 255, 10], []], searchId := 7, taskId := 9, totalMatches := 5, linesFound := 2 }
    rfl (by decide) (by decide)

end LogGrid.BatchCodec
