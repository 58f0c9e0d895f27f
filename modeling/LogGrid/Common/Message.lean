import LogGrid.Base.LittleEndian
import Mathlib.Data.List.TakeWhile

/-!
# Messages and payloads

The wire types of `net_message.hpp` and `LogSearchCommon.hpp`. A C++ `char` or
`uint8_t` is a `UInt8`, and a `std::string` or a body is a list of them.
-/

namespace LogGrid

abbrev Bytes := List UInt8

/-- The bytes of a source literal. -/
def ascii (s : String) : Bytes := s.toList.map fun c => UInt8.ofNat c.toNat

def ch (c : Char) : UInt8 := UInt8.ofNat c.toNat

/-- The exceptions of the modelled code, with the text of `what()` where the code sets it. -/
inductive Exn
  | runtimeError (what : Bytes)
  | filesystemError
  | badAlloc
  deriving DecidableEq, Repr

/-! ## Plain data in a message body -/

/-- A type that `std::is_standard_layout` accepts: a value is a fixed number of bytes.
`Holds` names the values the bytes can carry, which matters only where a 64-bit counter is
modelled by a `Nat`. -/
class StandardLayout (α : Type) where
  byteSize : Nat
  toBytes : α → Bytes
  ofBytes : Bytes → α
  Holds : α → Prop
  toBytes_length : ∀ a, (toBytes a).length = byteSize
  ofBytes_toBytes : ∀ a, Holds a → ofBytes (toBytes a) = a

open StandardLayout

instance : StandardLayout UInt32 where
  byteSize := 4
  toBytes n := LittleEndian.encode 4 n.toNat
  ofBytes bs := UInt32.ofNat (LittleEndian.decode bs)
  Holds _ := True
  toBytes_length _ := LittleEndian.encode_length _ _
  ofBytes_toBytes n _ := by
    rw [LittleEndian.decode_encode_of_lt _ _ (by simpa using n.toNat_lt), UInt32.ofNat_toNat]

instance : StandardLayout UInt64 where
  byteSize := 8
  toBytes n := LittleEndian.encode 8 n.toNat
  ofBytes bs := UInt64.ofNat (LittleEndian.decode bs)
  Holds _ := True
  toBytes_length _ := LittleEndian.encode_length _ _
  ofBytes_toBytes n _ := by
    rw [LittleEndian.decode_encode_of_lt _ _ (by simpa using n.toNat_lt), UInt64.ofNat_toNat]

/-! ## `message` -/

/-- `LogSearchMsg`. -/
inductive LogSearchMsg
  | workerHello
  | serverSearchTask
  | workerTaskDone
  | serverJobFinished
  deriving DecidableEq, Repr

/-- The enumerator's value, as `message_header::id` holds it. -/
def LogSearchMsg.value : LogSearchMsg → UInt32
  | .workerHello => 0
  | .serverSearchTask => 1
  | .workerTaskDone => 2
  | .serverJobFinished => 3

/-- `message_header`. A peer can put any value into `id`, so it is not a `LogSearchMsg`. -/
structure MessageHeader where
  id : UInt32 := 0
  size : UInt32 := 0
  deriving DecidableEq, Repr, Inhabited

/-- `message`. -/
structure Message where
  header : MessageHeader := {}
  body : Bytes := []
  deriving DecidableEq, Repr, Inhabited

namespace Message

variable {α : Type} [StandardLayout α]

def size (msg : Message) : UInt32 := UInt32.ofNat msg.body.length

def push (msg : Message) (data : α) : Message :=
  let body := msg.body ++ toBytes data
  ⟨{ msg.header with size := UInt32.ofNat body.length }, body⟩

/-- `operator>>`. The value comes off the end of the body. -/
def pop (α : Type) [StandardLayout α] (msg : Message) : Except Exn (α × Message) :=
  if msg.body.length < byteSize α then
    .error (.runtimeError (ascii "Trying to read more data than is available in packet"))
  else
    let startIndex := msg.body.length - byteSize α
    let body := msg.body.take startIndex
    .ok (ofBytes (msg.body.drop startIndex),
      ⟨{ msg.header with size := UInt32.ofNat body.length }, body⟩)

@[simp] theorem push_body (msg : Message) (data : α) :
    (msg.push data).body = msg.body ++ toBytes data := rfl

theorem pop_of_body (msg : Message) (front : Bytes) (data : α) (hbody : msg.body = front ++ toBytes data)
    (hdata : Holds data) :
    msg.pop α = .ok (data,
      ⟨{ msg.header with size := UInt32.ofNat front.length }, front⟩) := by
  have hlen : msg.body.length - byteSize α = front.length := by
    rw [hbody, List.length_append, toBytes_length, Nat.add_sub_cancel]
  have henough : ¬ msg.body.length < byteSize α := by
    rw [hbody, List.length_append, toBytes_length]; omega
  rw [pop, if_neg henough]
  simp only [hlen]
  rw [hbody, List.take_left, List.drop_left, ofBytes_toBytes _ hdata]

end Message

/-! ## Payloads -/

/-- `char[n]`. -/
structure CharArray (n : Nat) where
  bytes : Bytes
  length_eq : bytes.length = n
  deriving DecidableEq

namespace CharArray

/-- The C string in the array: the bytes before the first zero. -/
def cStr {n : Nat} (a : CharArray n) : Bytes := a.bytes.takeWhile (· ≠ 0)

/-- `strncpy` into the array, then a zero in its last element. -/
def strncpy (n : Nat) (src : Bytes) : CharArray n where
  bytes := (((src.takeWhile (· ≠ 0)).take n).rightpad n 0).set (n - 1) 0
  length_eq := by simp [List.rightpad]

def ofBytes (n : Nat) (bs : Bytes) : CharArray n where
  bytes := (bs.take n).rightpad n 0
  length_eq := by simp [List.rightpad]

theorem ofBytes_bytes {n : Nat} (a : CharArray n) : ofBytes n a.bytes = a := by
  obtain ⟨bs, h⟩ := a
  simp [ofBytes, List.rightpad, h, List.take_of_length_le h.le]

theorem not_mem_cStr {n : Nat} (a : CharArray n) : 0 ∉ a.cStr := by
  intro hmem
  have := List.mem_takeWhile_imp hmem
  simp at this

theorem cStr_strncpy_length (n : Nat) (text : Bytes) (hn : 0 < n) : (strncpy n text).cStr.length < n := by
  have hle : (strncpy n text).cStr.length ≤ (strncpy n text).bytes.length :=
    (List.takeWhile_prefix _).length_le
  rw [(strncpy n text).length_eq] at hle
  rcases Nat.lt_or_eq_of_le hle with hlt | heq
  · exact hlt
  · -- The string would be the whole array, zero included.
    have hwhole : (strncpy n text).cStr = (strncpy n text).bytes := by
      apply List.IsPrefix.eq_of_length (List.takeWhile_prefix _)
      rw [(strncpy n text).length_eq]
      exact heq
    have hzero : 0 ∈ (strncpy n text).bytes := by
      unfold strncpy
      simp only
      rw [List.mem_iff_getElem]
      refine ⟨n - 1, ?_, ?_⟩
      · have := (strncpy n text).length_eq
        simp only [strncpy] at this
        omega
      · simp
    rw [← hwhole] at hzero
    exact absurd hzero (not_mem_cStr _)

theorem cStr_strncpy (n : Nat) (text : Bytes) (hlen : text.length < n) (htext : 0 ∉ text) :
    (strncpy n text).cStr = text := by
  have hall : ∀ b ∈ text, decide (b ≠ 0) = true := by
    intro b hb
    simp only [decide_eq_true_eq]
    rintro rfl
    exact htext hb
  have hbytes : (strncpy n text).bytes = text ++ List.replicate (n - text.length) 0 := by
    simp only [strncpy, List.takeWhile_eq_self_iff.mpr hall, List.take_of_length_le hlen.le,
      List.rightpad]
    rw [List.set_append_right _ _ (by omega)]
    congr 1
    exact List.ext_getElem (by simp) (by simp)
  obtain ⟨k, hk⟩ : ∃ k, n - text.length = k + 1 := ⟨n - text.length - 1, by omega⟩
  rw [cStr, hbytes, hk, List.replicate_succ, List.takeWhile_append_of_pos hall]
  simp

theorem cStr_strncpy_iff (n : Nat) (text : Bytes) (hn : 0 < n) :
    (strncpy n text).cStr = text ↔ text.length < n ∧ 0 ∉ text := by
  constructor
  · intro h
    constructor
    · rw [← h]
      exact cStr_strncpy_length n text hn
    · rw [← h]
      exact not_mem_cStr _
  · rintro ⟨hlen, htext⟩
    exact cStr_strncpy n text hlen htext

end CharArray

/-- `TaskPayload`. The two ids are `Nat`: each comes from a 64-bit counter that only ever counts up. -/
structure TaskPayload where
  searchId : Nat
  taskId : Nat
  maxResults : UInt64
  startOffset : UInt64
  endOffset : UInt64
  keyword : CharArray 64
  filename : CharArray 256
  deriving DecidableEq

theorem slice (front part back : Bytes) (offset len : Nat) (hoffset : front.length = offset)
    (hlen : part.length = len) : ((front ++ (part ++ back)).drop offset).take len = part := by
  rw [List.drop_left' hoffset, List.take_left' hlen]

instance : StandardLayout TaskPayload where
  byteSize := 360
  toBytes t :=
    LittleEndian.encode 8 t.searchId ++ LittleEndian.encode 8 t.taskId ++ toBytes t.maxResults ++
      toBytes t.startOffset ++ toBytes t.endOffset ++ t.keyword.bytes ++ t.filename.bytes
  ofBytes bs := {
    searchId := LittleEndian.decode (bs.take 8)
    taskId := LittleEndian.decode ((bs.drop 8).take 8)
    maxResults := ofBytes ((bs.drop 16).take 8)
    startOffset := ofBytes ((bs.drop 24).take 8)
    endOffset := ofBytes ((bs.drop 32).take 8)
    keyword := .ofBytes 64 ((bs.drop 40).take 64)
    filename := .ofBytes 256 (bs.drop 104) }
  Holds t := t.searchId < 2 ^ 64 ∧ t.taskId < 2 ^ 64
  toBytes_length t := by
    simp only [List.length_append, LittleEndian.encode_length, toBytes_length, t.keyword.length_eq,
      t.filename.length_eq]
    rfl
  ofBytes_toBytes t h := by
    have h64 : ∀ n : UInt64, (toBytes n).length = 8 := fun n => toBytes_length n
    have hid : ∀ n : Nat, (LittleEndian.encode 8 n).length = 8 := LittleEndian.encode_length 8
    obtain ⟨hs, ht⟩ := h
    obtain ⟨searchId, taskId, maxResults, startOffset, endOffset, keyword, filename⟩ := t
    simp only [List.append_assoc, TaskPayload.mk.injEq]
    refine ⟨?_, ?_, ?_, ?_, ?_, ?_, ?_⟩
    · rw [List.take_left' (hid _)]
      exact LittleEndian.decode_encode_of_lt _ _ (by simpa using hs)
    · rw [slice (LittleEndian.encode 8 searchId) _ _ 8 8 (hid _) (hid _)]
      exact LittleEndian.decode_encode_of_lt _ _ (by simpa using ht)
    · rw [← List.append_assoc, slice _ (toBytes maxResults) _ 16 8 (by simp [hid]) (h64 _)]
      exact ofBytes_toBytes _ trivial
    · rw [← List.append_assoc, ← List.append_assoc,
        slice _ (toBytes startOffset) _ 24 8 (by simp [hid, h64]) (h64 _)]
      exact ofBytes_toBytes _ trivial
    · rw [← List.append_assoc, ← List.append_assoc, ← List.append_assoc,
        slice _ (toBytes endOffset) _ 32 8 (by simp [hid, h64]) (h64 _)]
      exact ofBytes_toBytes _ trivial
    · rw [← List.append_assoc, ← List.append_assoc, ← List.append_assoc, ← List.append_assoc,
        slice _ keyword.bytes _ 40 64 (by simp [hid, h64]) keyword.length_eq]
      exact CharArray.ofBytes_bytes keyword
    · rw [← List.append_assoc, ← List.append_assoc, ← List.append_assoc, ← List.append_assoc,
        ← List.append_assoc, List.drop_left' (by simp [hid, h64, keyword.length_eq])]
      exact CharArray.ofBytes_bytes filename

/-- `ChunkResult`. -/
structure ChunkResult where
  lines : List Bytes := []
  searchId : UInt64 := 0
  taskId : UInt64 := 0
  totalMatches : UInt64 := 0
  linesFound : UInt32 := 0
  deriving DecidableEq, Repr

/-- `HelloMessage`. -/
structure HelloMessage where
  threadsAvailable : UInt64
  deriving DecidableEq, Repr

instance : StandardLayout HelloMessage where
  byteSize := 8
  toBytes h := toBytes h.threadsAvailable
  ofBytes bs := ⟨ofBytes bs⟩
  Holds _ := True
  toBytes_length _ := LittleEndian.encode_length _ _
  ofBytes_toBytes h _ := by rw [ofBytes_toBytes _ trivial]

end LogGrid
