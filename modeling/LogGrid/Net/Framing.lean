import LogGrid.Net.Connection
import Mathlib.Data.List.Chain

/-!
# Framing

One end's writer, any cutting of its bytes, and the other end's reader. The
writer puts out the frames of the messages in the order they were sent. The
reader takes frames off again, but its one temporary message keeps the body of
an earlier frame when a frame has no body of its own.
-/

open LogGrid.StandardLayout

namespace LogGrid.Net.Framing

open Connection

/-! ## The writer -/

def frame (msg : Message) : Bytes := toBytes msg.header ++ msg.body

inductive WriterEvent
  | send (msg : Message)
  | wrote (ok : Bool)
  deriving DecidableEq

/-- The next handler of the writing side; a completion needs an outstanding write. -/
def writerStep (c : Connection) : WriterEvent → Option Connection
  | .send msg => some (c.send msg)
  | .wrote ok =>
    match c.writing with
    | none => none
    | some .header => some (c.onWriteHeader ok)
    | some .body => some (c.onWriteBody ok)

def runWriter (c : Connection) : List WriterEvent → Option Connection
  | [] => some c
  | e :: events => (writerStep c e).bind (runWriter · events)

/-- The messages passed to `Send`, in the order their handlers ran. -/
def sentBy : List WriterEvent → List Message
  | [] => []
  | .send msg :: events => msg :: sentBy events
  | .wrote _ :: events => sentBy events

def NoFailure (events : List WriterEvent) : Prop := WriterEvent.wrote false ∉ events

instance (events : List WriterEvent) : Decidable (NoFailure events) :=
  inferInstanceAs (Decidable (_ ∉ _))

/-- `done` has been written in full, and the front of the queue as far as the outstanding write goes. -/
def WriterInv (done : List Message) (c : Connection) : Prop :=
  match c.writing, c.messagesOut with
  | none, [] => c.written = done.flatMap frame
  | some .header, msg :: _ => c.written = done.flatMap frame ++ toBytes msg.header
  | some .body, msg :: _ => c.written = done.flatMap frame ++ frame msg
  | _, _ => False

theorem popFront_inv (done : List Message) (c : Connection) (msg : Message) (rest : List Message)
    (hq : c.messagesOut = msg :: rest) (hw : c.written = done.flatMap frame ++ frame msg) :
    WriterInv (done ++ [msg]) c.popFront ∧ c.popFront.messagesOut = rest := by
  cases rest with
  | nil => simp [popFront, hq, WriterInv, hw]
  | cons next rest => simp [popFront, writeHeader, hq, WriterInv, hw]

theorem send_inv (done : List Message) (c : Connection) (msg : Message) (h : WriterInv done c) :
    WriterInv done (c.send msg) ∧ (c.send msg).messagesOut = c.messagesOut ++ [msg] := by
  unfold WriterInv at h
  split at h
  · rename_i hw hq
    simp [send, hq, writeHeader, WriterInv, h]
  · rename_i m rest hw hq
    simp [send, hq, WriterInv, hw, h]
  · rename_i m rest hw hq
    simp [send, hq, WriterInv, hw, h]
  · exact absurd h id

/-- A successful completion keeps the invariant; it finishes the front message or goes on with its body. -/
theorem wrote_inv (done : List Message) (c c' : Connection) (h : WriterInv done c)
    (hstep : writerStep c (.wrote true) = some c') :
    ∃ finished, WriterInv (done ++ finished) c' ∧ c.messagesOut = finished ++ c'.messagesOut := by
  unfold WriterInv at h
  split at h
  · rename_i hw hq
    simp [writerStep, hw] at hstep
  · rename_i m rest hw hq
    simp only [writerStep, hw, Option.some.injEq] at hstep
    subst hstep
    by_cases hbody : m.body.length > 0
    · refine ⟨[], ?_, ?_⟩
      · simp [onWriteHeader, hq, hbody, writeBody, WriterInv, h, frame]
      · simp [onWriteHeader, hq, hbody, writeBody]
    · have hnil : m.body = [] := List.eq_nil_of_length_eq_zero (by omega)
      obtain ⟨hinv, hrest⟩ := popFront_inv done c m rest hq (by rw [h, frame, hnil, List.append_nil])
      refine ⟨[m], ?_, ?_⟩
      · simpa [onWriteHeader, hq, hnil] using hinv
      · simp [onWriteHeader, hq, hnil, hrest]
  · rename_i m rest hw hq
    simp only [writerStep, hw, Option.some.injEq] at hstep
    subst hstep
    obtain ⟨hinv, hrest⟩ := popFront_inv done c m rest hq h
    exact ⟨[m], by simpa [onWriteBody] using hinv, by simp [onWriteBody, hrest, hq]⟩
  · exact absurd h id

theorem runWriter_inv (done : List Message) (c c' : Connection) (events : List WriterEvent)
    (h : WriterInv done c) (hrun : runWriter c events = some c') (hok : NoFailure events) :
    ∃ finished, WriterInv (done ++ finished) c' ∧
      c.messagesOut ++ sentBy events = finished ++ c'.messagesOut := by
  induction events generalizing done c with
  | nil =>
    simp only [runWriter, Option.some.injEq] at hrun
    subst hrun
    exact ⟨[], by simpa using h, by simp [sentBy]⟩
  | cons e events ih =>
    have hok' : NoFailure events := fun hmem => hok (List.mem_cons_of_mem _ hmem)
    simp only [runWriter] at hrun
    cases hstep : writerStep c e with
    | none => simp [hstep] at hrun
    | some c₁ =>
      simp only [hstep, Option.bind_some] at hrun
      cases e with
      | send msg =>
        simp only [writerStep, Option.some.injEq] at hstep
        obtain ⟨hinv, hq⟩ := send_inv done c msg h
        rw [hstep] at hinv hq
        obtain ⟨finished, h1, h2⟩ := ih done c₁ hinv hrun hok'
        exact ⟨finished, h1, by rw [← h2, hq, sentBy]; simp⟩
      | wrote ok =>
        obtain rfl : ok = true := by
          cases ok with
          | true => rfl
          | false => exact absurd List.mem_cons_self hok
        obtain ⟨f₁, hinv, hq⟩ := wrote_inv done c c₁ h hstep
        obtain ⟨f₂, h1, h2⟩ := ih (done ++ f₁) c₁ hinv hrun hok'
        exact ⟨f₁ ++ f₂, by simpa using h1, by rw [hq, sentBy, List.append_assoc, h2]; simp⟩

theorem written_of_idle (events : List WriterEvent) (c : Connection)
    (hrun : runWriter {} events = some c) (hok : NoFailure events) (hidle : c.writing = none) :
    c.written = (sentBy events).flatMap frame := by
  obtain ⟨finished, hinv, hq⟩ := runWriter_inv [] {} c events rfl hrun hok
  unfold WriterInv at hinv
  split at hinv
  · rename_i hw hout
    rw [hout, List.append_nil] at hq
    rw [hinv, List.nil_append, ← hq]
    rfl
  · rename_i hw hout; rw [hw] at hidle; cases hidle
  · rename_i hw hout; rw [hw] at hidle; cases hidle
  · exact absurd hinv id

/-- **The writer never gets stuck**: successful completions alone bring it to rest. -/
theorem writer_drains (done : List Message) (c : Connection) (h : WriterInv done c) :
    ∃ n c', runWriter c (List.replicate n (.wrote true)) = some c' ∧ c'.writing = none := by
  generalize hlen : c.messagesOut.length = len
  induction len generalizing done c with
  | zero =>
    refine ⟨0, c, rfl, ?_⟩
    rw [WriterInv, List.eq_nil_of_length_eq_zero hlen] at h
    cases hw : c.writing with
    | none => rfl
    | some part => cases part <;> simp [hw] at h
  | succ len ih =>
    obtain ⟨msg, rest, hq⟩ := List.exists_cons_of_length_eq_add_one hlen
    have hrest : rest.length = len := by rw [hq, List.length_cons] at hlen; omega
    -- Writing the body takes the message off the queue.
    have hafter : ∀ b : Connection, b.messagesOut = msg :: rest → b.writing = some .body →
        b.written = done.flatMap frame ++ frame msg →
        ∃ n c', runWriter b (List.replicate n (.wrote true)) = some c' ∧ c'.writing = none := by
      intro b hbq hbw hwritten
      obtain ⟨hinv, hpop⟩ := popFront_inv done b msg rest hbq hwritten
      obtain ⟨n, c', hrun, hidle⟩ := ih _ _ hinv (by rw [hpop, hrest])
      exact ⟨n + 1, c', by simp [List.replicate_succ, runWriter, writerStep, hbw, onWriteBody, hrun], hidle⟩
    cases hw : c.writing with
    | none => simp [WriterInv, hw, hq] at h
    | some part =>
      cases part with
      | body =>
        simp only [WriterInv, hw, hq] at h
        exact hafter c hq hw h
      | header =>
        simp only [WriterInv, hw, hq] at h
        by_cases hbody : msg.body.length > 0
        · obtain ⟨n, c', hrun, hidle⟩ := hafter c.writeBody (by simp [writeBody, hq])
            (by simp [writeBody, hq]) (by simp [writeBody, hq, h, frame])
          refine ⟨n + 1, c', ?_, hidle⟩
          simp [List.replicate_succ, runWriter, writerStep, hw, onWriteHeader, hq, hbody, hrun]
        · have hnil : msg.body = [] := List.eq_nil_of_length_eq_zero (by omega)
          obtain ⟨hinv, hpop⟩ := popFront_inv done c msg rest hq (by rw [h, frame, hnil, List.append_nil])
          obtain ⟨n, c', hrun, hidle⟩ := ih _ _ hinv (by rw [hpop, hrest])
          refine ⟨n + 1, c', ?_, hidle⟩
          simp [List.replicate_succ, runWriter, writerStep, hw, onWriteHeader, hq, hnil, hrun]

/-! ## The reader -/

/-- The reading side between two bytes: what the outstanding `async_read` has got so far, and the
messages handed to the queue or to the callback. -/
structure Receiver where
  conn : Connection
  got : Bytes := []
  delivered : List Message := []

/-- `async_read` completes when its buffer is full. -/
def bufferSize (c : Connection) : Part → Nat
  | .header => byteSize MessageHeader
  | .body => c.temporaryIn.body.length

def complete (owner : Owner) (c : Connection) (got : Bytes) : Part → Connection × Option Message
  | .header => c.onReadHeader owner true (ofBytes got)
  | .body => c.onReadBody owner true got

def receiveByte (owner : Owner) (r : Receiver) (b : UInt8) : Receiver :=
  match r.conn.reading with
  | none => r
  | some part =>
    let got := r.got ++ [b]
    if got.length < bufferSize r.conn part then { r with got }
    else
      let (conn, msg) := complete owner r.conn got part
      ⟨conn, [], r.delivered ++ msg.toList⟩

def receive (owner : Owner) (r : Receiver) (bytes : Bytes) : Receiver :=
  bytes.foldl (receiveByte owner) r

/-- What a fresh connection hands over when its bytes arrive in these segments. -/
def deliveredFrom (owner : Owner) (segments : List Bytes) : List Message :=
  (segments.foldl (receive owner) { conn := readHeader {} }).delivered

/-- Between two frames: the next read is a header, and `t` is the temporary message. -/
def Receiver.between (t : Message) (delivered : List Message) : Receiver :=
  { conn := { reading := some .header, temporaryIn := t }, delivered }

theorem receive_append (owner : Owner) (r : Receiver) (bs bs' : Bytes) :
    receive owner r (bs ++ bs') = receive owner (receive owner r bs) bs' :=
  List.foldl_append

/-- **How the stream is cut does not matter.** -/
theorem deliveredFrom_flatten (owner : Owner) (segments : List Bytes) :
    deliveredFrom owner segments =
      (receive owner (.between {} []) segments.flatten).delivered := by
  unfold deliveredFrom receive
  rw [List.foldl_flatten]
  rfl

theorem receive_buffer (owner : Owner) (r : Receiver) (part : Part) (bs : Bytes)
    (hpart : r.conn.reading = some part) (hne : bs ≠ [])
    (hlen : r.got.length + bs.length = bufferSize r.conn part) :
    receive owner r bs =
      ⟨(complete owner r.conn (r.got ++ bs) part).1, [],
        r.delivered ++ (complete owner r.conn (r.got ++ bs) part).2.toList⟩ := by
  induction bs generalizing r with
  | nil => exact absurd rfl hne
  | cons b bs ih =>
    rw [List.length_cons] at hlen
    cases bs with
    | nil =>
      have hfull : ¬ (r.got ++ [b]).length < bufferSize r.conn part := by
        rw [List.length_append, List.length_singleton]
        exact Nat.not_lt.mpr hlen.ge
      simp only [receive, List.foldl_cons, List.foldl_nil, receiveByte, hpart, if_neg hfull]
    | cons b' bs =>
      rw [List.length_cons] at hlen
      have hmore : (r.got ++ [b]).length < bufferSize r.conn part := by
        rw [List.length_append, List.length_singleton]; omega
      have hone : receiveByte owner r b = { r with got := r.got ++ [b] } := by
        simp only [receiveByte, hpart, if_pos hmore]
      have := ih { r with got := r.got ++ [b] } hpart (by simp)
        (by rw [← hlen]; simp; omega)
      unfold receive at this ⊢
      rw [List.foldl_cons, hone, this]
      simp

/-! ## One frame -/

/-- What the reader makes of a frame when `t` is left from the frame before. -/
def handedOver (t msg : Message) : Message :=
  if msg.body = [] then { msg with body := t.body } else msg

/-- The sizes a sender is to keep: `header.size` is `body.size()`. -/
def Sized (msg : Message) : Prop := msg.header.size.toNat = msg.body.length

instance (msg : Message) : Decidable (Sized msg) := inferInstanceAs (Decidable (_ = _))

theorem receive_frame (owner : Owner) (t msg : Message) (delivered : List Message)
    (hsize : Sized msg) :
    receive owner (.between t delivered) (frame msg) =
      .between (afterHandOver owner (handedOver t msg)) (delivered ++ [handedOver t msg]) := by
  unfold frame Sized at *
  have hheader := receive_buffer owner (.between t delivered) .header (toBytes msg.header) rfl
    (List.ne_nil_of_length_pos (by rw [toBytes_length]; decide))
    (by rw [toBytes_length]; rfl)
  rw [receive_append, hheader]
  simp only [Receiver.between, complete, List.nil_append, ofBytes_toBytes _ (show Holds msg.header from trivial)]
  cases hbody : msg.body with
  | nil =>
    have hzero : ¬ msg.header.size > 0 := by
      rw [hbody] at hsize
      rw [gt_iff_lt, UInt32.lt_iff_toNat_lt, hsize]
      simp
    simp [onReadHeader, hzero, addToIncomingMessageQueue, readHeader, receive, handedOver, hbody]
  | cons b bs =>
    have hpos : msg.header.size > 0 := by
      rw [gt_iff_lt, UInt32.lt_iff_toNat_lt, hsize, hbody]
      simp
    simp only [onReadHeader, if_pos hpos, readBody, hsize, Option.toList_none, List.append_nil, if_true]
    rw [receive_buffer owner _ .body (b :: bs) rfl (by simp)
      (by rw [hbody]; simp [bufferSize, List.rightpad])]
    obtain ⟨header, body⟩ := msg
    cases hbody
    simp [complete, onReadBody, addToIncomingMessageQueue, readHeader, handedOver]

/-! ## A stream of frames -/

def handedOverAll (owner : Owner) (t : Message) : List Message → List Message
  | [] => []
  | msg :: msgs =>
    handedOver t msg :: handedOverAll owner (afterHandOver owner (handedOver t msg)) msgs

theorem receive_frames (owner : Owner) (t : Message) (delivered msgs : List Message)
    (hsize : ∀ msg ∈ msgs, Sized msg) :
    (receive owner (.between t delivered) (msgs.flatMap frame)).delivered =
      delivered ++ handedOverAll owner t msgs := by
  induction msgs generalizing t delivered with
  | nil => simp [receive, Receiver.between, handedOverAll]
  | cons msg msgs ih =>
    obtain ⟨hmsg, hmsgs⟩ := List.forall_mem_cons.mp hsize
    rw [List.flatMap_cons, receive_append, receive_frame owner t msg delivered hmsg, ih _ _ hmsgs]
    simp [handedOverAll]

/-- No message without a body comes right after one that leaves a body in the temporary message. -/
def NoStaleBody (owner : Owner) (msgs : List Message) : Prop :=
  msgs.IsChain fun msg next => next.body = [] → (afterHandOver owner msg).body = []

theorem handedOver_eq_iff (t msg : Message) :
    handedOver t msg = msg ↔ (msg.body = [] → t.body = []) := by
  obtain ⟨header, body⟩ := msg
  by_cases h : body = [] <;> simp [handedOver, h]

theorem handedOverAll_eq_iff (owner : Owner) (t : Message) (msgs : List Message) :
    handedOverAll owner t msgs = msgs ↔
      (∀ msg ∈ msgs.head?, msg.body = [] → t.body = []) ∧ NoStaleBody owner msgs := by
  unfold NoStaleBody
  induction msgs generalizing t with
  | nil => simp [handedOverAll]
  | cons msg msgs ih =>
    rw [handedOverAll, List.cons.injEq, handedOver_eq_iff, List.isChain_cons]
    simp only [List.head?_cons, Option.mem_some_iff, forall_eq']
    apply and_congr_right
    intro hfirst
    rw [(handedOver_eq_iff t msg).mpr hfirst, ih]

/-- **The reader hands over the sent messages exactly when none of them picks up a stale body.** -/
theorem delivered_eq_sent_iff (owner : Owner) (events : List WriterEvent) (c : Connection)
    (segments : List Bytes) (hrun : runWriter {} events = some c) (hok : NoFailure events)
    (hidle : c.writing = none) (hsize : ∀ msg ∈ sentBy events, Sized msg)
    (hsegments : segments.flatten = c.written) :
    deliveredFrom owner segments = sentBy events ↔ NoStaleBody owner (sentBy events) := by
  rw [deliveredFrom_flatten, hsegments, written_of_idle events c hrun hok hidle,
    receive_frames owner {} [] _ hsize, List.nil_append, handedOverAll_eq_iff]
  simp

theorem delivered_eq_sent_iff_hello :
    let hello : Message := ⟨⟨0, 8⟩, [4, 0, 0, 0, 0, 0, 0, 0]⟩
    let events := [.send hello, .wrote true, .wrote true]
    let segments := [[0, 0, 0, 0, 8], [0, 0, 0, 4, 0, 0, 0, 0], [0, 0, 0]]
    deliveredFrom .server segments = sentBy events ↔ NoStaleBody .server (sentBy events) :=
  delivered_eq_sent_iff .server _
    { written := [0, 0, 0, 0, 8, 0, 0, 0, 4, 0, 0, 0, 0, 0, 0, 0] } _ (by decide) (by decide) rfl (by decide) rfl

/-- **A message without a body gets the body of the one before it.** -/
theorem delivers_stale_body :
    let taskDone : Message := ⟨⟨2, 1⟩, [7]⟩
    let jobFinished : Message := ⟨⟨3, 0⟩, []⟩
    let events := [.send taskDone, .send jobFinished, .wrote true, .wrote true, .wrote true]
    ∃ c, runWriter {} events = some c ∧ NoFailure events ∧ c.writing = none ∧
      (∀ msg ∈ sentBy events, Sized msg) ∧
      deliveredFrom .server [c.written] = [taskDone, { jobFinished with body := [7] }] ∧
      deliveredFrom .server [c.written] ≠ sentBy events := by
  refine ⟨{ written := [2, 0, 0, 0, 1, 0, 0, 0, 7, 3, 0, 0, 0, 0, 0, 0, 0] }, ?_⟩
  decide

end LogGrid.Net.Framing
