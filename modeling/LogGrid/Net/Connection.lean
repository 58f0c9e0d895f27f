import LogGrid.Common.Message

/-!
# `connection`

The two callback chains of `net_connection.hpp`. Each handler is a function of
the connection: what it leaves behind says which asynchronous operation is
outstanding next. `ok` is `!ec`.
-/

open LogGrid.StandardLayout

namespace LogGrid

instance : StandardLayout MessageHeader where
  byteSize := 8
  toBytes h := toBytes h.id ++ toBytes h.size
  ofBytes bs := ⟨ofBytes (bs.take 4), ofBytes (bs.drop 4)⟩
  Holds _ := True
  toBytes_length h := by rw [List.length_append, toBytes_length, toBytes_length]; rfl
  ofBytes_toBytes h _ := by
    rw [List.take_left' (by rw [toBytes_length]; rfl), List.drop_left' (by rw [toBytes_length]; rfl),
      ofBytes_toBytes _ trivial, ofBytes_toBytes _ trivial]

namespace Net

/-- What an asynchronous read or write is about. -/
inductive Part
  | header
  | body
  deriving DecidableEq, Repr

/-- Who owns a connection. A client may set a callback, which gets the temporary message by
reference: the function is what the callback leaves in it. -/
inductive Owner
  | server
  | client (msgCallback : Option (Message → Message))

structure Connection where
  isOpen : Bool := true
  messagesOut : List Message := []
  writing : Option Part := none
  written : Bytes := []
  temporaryIn : Message := {}
  reading : Option Part := none
  deriving DecidableEq

namespace Connection

/-! ## Writing -/

/-- The buffer is handed to `async_write`; the operation is outstanding from here on. -/
def writeHeader (c : Connection) : Connection :=
  match c.messagesOut with
  | [] => c
  | msg :: _ => { c with writing := some .header, written := c.written ++ toBytes msg.header }

def writeBody (c : Connection) : Connection :=
  match c.messagesOut with
  | [] => c
  | msg :: _ => { c with writing := some .body, written := c.written ++ msg.body }

/-- The handler that `Send` posts. -/
def send (c : Connection) (msg : Message) : Connection :=
  let bWrittingMessage := !c.messagesOut.isEmpty
  let c := { c with messagesOut := c.messagesOut ++ [msg] }
  if !bWrittingMessage then c.writeHeader else c

/-- `m_qMessagesOut.pop_front()`, then the next message if there is one. -/
def popFront (c : Connection) : Connection :=
  let c := { c with messagesOut := c.messagesOut.tail, writing := none }
  if !c.messagesOut.isEmpty then c.writeHeader else c

def onWriteHeader (c : Connection) (ok : Bool) : Connection :=
  if ok then
    match c.messagesOut with
    | msg :: _ => if msg.body.length > 0 then c.writeBody else c.popFront
    | [] => c.popFront
  else { c with writing := none, isOpen := false }

/-- The completion of `WriteBody`. A failure is only logged: the socket stays open. -/
def onWriteBody (c : Connection) (ok : Bool) : Connection :=
  if ok then c.popFront else { c with writing := none }

/-! ## Reading -/

def readHeader (c : Connection) : Connection := { c with reading := some .header }

def readBody (c : Connection) : Connection := { c with reading := some .body }

/-- What is in `m_msgTemporaryIn` after the queue or the callback got it. -/
def afterHandOver (owner : Owner) (msg : Message) : Message :=
  match owner with
  | .server => msg
  | .client (some msgCallback) => msgCallback msg
  | .client none => msg

/-- `AddToIncomingMessageQueue`, with the message handed over. -/
def addToIncomingMessageQueue (owner : Owner) (c : Connection) : Connection × Option Message :=
  (readHeader { c with temporaryIn := afterHandOver owner c.temporaryIn }, some c.temporaryIn)

def onReadHeader (owner : Owner) (c : Connection) (ok : Bool) (header : MessageHeader) :
    Connection × Option Message :=
  if ok then
    let c := { c with temporaryIn := { c.temporaryIn with header } }
    if header.size > 0 then
      let body := (c.temporaryIn.body.take header.size.toNat).rightpad header.size.toNat 0
      (readBody { c with temporaryIn := { c.temporaryIn with body } }, none)
    else addToIncomingMessageQueue owner c
  else ({ c with reading := none, isOpen := false }, none)

def onReadBody (owner : Owner) (c : Connection) (ok : Bool) (bytes : Bytes) :
    Connection × Option Message :=
  if ok then
    addToIncomingMessageQueue owner { c with temporaryIn := { c.temporaryIn with body := bytes } }
  else ({ c with reading := none, isOpen := false }, none)

/-! ## The socket -/

@[simp] theorem isOpen_writeHeader (c : Connection) : c.writeHeader.isOpen = c.isOpen := by
  unfold writeHeader
  split <;> rfl

@[simp] theorem isOpen_writeBody (c : Connection) : c.writeBody.isOpen = c.isOpen := by
  unfold writeBody
  split <;> rfl

@[simp] theorem isOpen_send (c : Connection) (msg : Message) : (c.send msg).isOpen = c.isOpen := by
  unfold send
  simp only
  split <;> simp

@[simp] theorem isOpen_popFront (c : Connection) : c.popFront.isOpen = c.isOpen := by
  unfold popFront
  simp only
  split <;> simp

@[simp] theorem isOpen_onWriteHeader (c : Connection) (ok : Bool) :
    (c.onWriteHeader ok).isOpen = (ok && c.isOpen) := by
  unfold onWriteHeader
  cases ok with
  | true =>
    simp only [if_true, Bool.true_and]
    split
    · split <;> simp
    · simp
  | false => rfl

@[simp] theorem isOpen_onWriteBody (c : Connection) (ok : Bool) : (c.onWriteBody ok).isOpen = c.isOpen := by
  unfold onWriteBody
  split <;> simp

@[simp] theorem isOpen_onReadHeader (owner : Owner) (c : Connection) (ok : Bool) (header : MessageHeader) :
    (c.onReadHeader owner ok header).1.isOpen = (ok && c.isOpen) := by
  unfold onReadHeader
  cases ok with
  | true => simp only [if_true]; split <;> rfl
  | false => rfl

@[simp] theorem isOpen_onReadBody (owner : Owner) (c : Connection) (ok : Bool) (bytes : Bytes) :
    (c.onReadBody owner ok bytes).1.isOpen = (ok && c.isOpen) := by
  unfold onReadBody
  cases ok <;> rfl

end Connection

end Net

end LogGrid
