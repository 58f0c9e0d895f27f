import LogGrid.Net.Framing
import Mathlib.Data.List.Infix

/-!
# A link

One direction of a TCP connection while it is in use. Handlers of `Send`,
completions of writes and completions of reads come in any order, any of them
may fail, and a read takes the next bytes of what the other end has written.
-/

open LogGrid.StandardLayout

namespace LogGrid.Net

open Connection Framing

/-- What an outstanding read makes of its buffer when it completes. -/
def Connection.onRead (owner : Owner) (c : Connection) (ok : Bool) (bytes : Bytes) :
    Part → Connection × Option Message
  | .header => c.onReadHeader owner ok (ofBytes bytes)
  | .body => c.onReadBody owner ok bytes

@[simp] theorem Connection.isOpen_onRead (owner : Owner) (c : Connection) (ok : Bool) (bytes : Bytes) (part : Part) :
    (c.onRead owner ok bytes part).1.isOpen = (ok && c.isOpen) := by
  cases part with
  | header => exact isOpen_onReadHeader owner c ok _
  | body => exact isOpen_onReadBody owner c ok bytes

theorem Connection.onRead_writer (owner : Owner) (c : Connection) (ok : Bool) (bytes : Bytes) (part : Part) :
    (c.onRead owner ok bytes part).1.messagesOut = c.messagesOut ∧
      (c.onRead owner ok bytes part).1.writing = c.writing ∧
      (c.onRead owner ok bytes part).1.written = c.written := by
  cases part with
  | header =>
    simp only [onRead, onReadHeader]
    split
    · split <;> exact ⟨rfl, rfl, rfl⟩
    · exact ⟨rfl, rfl, rfl⟩
  | body =>
    simp only [onRead, onReadBody]
    split <;> exact ⟨rfl, rfl, rfl⟩

theorem Connection.onRead_reading (owner : Owner) (c : Connection) (bytes : Bytes) (part : Part) :
    (c.onRead owner true bytes part).1.reading ≠ none := by
  cases part with
  | header =>
    simp only [onRead, onReadHeader, if_true]
    split <;> exact Option.some_ne_none _
  | body => exact Option.some_ne_none _

theorem Connection.isOpen_wrote {c c' : Connection} (h : writerStep c (.wrote true) = some c') :
    c'.isOpen = c.isOpen := by
  simp only [writerStep] at h
  split at h
  · cases h
  · cases h
    rw [isOpen_onWriteHeader, Bool.true_and]
  · cases h
    exact isOpen_onWriteBody c true

/-- A write leaves the reading side alone, and takes nothing back. -/
structure Connection.WriteOnly (c c' : Connection) : Prop where
  reading : c'.reading = c.reading
  temporaryIn : c'.temporaryIn = c.temporaryIn
  written : c.written <+: c'.written

theorem Connection.WriteOnly.refl (c : Connection) : WriteOnly c c := ⟨rfl, rfl, List.prefix_refl _⟩

theorem Connection.writeOnly_writeHeader (c : Connection) : WriteOnly c c.writeHeader := by
  unfold writeHeader
  split
  · exact .refl c
  · exact ⟨rfl, rfl, List.prefix_append _ _⟩

theorem Connection.writeOnly_writeBody (c : Connection) : WriteOnly c c.writeBody := by
  unfold writeBody
  split
  · exact .refl c
  · exact ⟨rfl, rfl, List.prefix_append _ _⟩

theorem Connection.writeOnly_send (c : Connection) (msg : Message) : WriteOnly c (c.send msg) := by
  unfold send
  simp only
  split
  · obtain ⟨hreading, htemporary, hwritten⟩ := writeOnly_writeHeader { c with messagesOut := c.messagesOut ++ [msg] }
    exact ⟨hreading, htemporary, hwritten⟩
  · exact ⟨rfl, rfl, List.prefix_refl _⟩

theorem Connection.writeOnly_popFront (c : Connection) : WriteOnly c c.popFront := by
  unfold popFront
  simp only
  split
  · obtain ⟨hreading, htemporary, hwritten⟩ :=
      writeOnly_writeHeader { c with messagesOut := c.messagesOut.tail, writing := none }
    exact ⟨hreading, htemporary, hwritten⟩
  · exact ⟨rfl, rfl, List.prefix_refl _⟩

theorem Connection.writeOnly_wrote {c c' : Connection} {ok : Bool}
    (h : writerStep c (.wrote ok) = some c') : WriteOnly c c' := by
  simp only [writerStep] at h
  split at h
  · cases h
  · cases h
    unfold onWriteHeader
    split
    · split
      · split
        · exact c.writeOnly_writeBody
        · exact c.writeOnly_popFront
      · exact c.writeOnly_popFront
    · exact ⟨rfl, rfl, List.prefix_refl _⟩
  · cases h
    unfold onWriteBody
    split
    · exact c.writeOnly_popFront
    · exact ⟨rfl, rfl, List.prefix_refl _⟩

namespace Link

/-- A message that the reader takes for what it is, whatever came before it. -/
structure Framed (msg : Message) : Prop where
  sized : Sized msg
  body : msg.body ≠ []

/-! ## The writing end -/

/-- Each message whose `Send` handler ran is written in full or in the queue, and no write has failed. -/
def Pumps (sent : List Message) (c : Connection) : Prop :=
  ∃ done, sent = done ++ c.messagesOut ∧ WriterInv done c

/-- A write has failed, and nothing is written any more. -/
def Broken (sent : List Message) (c : Connection) : Prop :=
  c.writing = none ∧ ∃ done msg rest, sent = done ++ c.messagesOut ∧ c.messagesOut = msg :: rest ∧
    c.written <+: done.flatMap frame ++ frame msg

def Writes (sent : List Message) (c : Connection) : Prop := Pumps sent c ∨ Broken sent c

section

variable {sent : List Message} {c c' : Connection} {msg : Message}

theorem pumps_initial : Pumps [] {} := ⟨[], rfl, rfl⟩

theorem Pumps.send (h : Pumps sent c) (msg : Message) : Pumps (sent ++ [msg]) (c.send msg) := by
  obtain ⟨done, rfl, hinv⟩ := h
  obtain ⟨hinv', hqueue⟩ := send_inv done c msg hinv
  exact ⟨done, by rw [hqueue, List.append_assoc], hinv'⟩

theorem Pumps.wrote (h : Pumps sent c) (hstep : writerStep c (.wrote true) = some c') : Pumps sent c' := by
  obtain ⟨done, rfl, hinv⟩ := h
  obtain ⟨finished, hinv', hqueue⟩ := wrote_inv done c c' hinv hstep
  exact ⟨done ++ finished, by rw [hqueue, List.append_assoc], hinv'⟩

theorem Pumps.congr (h : Pumps sent c) (hqueue : c'.messagesOut = c.messagesOut) (hwriting : c'.writing = c.writing)
    (hwritten : c'.written = c.written) : Pumps sent c' := by
  obtain ⟨_, _, _, _, _, _⟩ := c
  obtain ⟨_, _, _, _, _, _⟩ := c'
  cases hqueue
  cases hwriting
  cases hwritten
  exact h

theorem Pumps.front (h : Pumps sent c) {part : Part} (hwriting : c.writing = some part) :
    ∃ done msg rest, sent = done ++ c.messagesOut ∧ c.messagesOut = msg :: rest ∧
      c.written <+: done.flatMap frame ++ frame msg := by
  obtain ⟨done, hsent, hinv⟩ := h
  unfold WriterInv at hinv
  split at hinv
  · rename_i hnone hqueue
    rw [hnone] at hwriting
    cases hwriting
  · rename_i msg rest hheader hqueue
    exact ⟨done, msg, rest, hsent, hqueue, hinv ▸ (List.prefix_append_right_inj _).mpr (List.prefix_append _ _)⟩
  · rename_i msg rest hbody hqueue
    exact ⟨done, msg, rest, hsent, hqueue, hinv ▸ List.prefix_refl _⟩
  · exact absurd hinv id

theorem Writes.send (h : Writes sent c) (msg : Message) : Writes (sent ++ [msg]) (c.send msg) := by
  rcases h with h | ⟨hidle, done, front, rest, hsent, hqueue, hwritten⟩
  · exact Or.inl (h.send msg)
  · -- The queue is not empty, so the handler starts no write.
    have hsend : c.send msg = { c with messagesOut := c.messagesOut ++ [msg] } := by
      simp [Connection.send, hqueue]
    rw [hsend]
    refine Or.inr ⟨hidle, done, front, rest ++ [msg], ?_, ?_, hwritten⟩
    · rw [hsent, List.append_assoc]
    · rw [hqueue, List.cons_append]

theorem Writes.wrote (h : Writes sent c) (ok : Bool) (hstep : writerStep c (.wrote ok) = some c') :
    Writes sent c' := by
  rcases h with h | ⟨hidle, -⟩
  · cases ok with
    | true => exact Or.inl (h.wrote hstep)
    | false =>
      right
      cases hwriting : c.writing with
      | none => simp [writerStep, hwriting] at hstep
      | some part =>
        have hfront := h.front hwriting
        cases part with
        | header => simp only [writerStep, hwriting] at hstep; cases hstep; exact ⟨rfl, hfront⟩
        | body => simp only [writerStep, hwriting] at hstep; cases hstep; exact ⟨rfl, hfront⟩
  · simp [writerStep, hidle] at hstep

theorem Writes.congr (h : Writes sent c) (hqueue : c'.messagesOut = c.messagesOut) (hwriting : c'.writing = c.writing)
    (hwritten : c'.written = c.written) : Writes sent c' := by
  obtain ⟨_, _, _, _, _, _⟩ := c
  obtain ⟨_, _, _, _, _, _⟩ := c'
  cases hqueue
  cases hwriting
  cases hwritten
  exact h

/-- **Whatever is written is a beginning of the frames** of the messages, in the order their handlers ran. -/
theorem Writes.isPrefix (h : Writes sent c) : c.written <+: sent.flatMap frame := by
  have hfront : (∃ done msg rest, sent = done ++ c.messagesOut ∧ c.messagesOut = msg :: rest ∧
      c.written <+: done.flatMap frame ++ frame msg) → c.written <+: sent.flatMap frame := by
    rintro ⟨done, msg, rest, rfl, hqueue, hwritten⟩
    rw [hqueue, List.flatMap_append, List.flatMap_cons, ← List.append_assoc]
    exact hwritten.trans (List.prefix_append _ _)
  rcases h with h | ⟨-, hbroken⟩
  · cases hwriting : c.writing with
    | some part => exact hfront (h.front hwriting)
    | none =>
      obtain ⟨done, rfl, hinv⟩ := h
      unfold WriterInv at hinv
      split at hinv
      · rw [hinv, List.flatMap_append]
        exact List.prefix_append _ _
      · rename_i hheader _; rw [hheader] at hwriting; cases hwriting
      · rename_i hbody _; rw [hbody] at hwriting; cases hwriting
      · exact absurd hinv id
  · exact hfront hbroken

theorem Pumps.idle (h : Pumps sent c) (hidle : c.writing = none) :
    c.messagesOut = [] ∧ c.written = sent.flatMap frame := by
  obtain ⟨done, rfl, hinv⟩ := h
  unfold WriterInv at hinv
  split at hinv
  · rename_i hqueue
    exact ⟨hqueue, by rw [hinv, hqueue, List.append_nil]⟩
  · rename_i hheader _; rw [hheader] at hidle; cases hidle
  · rename_i hbody _; rw [hbody] at hidle; cases hidle
  · exact absurd hinv id

end

/-! ## The reading end -/

/-- `delivered` was handed over, `consumed` bytes were read, and the messages still to come are `rest`. -/
inductive Reading (delivered : List Message) (consumed : Nat) (c : Connection) : List Message → Prop
  | header (rest : List Message) (hreading : c.reading = some .header)
      (hconsumed : consumed = (delivered.flatMap frame).length) : Reading delivered consumed c rest
  | body (msg : Message) (rest : List Message) (hreading : c.reading = some .body)
      (hheader : c.temporaryIn.header = msg.header) (hbody : c.temporaryIn.body.length = msg.body.length)
      (hconsumed : consumed = (delivered.flatMap frame).length + byteSize MessageHeader) :
      Reading delivered consumed c (msg :: rest)
  | ended (rest : List Message) (hreading : c.reading = none) : Reading delivered consumed c rest

def Receives (sent delivered : List Message) (consumed : Nat) (c : Connection) : Prop :=
  ∃ rest, sent = delivered ++ rest ∧ Reading delivered consumed c rest

section

variable {sent delivered : List Message} {consumed : Nat} {c c' : Connection} {bytes written : Bytes}

theorem Reading.append {rest : List Message} (h : Reading delivered consumed c rest) (more : List Message) :
    Reading delivered consumed c (rest ++ more) := by
  cases h with
  | header _ hreading hconsumed => exact .header _ hreading hconsumed
  | body msg rest hreading hheader hbody hconsumed => exact .body msg _ hreading hheader hbody hconsumed
  | ended _ hreading => exact .ended _ hreading

theorem Receives.send (h : Receives sent delivered consumed c) (msg : Message) :
    Receives (sent ++ [msg]) delivered consumed c := by
  obtain ⟨rest, rfl, hreading⟩ := h
  exact ⟨rest ++ [msg], List.append_assoc _ _ _, hreading.append [msg]⟩

theorem Receives.write (h : Receives sent delivered consumed c) (hwrite : c.WriteOnly c') :
    Receives sent delivered consumed c' := by
  obtain ⟨rest, hsent, hreads⟩ := h
  obtain ⟨hreading, htemporary, -⟩ := hwrite
  refine ⟨rest, hsent, ?_⟩
  cases hreads with
  | header _ h hconsumed => exact .header _ (hreading.trans h) hconsumed
  | body msg rest h hheader hbody hconsumed =>
    exact .body msg rest (hreading.trans h) (by rw [htemporary]; exact hheader) (by rw [htemporary]; exact hbody)
      hconsumed
  | ended _ h => exact .ended _ (hreading.trans h)

theorem prefix_left {α : Type} {l front back : List α} (h : l <+: front ++ back) (hlength : l.length = front.length) :
    l = front := by
  rw [List.prefix_iff_eq_take, hlength, List.take_left] at h
  exact h

theorem drop_frames (delivered rest : List Message) (n : Nat) :
    ((delivered ++ rest).flatMap frame).drop ((delivered.flatMap frame).length + n) =
      (rest.flatMap frame).drop n := by
  rw [List.flatMap_append, List.drop_append]
  simp

theorem next_header {rest : List Message} (h : bytes <+: rest.flatMap frame)
    (hlength : bytes.length = byteSize MessageHeader) :
    ∃ msg rest', rest = msg :: rest' ∧ bytes = toBytes msg.header := by
  cases rest with
  | nil =>
    rw [List.flatMap_nil, List.prefix_nil] at h
    rw [h] at hlength
    cases hlength
  | cons msg rest =>
    rw [List.flatMap_cons, frame, List.append_assoc] at h
    exact ⟨msg, rest, rfl, prefix_left h (by rw [hlength, toBytes_length])⟩

theorem next_body {msg : Message} {rest : List Message}
    (h : bytes <+: ((msg :: rest).flatMap frame).drop (byteSize MessageHeader))
    (hlength : bytes.length = msg.body.length) : bytes = msg.body := by
  rw [List.flatMap_cons, frame, List.append_assoc, List.drop_left' (toBytes_length msg.header)] at h
  exact prefix_left h hlength

/-- **A read that completes hands over the next message**, or has its header. -/
theorem Receives.read (h : Receives sent delivered consumed c) (hframed : ∀ msg ∈ sent, Framed msg)
    (hwritten : written <+: sent.flatMap frame) (hbytes : bytes <+: written.drop consumed) (owner : Owner)
    (part : Part) (hpart : c.reading = some part) (hsize : bytes.length = bufferSize c part) :
    Receives sent (delivered ++ (c.onRead owner true bytes part).2.toList) (consumed + bytes.length)
      (c.onRead owner true bytes part).1 := by
  obtain ⟨rest, rfl, hreads⟩ := h
  have hnext : bytes <+: ((delivered ++ rest).flatMap frame).drop consumed := hbytes.trans (hwritten.drop consumed)
  cases hreads with
  | ended _ hreading => rw [hreading] at hpart; cases hpart
  | header _ hreading hconsumed =>
    rw [hreading] at hpart
    cases hpart
    have hdrop := drop_frames delivered rest 0
    rw [Nat.add_zero, List.drop_zero] at hdrop
    rw [hconsumed, hdrop] at hnext
    obtain ⟨msg, rest, rfl, rfl⟩ := next_header hnext hsize
    have hmsg := hframed msg (List.mem_append_right _ List.mem_cons_self)
    have hpos : msg.header.size > 0 := by
      rw [gt_iff_lt, UInt32.lt_iff_toNat_lt, show msg.header.size.toNat = _ from hmsg.sized]
      exact List.length_pos_iff.mpr hmsg.body
    simp only [onRead, onReadHeader, ofBytes_toBytes _ (show Holds msg.header from trivial), if_true, if_pos hpos]
    rw [Option.toList_none, List.append_nil]
    refine ⟨msg :: rest, rfl, .body msg rest rfl rfl ?_ ?_⟩
    · rw [← show msg.header.size.toNat = _ from hmsg.sized]
      simp [readBody, List.rightpad]
    · rw [hconsumed, hsize]
      rfl
  | body msg rest hreading hheader hbody hconsumed =>
    rw [hreading] at hpart
    cases hpart
    rw [hconsumed, drop_frames] at hnext
    obtain rfl := next_body hnext (hsize.trans hbody)
    have hwhole : { c.temporaryIn with body := msg.body } = msg := by
      obtain ⟨header, body⟩ := msg
      cases hheader
      rfl
    simp only [onRead, onReadBody, addToIncomingMessageQueue, readHeader, if_true, hwhole]
    refine ⟨rest, by simp, .header rest rfl ?_⟩
    rw [hconsumed, Option.toList_some, List.flatMap_append, List.flatMap_singleton, List.length_append, frame,
      List.length_append, toBytes_length, Nat.add_assoc]

theorem Receives.fail (h : Receives sent delivered consumed c) (owner : Owner) (part : Part) (consumed' : Nat) :
    Receives sent (delivered ++ (c.onRead owner false bytes part).2.toList) consumed'
      (c.onRead owner false bytes part).1 := by
  obtain ⟨rest, hsent, -⟩ := h
  cases part with
  | header =>
    simp only [onRead, onReadHeader, Bool.false_eq_true, if_false, Option.toList_none, List.append_nil]
    exact ⟨rest, hsent, .ended rest rfl⟩
  | body =>
    simp only [onRead, onReadBody, Bool.false_eq_true, if_false, Option.toList_none, List.append_nil]
    exact ⟨rest, hsent, .ended rest rfl⟩

/-- **A reader that has not ended has all it can get**, or the bytes for its buffer are there. -/
theorem Receives.ready (h : Receives sent delivered consumed c) (hwritten : written = sent.flatMap frame)
    (hreading : c.reading ≠ none) : delivered = sent ∨
      ∃ part bytes, c.reading = some part ∧ bytes <+: written.drop consumed ∧ bytes.length = bufferSize c part := by
  obtain ⟨rest, rfl, hreads⟩ := h
  cases hreads with
  | ended _ hended => exact absurd hended hreading
  | header _ hheader hconsumed =>
    cases rest with
    | nil => exact Or.inl (List.append_nil _).symm
    | cons msg rest =>
      refine Or.inr ⟨.header, toBytes msg.header, hheader, ?_, toBytes_length _⟩
      have hdrop := drop_frames delivered (msg :: rest) 0
      rw [Nat.add_zero, List.drop_zero] at hdrop
      rw [hwritten, hconsumed, hdrop, List.flatMap_cons, frame, List.append_assoc]
      exact List.prefix_append _ _
  | body msg rest hbody hheader hlength hconsumed =>
    refine Or.inr ⟨.body, msg.body, hbody, ?_, hlength.symm⟩
    rw [hwritten, hconsumed, drop_frames, List.flatMap_cons, frame, List.append_assoc,
      List.drop_left' (toBytes_length msg.header)]
    exact List.prefix_append _ _

end

end Link

end LogGrid.Net
