import LogGrid.Base.Runs
import LogGrid.Net.Framing

/-!
# The outgoing writer

`Connection` has one outstanding write at most by the way it is built. Here
there may be any number, each with the element of `m_qMessagesOut` whose buffer
it reads, and a call of `front()` on an empty queue is seen. That there is never
more than one, on the front element, is proved.
-/

open LogGrid.StandardLayout LogGrid.Runs LogGrid.Net.Framing

namespace LogGrid.Net

/-! ## The handlers -/

/-- An outstanding `async_write`. Its buffer is in the element that was pushed as number `entry`. -/
structure Write where
  part : Part
  entry : Nat
  deriving DecidableEq

/-- The writing side of a connection, with the handlers of `Send` that are posted. `ran` has the messages
whose handler ran, and an element of the queue has its place among them. -/
structure Writer where
  isOpen : Bool := true
  posted : List Message := []
  messagesOut : List (Nat × Message) := []
  outstanding : List Write := []
  handed : Bytes := []
  undefined : Bool := false
  failed : Bool := false
  ran : List Message := []
  deriving DecidableEq

namespace Writer

def writeHeader (w : Writer) : Writer :=
  match w.messagesOut with
  | [] => { w with undefined := true }
  | (entry, msg) :: _ =>
    { w with outstanding := ⟨.header, entry⟩ :: w.outstanding, handed := w.handed ++ toBytes msg.header }

def writeBody (w : Writer) : Writer :=
  match w.messagesOut with
  | [] => { w with undefined := true }
  | (entry, msg) :: _ =>
    { w with outstanding := ⟨.body, entry⟩ :: w.outstanding, handed := w.handed ++ msg.body }

/-- The handler that `Send` posts. -/
def send (w : Writer) (msg : Message) : Writer :=
  let bWrittingMessage := !w.messagesOut.isEmpty
  let w := { w with messagesOut := w.messagesOut ++ [(w.ran.length, msg)], ran := w.ran ++ [msg] }
  if !bWrittingMessage then w.writeHeader else w

def popFront (w : Writer) : Writer :=
  let w := { w with undefined := w.undefined || w.messagesOut.isEmpty, messagesOut := w.messagesOut.tail }
  if !w.messagesOut.isEmpty then w.writeHeader else w

def onWriteHeader (w : Writer) (ok : Bool) : Writer :=
  if ok then
    match w.messagesOut with
    | (_, msg) :: _ => if msg.body.length > 0 then w.writeBody else w.popFront
    | [] => { w with undefined := true }
  else { w with isOpen := false, failed := true }

def onWriteBody (w : Writer) (ok : Bool) : Writer :=
  if ok then w.popFront else { w with failed := true }

inductive Event
  | send (msg : Message)
  | handler (posted : Nat)
  | complete (write : Nat) (ok : Bool)

/-- `Send` on any thread, a posted handler, or the completion of an outstanding write. -/
def step (w : Writer) : Event → Option Writer
  | .send msg => some { w with posted := w.posted ++ [msg] }
  | .handler posted =>
    match w.posted[posted]? with
    | none => none
    | some msg => some ({ w with posted := w.posted.eraseIdx posted }.send msg)
  | .complete write ok =>
    match w.outstanding[write]? with
    | none => none
    | some ⟨part, _⟩ =>
      let w := { w with outstanding := w.outstanding.eraseIdx write }
      match part with
      | .header => some (w.onWriteHeader ok)
      | .body => some (w.onWriteBody ok)

@[simp] theorem failed_writeHeader (w : Writer) : w.writeHeader.failed = w.failed := by
  unfold writeHeader
  split <;> rfl

@[simp] theorem failed_writeBody (w : Writer) : w.writeBody.failed = w.failed := by
  unfold writeBody
  split <;> rfl

@[simp] theorem failed_send (w : Writer) (msg : Message) : (w.send msg).failed = w.failed := by
  unfold send
  simp only
  split <;> simp

@[simp] theorem failed_popFront (w : Writer) : w.popFront.failed = w.failed := by
  unfold popFront
  simp only
  split <;> simp

theorem failed_onWriteHeader (w : Writer) (ok : Bool) : (w.onWriteHeader ok).failed = (!ok || w.failed) := by
  unfold onWriteHeader
  cases ok with
  | true =>
    simp only [if_true, Bool.not_true, Bool.false_or]
    split
    · split <;> simp
    · rfl
  | false => rfl

theorem failed_onWriteBody (w : Writer) (ok : Bool) : (w.onWriteBody ok).failed = (!ok || w.failed) := by
  unfold onWriteBody
  cases ok with
  | true => exact failed_popFront w
  | false => rfl

theorem ran_send (w : Writer) (msg : Message) : (w.send msg).ran = w.ran ++ [msg] := by
  unfold send writeHeader
  simp only
  split
  · split <;> rfl
  · rfl

/-! ## The pump -/

/-- Messages with their places, from `first` on. -/
def numbered (first : Nat) : List Message → List (Nat × Message)
  | [] => []
  | msg :: msgs => (first, msg) :: numbered (first + 1) msgs

theorem numbered_append (first : Nat) (msgs msgs' : List Message) :
    numbered first (msgs ++ msgs') = numbered first msgs ++ numbered (first + msgs.length) msgs' := by
  induction msgs generalizing first with
  | nil => rfl
  | cons msg msgs ih =>
    rw [List.cons_append, numbered, numbered, ih, List.length_cons, List.cons_append,
      show first + 1 + msgs.length = first + (msgs.length + 1) by omega]

theorem map_numbered (first : Nat) (msgs : List Message) : (numbered first msgs).map Prod.snd = msgs := by
  induction msgs generalizing first with
  | nil => rfl
  | cons msg msgs ih => rw [numbered, List.map_cons, ih]

/-- What of a message has been handed to the socket once this write of it is outstanding. -/
def upTo (msg : Message) : Part → Bytes
  | .header => toBytes msg.header
  | .body => frame msg

theorem upTo_isPrefix (msg : Message) (part : Part) : upTo msg part <+: frame msg := by
  cases part with
  | header => exact List.prefix_append _ _
  | body => exact List.prefix_refl _

/-- What is outstanding, whether a write has failed, and what was handed to the socket, when the messages of
`done` are written and those of `waiting` are queued. -/
inductive Pump (done : List Message) : List Message → List Write → Bool → Bytes → Prop
  | idle : Pump done [] [] false (done.flatMap frame)
  | writing (msg : Message) (rest : List Message) (part : Part) :
      Pump done (msg :: rest) [⟨part, done.length⟩] false (done.flatMap frame ++ upTo msg part)
  | broken (msg : Message) (rest : List Message) (handed : Bytes)
      (h : handed <+: done.flatMap frame ++ frame msg) :
      Pump done (msg :: rest) [] true handed

section

variable {done waiting : List Message} {outstanding : List Write} {failed : Bool} {handed : Bytes}

theorem Pump.one (h : Pump done waiting outstanding failed handed) :
    outstanding.length ≤ 1 ∧ ∀ write ∈ outstanding, waiting ≠ [] ∧ write.entry = done.length := by
  cases h with
  | idle => exact ⟨Nat.zero_le _, by simp⟩
  | writing msg rest part => exact ⟨Nat.le_refl _, by simp⟩
  | broken msg rest handed hprefix => exact ⟨Nat.zero_le _, by simp⟩

theorem Pump.in_order (h : Pump done waiting outstanding failed handed) :
    handed <+: (done ++ waiting).flatMap frame := by
  rw [List.flatMap_append]
  cases h with
  | idle => exact List.prefix_append _ _
  | writing msg rest part =>
    rw [List.prefix_append_right_inj, List.flatMap_cons]
    exact (upTo_isPrefix msg part).trans (List.prefix_append _ _)
  | broken msg rest handed hprefix =>
    rw [List.flatMap_cons, ← List.append_assoc]
    exact hprefix.trans (List.prefix_append _ _)

theorem Pump.goes_on (h : Pump done waiting outstanding false handed) :
    (waiting ≠ [] → outstanding ≠ []) ∧ done.flatMap frame <+: handed := by
  cases h with
  | idle => exact ⟨fun hne => absurd rfl hne, List.prefix_refl _⟩
  | writing msg rest part => exact ⟨fun _ => List.cons_ne_nil _ _, List.prefix_append _ _⟩

end

structure Serial (done waiting : List Message) (w : Writer) : Prop where
  ran : w.ran = done ++ waiting
  queue : w.messagesOut = numbered done.length waiting
  defined : w.undefined = false
  pump : Pump done waiting w.outstanding w.failed w.handed

variable {done waiting rest : List Message} {msg : Message} {part : Part} {w : Writer}

theorem Serial.idle_of_nil (h : Serial done [] w) :
    w.outstanding = [] ∧ w.failed = false ∧ w.handed = done.flatMap frame := by
  have hpump := h.pump
  generalize w.outstanding = outstanding, w.failed = failed, w.handed = handed at hpump
  cases hpump
  exact ⟨rfl, rfl, rfl⟩

theorem Pump.push {outstanding : List Write} {failed : Bool} {handed : Bytes} (msg' : Message)
    (h : Pump done (msg :: rest) outstanding failed handed) :
    Pump done (msg :: (rest ++ [msg'])) outstanding failed handed := by
  cases h with
  | writing _ _ part => exact .writing msg _ part
  | broken _ _ _ hprefix => exact .broken msg _ _ hprefix

/-- Nothing is outstanding between two writes: `waiting` is queued, and `handed` was handed to the socket. -/
structure Between (done waiting : List Message) (handed : Bytes) (w : Writer) : Prop where
  ran : w.ran = done ++ waiting
  queue : w.messagesOut = numbered done.length waiting
  defined : w.undefined = false
  outstanding : w.outstanding = []
  failed : w.failed = false
  handed : w.handed = handed

theorem Between.writeHeader (h : Between done (msg :: rest) (done.flatMap frame) w) :
    Serial done (msg :: rest) w.writeHeader := by
  unfold Writer.writeHeader
  split
  · rename_i hqueue
    rw [h.queue] at hqueue
    cases hqueue
  · rename_i entry front tail hqueue
    rw [h.queue, numbered] at hqueue
    cases hqueue
    refine ⟨h.ran, h.queue, h.defined, ?_⟩
    simp only [h.outstanding, h.failed, h.handed]
    exact .writing msg rest .header

theorem Between.writeBody (h : Between done (msg :: rest) (done.flatMap frame ++ upTo msg .header) w) :
    Serial done (msg :: rest) w.writeBody ∧ w.writeBody.outstanding = [⟨.body, done.length⟩] := by
  unfold Writer.writeBody
  split
  · rename_i hqueue
    rw [h.queue] at hqueue
    cases hqueue
  · rename_i entry front tail hqueue
    rw [h.queue, numbered] at hqueue
    cases hqueue
    refine ⟨⟨h.ran, h.queue, h.defined, ?_⟩, by rw [h.outstanding]⟩
    simp only [h.outstanding, h.failed, h.handed, upTo, List.append_assoc]
    exact .writing msg rest .body

theorem Between.popFront (h : Between done (msg :: rest) (done.flatMap frame ++ upTo msg .body) w) :
    Serial (done ++ [msg]) rest w.popFront := by
  have hran : w.ran = (done ++ [msg]) ++ rest := by rw [h.ran, List.append_assoc]; rfl
  have hqueue : w.messagesOut.tail = numbered (done ++ [msg]).length rest := by
    rw [h.queue, List.length_append]
    rfl
  have hdefined : (w.undefined || w.messagesOut.isEmpty) = false := by rw [h.defined, h.queue]; rfl
  have hhanded : w.handed = (done ++ [msg]).flatMap frame := by
    rw [h.handed, List.flatMap_append, List.flatMap_singleton, upTo]
  unfold Writer.popFront
  cases rest with
  | nil =>
    rw [numbered] at hqueue
    simp only [hqueue, List.isEmpty_nil, Bool.not_true, if_false, Bool.false_eq_true]
    refine ⟨hran, rfl, hdefined, ?_⟩
    simp only [h.outstanding, h.failed, hhanded]
    exact .idle
  | cons next rest =>
    have hmore : w.messagesOut.tail.isEmpty = false := by rw [hqueue]; rfl
    simp only [hmore, Bool.not_false, if_true]
    exact Between.writeHeader ⟨hran, hqueue, hdefined, h.outstanding, h.failed, hhanded⟩

theorem Serial.send (h : Serial done waiting w) (msg : Message) : Serial done (waiting ++ [msg]) (w.send msg) := by
  have hran : w.ran ++ [msg] = done ++ (waiting ++ [msg]) := by rw [h.ran, List.append_assoc]
  have hqueue : w.messagesOut ++ [(w.ran.length, msg)] = numbered done.length (waiting ++ [msg]) := by
    rw [numbered_append, h.queue, h.ran, List.length_append]
    rfl
  unfold Writer.send
  cases waiting with
  | nil =>
    obtain ⟨hidle, hfailed, hhanded⟩ := h.idle_of_nil
    have hempty : w.messagesOut.isEmpty = true := by rw [h.queue]; rfl
    simp only [hempty, Bool.not_true, Bool.not_false, if_true]
    exact Between.writeHeader ⟨hran, hqueue, h.defined, hidle, hfailed, hhanded⟩
  | cons front rest =>
    have hmore : w.messagesOut.isEmpty = false := by rw [h.queue]; rfl
    simp only [hmore, Bool.not_false, Bool.not_true, if_false, Bool.false_eq_true]
    exact ⟨hran, hqueue, h.defined, h.pump.push msg⟩

theorem Between.onWriteHeader (h : Between done (msg :: rest) (done.flatMap frame ++ upTo msg .header) w) :
    Serial done (msg :: rest) (w.onWriteHeader true) ∧
        (w.onWriteHeader true).outstanding = [⟨.body, done.length⟩] ∨
      Serial (done ++ [msg]) rest (w.onWriteHeader true) := by
  unfold Writer.onWriteHeader
  rw [if_pos rfl]
  split
  · rename_i entry front tail hqueue
    rw [h.queue, numbered] at hqueue
    cases hqueue
    split
    · exact Or.inl h.writeBody
    · rename_i hbody
      have hnil : msg.body = [] := List.eq_nil_of_length_eq_zero (by omega)
      have hframe : done.flatMap frame ++ upTo msg .header = done.flatMap frame ++ upTo msg .body := by
        rw [upTo, upTo, frame, hnil, List.append_nil]
      exact Or.inr (hframe ▸ h).popFront
  · rename_i hqueue
    rw [h.queue] at hqueue
    cases hqueue

theorem Serial.writing (h : Serial done waiting w) (write : Nat) (part : Part) (entry : Nat)
    (hwrite : w.outstanding[write]? = some ⟨part, entry⟩) :
    ∃ msg rest, waiting = msg :: rest ∧ w.outstanding = [⟨part, done.length⟩] ∧ w.failed = false ∧
      Between done (msg :: rest) (done.flatMap frame ++ upTo msg part)
        { w with outstanding := w.outstanding.eraseIdx write } := by
  obtain ⟨hran, hqueue, hdefined, hpump⟩ := h
  generalize houtstanding : w.outstanding = outstanding at hpump hwrite
  generalize hfailed : w.failed = failed at hpump
  generalize hhanded : w.handed = handed at hpump
  cases hpump with
  | idle => cases hwrite
  | broken msg rest _ hprefix => cases hwrite
  | writing msg rest part' =>
    cases write with
    | succ write => cases hwrite
    | zero =>
      cases hwrite
      exact ⟨msg, rest, rfl, rfl, rfl, hran, hqueue, hdefined, rfl, rfl, rfl⟩

theorem Between.fail (h : Between done (msg :: rest) (done.flatMap frame ++ upTo msg part) w) (isOpen : Bool) :
    Serial done (msg :: rest) { w with isOpen, failed := true } := by
  refine ⟨h.ran, h.queue, h.defined, ?_⟩
  simp only [h.outstanding, h.handed]
  exact .broken msg rest _ ((List.prefix_append_right_inj _).mpr (upTo_isPrefix msg part))

theorem Serial.complete (h : Serial done waiting w) (write : Nat) (ok : Bool) (w' : Writer)
    (hstep : w.step (.complete write ok) = some w') :
    (∃ finished waiting', waiting = finished ++ waiting' ∧ Serial (done ++ finished) waiting' w') ∧
      w.failed = false ∧ w'.failed = !ok := by
  unfold step at hstep
  simp only at hstep
  split at hstep
  · cases hstep
  · rename_i part entry hwrite
    obtain ⟨msg, rest, rfl, -, hfailed, hbetween⟩ := h.writing write part entry hwrite
    have hgoes : ∀ {w'}, Serial done (msg :: rest) w' →
        ∃ finished waiting', msg :: rest = finished ++ waiting' ∧ Serial (done ++ finished) waiting' w' :=
      fun hserial => ⟨[], msg :: rest, rfl, by rw [List.append_nil]; exact hserial⟩
    cases part with
    | header =>
      cases hstep
      refine ⟨?_, hfailed, by rw [failed_onWriteHeader, hbetween.failed, Bool.or_false]⟩
      cases ok with
      | false => exact hgoes (hbetween.fail false)
      | true =>
        rcases hbetween.onWriteHeader with ⟨hserial, -⟩ | hserial
        · exact hgoes hserial
        · exact ⟨[msg], rest, rfl, hserial⟩
    | body =>
      cases hstep
      refine ⟨?_, hfailed, by rw [failed_onWriteBody, hbetween.failed, Bool.or_false]⟩
      cases ok with
      | false => exact hgoes (hbetween.fail w.isOpen)
      | true => exact ⟨[msg], rest, rfl, hbetween.popFront⟩

/-! ## Over all runs -/

variable {guard : Writer → Event → Prop}

theorem serial (h : Reaches step guard {} w) : ∃ done waiting, Serial done waiting w := by
  refine h.invariant (fun w => ∃ done waiting, Serial done waiting w) ⟨[], [], rfl, rfl, rfl, .idle⟩ ?_
  rintro w e w' - ⟨done, waiting, hserial⟩ - hstep
  cases e with
  | send msg =>
    cases hstep
    exact ⟨done, waiting, hserial.ran, hserial.queue, hserial.defined, hserial.pump⟩
  | handler posted =>
    unfold step at hstep
    simp only at hstep
    split at hstep
    · cases hstep
    · rename_i msg hposted
      cases hstep
      have hrun : Serial done waiting { w with posted := w.posted.eraseIdx posted } :=
        ⟨hserial.ran, hserial.queue, hserial.defined, hserial.pump⟩
      exact ⟨done, waiting ++ [msg], hrun.send msg⟩
  | complete write ok =>
    obtain ⟨⟨finished, waiting', -, hserial'⟩, -⟩ := hserial.complete write ok w' hstep
    exact ⟨_, _, hserial'⟩

theorem handed_send (w : Writer) (msg : Message) (h : w.messagesOut ≠ []) : (w.send msg).handed = w.handed := by
  unfold send
  simp [h]

theorem handed_of_failed {w' : Writer} (hreach : Reaches step guard {} w) (hfailed : w.failed = true)
    (h : Reaches step guard w w') : w'.failed = true ∧ w'.handed = w.handed := by
  refine h.invariant (fun w' => w'.failed = true ∧ w'.handed = w.handed) ⟨hfailed, rfl⟩ ?_
  rintro w₁ e w₂ hreach₁ ⟨hfailed₁, hhanded₁⟩ - hstep
  obtain ⟨done, waiting, hserial⟩ := serial (hreach.trans hreach₁)
  cases e with
  | send msg =>
    cases hstep
    exact ⟨hfailed₁, hhanded₁⟩
  | handler posted =>
    unfold step at hstep
    simp only at hstep
    split at hstep
    · cases hstep
    · rename_i msg hposted
      cases hstep
      have hqueue : w₁.messagesOut ≠ [] := by
        cases waiting with
        | nil =>
          rw [hserial.idle_of_nil.2.1] at hfailed₁
          cases hfailed₁
        | cons front rest =>
          rw [hserial.queue, numbered]
          exact List.cons_ne_nil _ _
      exact ⟨(failed_send _ msg).trans hfailed₁,
        (handed_send { w₁ with posted := w₁.posted.eraseIdx posted } msg hqueue).trans hhanded₁⟩
  | complete write ok =>
    -- No write is outstanding.
    rw [(hserial.complete write ok w₂ hstep).2.1] at hfailed₁
    cases hfailed₁

def Succeeds : Writer → Event → Prop := fun _ e => e = .complete 0 true

/-- **The queue drains** when the writes succeed. -/
theorem Serial.drains (h : Serial done waiting w) (hfailed : w.failed = false) :
    ∃ w', Reaches step Succeeds w w' ∧ Serial (done ++ waiting) [] w' := by
  induction waiting generalizing done w with
  | nil => exact ⟨w, .start, by rw [List.append_nil]; exact h⟩
  | cons msg rest ih =>
    have hnext : ∀ {w₁}, Reaches step Succeeds w w₁ → Serial (done ++ [msg]) rest w₁ → w₁.failed = false →
        ∃ w', Reaches step Succeeds w w' ∧ Serial (done ++ msg :: rest) [] w' := by
      intro w₁ hreach hserial hfailed₁
      obtain ⟨w', hreach', hserial'⟩ := ih hserial hfailed₁
      rw [List.append_assoc] at hserial'
      exact ⟨w', hreach.trans hreach', hserial'⟩
    have hwritten : ∀ {w₁}, Reaches step Succeeds w w₁ → Serial done (msg :: rest) w₁ →
        w₁.outstanding = [⟨.body, done.length⟩] →
        ∃ w', Reaches step Succeeds w w' ∧ Serial (done ++ msg :: rest) [] w' := by
      intro w₁ hreach hserial houtstanding
      have hwrite : w₁.outstanding[0]? = some ⟨.body, done.length⟩ := by rw [houtstanding]; rfl
      obtain ⟨msg', rest', heq, -, -, hbetween⟩ := hserial.writing 0 .body done.length hwrite
      cases heq
      refine hnext (hreach.step (.complete 0 true) rfl ?_) hbetween.popFront ?_
      · simp only [step, hwrite]
        rfl
      · rw [failed_popFront, hbetween.failed]
    -- The outstanding write is that of the header or that of the body.
    obtain ⟨hran, hqueue, hdefined, hpump⟩ := h
    generalize houtstanding : w.outstanding = outstanding at hpump
    generalize hhanded : w.handed = handed at hpump
    rw [hfailed] at hpump
    cases hpump with
    | writing _ _ part =>
      have hserial : Serial done (msg :: rest) w := ⟨hran, hqueue, hdefined, by
        rw [houtstanding, hfailed, hhanded]
        exact .writing msg rest part⟩
      cases part with
      | body => exact hwritten .start hserial houtstanding
      | header =>
        have hwrite : w.outstanding[0]? = some ⟨.header, done.length⟩ := by rw [houtstanding]; rfl
        obtain ⟨msg', rest', heq, -, -, hbetween⟩ := hserial.writing 0 .header done.length hwrite
        cases heq
        have hone : Reaches step Succeeds w
            ({ w with outstanding := w.outstanding.eraseIdx 0 }.onWriteHeader true) := by
          refine Reaches.start.step (.complete 0 true) rfl ?_
          simp only [step, hwrite]
        rcases hbetween.onWriteHeader with ⟨hnextBody, hbody⟩ | hdone
        · exact hwritten hone hnextBody hbody
        · exact hnext hone hdone (by rw [failed_onWriteHeader, hbetween.failed]; rfl)

/-- **The writer is serial and in order.** At most one write is outstanding, of the front element, and no
empty queue is asked for its front. What is handed to the socket is a prefix of the frames of the messages in
the order their handlers ran. While no write has failed, a message that waits has an outstanding write, what
is not in the queue was written once, and successful writes bring all of it to the socket. After a failed
write nothing more is handed over. -/
theorem writer_serial (w : Writer) (h : Reaches step Any {} w) :
    w.undefined = false ∧ w.outstanding.length ≤ 1 ∧
      (∀ write ∈ w.outstanding, ∃ msg rest, w.messagesOut = (write.entry, msg) :: rest) ∧
      w.handed <+: w.ran.flatMap frame ∧
      (w.failed = false →
        (w.messagesOut ≠ [] → w.outstanding ≠ []) ∧
        (∃ done, w.ran = done ++ w.messagesOut.map Prod.snd ∧ done.flatMap frame <+: w.handed) ∧
        ∃ w', Reaches step Succeeds w w' ∧ w'.messagesOut = [] ∧ w'.ran = w.ran ∧
          w'.handed = w.ran.flatMap frame) ∧
      (w.failed = true → ∀ w', Reaches step Any w w' → w'.handed = w.handed) := by
  obtain ⟨done, waiting, hserial⟩ := serial h
  obtain ⟨hone, hfront⟩ := hserial.pump.one
  refine ⟨hserial.defined, hone, ?_, hserial.ran ▸ hserial.pump.in_order, ?_, ?_⟩
  · intro write hwrite
    obtain ⟨hne, hentry⟩ := hfront write hwrite
    obtain ⟨msg, rest, rfl⟩ := List.exists_cons_of_ne_nil hne
    exact ⟨msg, numbered (done.length + 1) rest, by rw [hserial.queue, hentry, numbered]⟩
  · intro hfailed
    have hpump := hserial.pump
    rw [hfailed] at hpump
    obtain ⟨hgoes, hwritten⟩ := hpump.goes_on
    refine ⟨?_, ⟨done, ?_, hwritten⟩, ?_⟩
    · intro hne
      apply hgoes
      rintro rfl
      exact hne hserial.queue
    · rw [hserial.ran, hserial.queue, map_numbered]
    · obtain ⟨w', hreach, hserial'⟩ := hserial.drains hfailed
      have hran : w'.ran = w.ran := by rw [hserial'.ran, hserial.ran, List.append_nil]
      refine ⟨w', hreach, hserial'.queue, hran, ?_⟩
      rw [← hran, hserial'.ran, hserial'.idle_of_nil.2.2, List.append_nil]
  · intro hfailed w' hreach
    exact (handed_of_failed h hfailed hreach).2

/-- A message with a body and one without, sent while the first is under way; then a write fails. -/
def failedWrite : List Event :=
  [.send ⟨⟨2, 1⟩, [7]⟩, .handler 0, .send ⟨⟨3, 0⟩, []⟩, .complete 0 true, .send ⟨⟨2, 1⟩, [8]⟩, .handler 1,
    .handler 0,
    .complete 0 true, .complete 0 true, .complete 0 false]

def afterFailedWrite : Writer := Runs.after step Any {} failedWrite

theorem writer_serial_failed_write :
    afterFailedWrite.handed = [2, 0, 0, 0, 1, 0, 0, 0, 7, 2, 0, 0, 0, 1, 0, 0, 0, 8] ∧
      ∀ w', Reaches step Any afterFailedWrite w' → w'.handed = afterFailedWrite.handed := by
  have hreach : Reaches step Any {} afterFailedWrite := Runs.reaches_after failedWrite .start (by decide)
  obtain ⟨-, -, -, -, -, hnothing⟩ := writer_serial afterFailedWrite hreach
  exact ⟨by decide, hnothing (by decide)⟩

/-! ## The connection -/

/-- The writer as `Connection` has it. -/
def connection (w : Writer) : Connection where
  isOpen := w.isOpen
  messagesOut := w.messagesOut.map Prod.snd
  writing := w.outstanding.head?.map Write.part
  written := w.handed

theorem connection_writeHeader (w : Writer) : w.writeHeader.connection = w.connection.writeHeader := by
  unfold writeHeader Connection.writeHeader connection
  cases w.messagesOut <;> rfl

theorem connection_writeBody (w : Writer) : w.writeBody.connection = w.connection.writeBody := by
  unfold writeBody Connection.writeBody connection
  cases w.messagesOut <;> rfl

theorem connection_send (w : Writer) (msg : Message) : (w.send msg).connection = w.connection.send msg := by
  unfold send Connection.send
  cases hqueue : w.messagesOut with
  | nil =>
    simp only [List.isEmpty_nil, Bool.not_true, Bool.not_false, if_true, connection_writeHeader]
    simp [connection, hqueue]
  | cons front rest => simp [connection, hqueue]

theorem connection_popFront (w : Writer) (hidle : w.outstanding = []) :
    w.popFront.connection = w.connection.popFront := by
  unfold popFront Connection.popFront
  have hrest : w.connection.messagesOut.tail.isEmpty = w.messagesOut.tail.isEmpty := by
    unfold connection
    cases w.messagesOut with
    | nil => rfl
    | cons front rest => cases rest <;> rfl
  simp only [hrest]
  split
  · rw [connection_writeHeader]
    simp [connection, hidle]
  · simp [connection, hidle]

theorem connection_onWriteHeader (w : Writer) (ok : Bool) (hidle : w.outstanding = [])
    (hqueue : w.messagesOut ≠ []) :
    (w.onWriteHeader ok).connection =
      ({ w.connection with writing := some .header } : Connection).onWriteHeader ok := by
  obtain ⟨⟨entry, msg⟩, rest, hcons⟩ := List.exists_cons_of_ne_nil hqueue
  have hfront : w.connection.messagesOut = msg :: rest.map Prod.snd := by simp [connection, hcons]
  unfold onWriteHeader Connection.onWriteHeader
  cases ok with
  | false => simp [connection, hidle]
  | true =>
    simp only [hcons, hfront, if_true]
    split
    · rw [connection_writeBody]
      simp [Connection.writeBody, hfront]
    · rw [connection_popFront w hidle]
      simp [Connection.popFront, hfront]

theorem connection_onWriteBody (w : Writer) (ok : Bool) (hidle : w.outstanding = []) :
    (w.onWriteBody ok).connection = ({ w.connection with writing := some .body } : Connection).onWriteBody ok := by
  unfold onWriteBody Connection.onWriteBody
  cases ok with
  | false => simp [connection, hidle]
  | true => exact connection_popFront w hidle

theorem Serial.writerStep (h : Serial done waiting w) (write : Nat) (ok : Bool) (w' : Writer)
    (hstep : w.step (.complete write ok) = some w') :
    writerStep w.connection (.wrote ok) = some w'.connection := by
  unfold step at hstep
  simp only at hstep
  split at hstep
  · cases hstep
  · rename_i part entry hwrite
    obtain ⟨msg, rest, -, houtstanding, -, hbetween⟩ := h.writing write part entry hwrite
    have hqueue : w.messagesOut ≠ [] := by
      rw [show w.messagesOut = _ from hbetween.queue, numbered]
      exact List.cons_ne_nil _ _
    have hwriting : w.connection.writing = some part := by simp [connection, houtstanding]
    have hconnection : ({ ({ w with outstanding := w.outstanding.eraseIdx write } : Writer).connection with
        writing := some part } : Connection) = w.connection := by rw [← hwriting]; rfl
    unfold Framing.writerStep
    cases part with
    | header =>
      cases hstep
      rw [connection_onWriteHeader _ ok hbetween.outstanding hqueue, hconnection]
      simp only [hwriting]
    | body =>
      cases hstep
      rw [connection_onWriteBody _ ok hbetween.outstanding, hconnection]
      simp only [hwriting]

theorem runWriter_concat (c : Connection) (events : List WriterEvent) (e : WriterEvent) :
    runWriter c (events ++ [e]) = (runWriter c events).bind (writerStep · e) := by
  induction events generalizing c with
  | nil => simp [runWriter]
  | cons first events ih =>
    rw [List.cons_append, runWriter, runWriter]
    cases writerStep c first with
    | none => rfl
    | some c₁ => exact ih c₁

theorem sentBy_append (events events' : List WriterEvent) :
    sentBy (events ++ events') = sentBy events ++ sentBy events' := by
  induction events with
  | nil => rfl
  | cons e events ih =>
    cases e with
    | send msg => rw [List.cons_append, sentBy, sentBy, ih, List.cons_append]
    | wrote ok => rw [List.cons_append, sentBy, sentBy, ih]

/-- **Every run of the writer is one of `Connection`**, with the same messages and the same failures. -/
theorem connection_runs (h : Reaches step guard {} w) :
    ∃ events, runWriter {} events = some w.connection ∧ sentBy events = w.ran ∧
      (w.failed = false → NoFailure events) := by
  refine h.invariant (fun w => ∃ events, runWriter {} events = some w.connection ∧ sentBy events = w.ran ∧
    (w.failed = false → NoFailure events)) ⟨[], rfl, rfl, fun _ => List.not_mem_nil⟩ ?_
  rintro w e w' hreach ⟨events, hrun, hsent, hok⟩ - hstep
  obtain ⟨done, waiting, hserial⟩ := serial hreach
  cases e with
  | send msg =>
    cases hstep
    exact ⟨events, hrun, hsent, hok⟩
  | handler posted =>
    unfold step at hstep
    simp only at hstep
    split at hstep
    · cases hstep
    · rename_i msg hposted
      cases hstep
      refine ⟨events ++ [.send msg], ?_, ?_, ?_⟩
      · rw [runWriter_concat, hrun, connection_send]
        rfl
      · rw [sentBy_append, hsent, ran_send]
        rfl
      · rw [failed_send]
        intro hfailed
        simpa [NoFailure] using hok hfailed
  | complete write ok =>
    obtain ⟨⟨finished, waiting', rfl, hserial'⟩, hfailed, hfailed'⟩ := hserial.complete write ok w' hstep
    refine ⟨events ++ [.wrote ok], ?_, ?_, ?_⟩
    · rw [runWriter_concat, hrun]
      exact hserial.writerStep write ok w' hstep
    · rw [sentBy_append, hsent, hserial.ran, hserial'.ran]
      simp [sentBy]
    · intro hfine
      rw [hfine] at hfailed'
      have hsucceeds : ok = true := by simpa using hfailed'.symm
      simpa [NoFailure, hsucceeds] using hok hfailed

end Writer

end LogGrid.Net
