import LogGrid.BatchBounds
import LogGrid.Master.Ledger

/-!
# Messages that are too short

`OnMessage` takes the fields of a message off its body one by one, and acts on
the task id before it has seen the others. A message that ends after the id of
a task in flight is therefore not discarded: its task is counted as done.
-/

open LogGrid.Runs LogGrid.Threads LogGrid.BatchCodec LogGrid.BatchBounds LogGrid.StandardLayout

namespace LogGrid.Master

/-- The body has no room for the fixed fields of its type. -/
def Malformed (msg : Message) : Prop :=
  msg.header.id = LogSearchMsg.workerHello.value ∧ msg.body.length < byteSize HelloMessage ∨
    msg.header.id = LogSearchMsg.workerTaskDone.value ∧ msg.body.length < byteSize UInt64 + fieldsSize

/-- `OnMessage` returns, and leaves the fields under the mutex as they were. -/
def Discards (settings : Settings) (s : Shared) (client : Nat) (msg : Message) : Prop :=
  let started := begin settings s (.onMessage client msg)
  (∃ s', Alone (exec settings) started.1 started.2 s') ∧
    ∀ s', Alone (exec settings) started.1 started.2 s' → s'.server = s.server

/-- The sender has the task that the message names. -/
def NamesItsTask (m : MasterServer) (client : Nat) (msg : Message) : Prop :=
  msg.header.id = LogSearchMsg.workerTaskDone.value ∧
    ∃ taskId rest, msg.pop UInt64 = .ok (taskId, rest) ∧ (m.inFlightTasks.find client taskId.toNat).isSome

instance : Nonempty Choice := ⟨{}⟩

section

variable {settings : Settings} {s : Shared} {client : Nat} {msg : Message}

theorem pop_short {α : Type} [StandardLayout α] (h : msg.body.length < byteSize α) :
    ∃ e, msg.pop α = .error e := by
  unfold Message.pop
  rw [if_pos h]
  exact ⟨_, rfl⟩

theorem discards_of_ended (h : begin settings s (.onMessage client msg) = (s, none)) :
    Discards settings s client msg := by
  unfold Discards
  rw [h]
  refine ⟨⟨s, .ended s⟩, ?_⟩
  intro s' hs'
  rw [hs'.of_ended]

theorem begin_hello_short (hid : msg.header.id = LogSearchMsg.workerHello.value)
    (hshort : msg.body.length < byteSize HelloMessage) : begin settings s (.onMessage client msg) = (s, none) := by
  obtain ⟨e, he⟩ := pop_short hshort
  simp only [begin, if_pos hid, he]

theorem begin_taskDone (hid : msg.header.id = LogSearchMsg.workerTaskDone.value) :
    begin settings s (.onMessage client msg) =
      match msg.pop UInt64 with
      | .error _ => (s, none)
      | .ok (taskId, rest) => (s, some (.doneTake client taskId.toNat rest)) := by
  have hother : msg.header.id ≠ LogSearchMsg.workerHello.value := by rw [hid]; decide
  exact (if_neg hother).trans (if_pos hid)

/-- An answer without a batch behind its task id: the task is taken, another may be dispatched, and the
chunk is counted. -/
theorem alone_taskDone {server : MasterServer} {task : TaskPayload} {taskId : Nat} {s' : Shared}
    {msg : Message} (htake : s.server.takeTask client taskId = some (server, task))
    (hshort : msg.body.length < fieldsSize) :
    Alone (exec settings) s (some (.doneTake client taskId msg)) s' ↔
      Alone (exec settings) (dispatch { s with server } client).1 (some (.doneCount task)) s' := by
  have hdecode : ∀ choice, decodeBatch choice msg = none := by
    intro choice
    obtain ⟨e, he⟩ := deserializeBatch_short msg hshort
    simp only [decodeBatch, he]
  have htaken : ∀ choice, exec settings choice s (.doneTake client taskId msg) =
      some ({ s with server }, some (.doneDispatch client task msg)) := by
    intro choice
    simp only [exec, htake]
  have hdispatched : ∀ choice, exec settings choice { s with server } (.doneDispatch client task msg) =
      some ((dispatch { s with server } client).1, some (.doneAggregate task msg)) := by
    intro choice
    rfl
  have haggregated :
      ∀ choice, exec settings choice (dispatch { s with server } client).1 (.doneAggregate task msg) =
      some ((dispatch { s with server } client).1, some (.doneCount task)) := by
    intro choice
    simp only [exec, hdecode]
  rw [Alone.turn_iff htaken, Alone.turn_iff hdispatched, Alone.turn_iff haggregated]

theorem not_discards_of_namesItsTask (hshort : msg.body.length < byteSize UInt64 + fieldsSize)
    (hnames : NamesItsTask s.server client msg)
    (hknown : ∀ task ∈ s.server.inFlight, task.searchId ∈ s.server.sessions) :
    ¬ Discards settings s client msg := by
  obtain ⟨hid, taskId, rest, hpop, hfound⟩ := hnames
  obtain ⟨task, hfind⟩ := Option.isSome_iff_exists.mp hfound
  have hflight : task ∈ s.server.inFlight :=
    List.mem_map.mpr ⟨(client, taskId.toNat, task), (TwoLevel.mem_items_iff _ _ _ _).mpr hfind, rfl⟩
  obtain ⟨session, hsession⟩ := Option.isSome_iff_exists.mp (AList.lookup_isSome.mpr (hknown task hflight))
  obtain ⟨server, htake⟩ : ∃ server, s.server.takeTask client taskId.toNat = some (server, task) := by
    unfold MasterServer.takeTask
    rw [hfind]
    exact ⟨_, rfl⟩
  have hrest : rest.body.length < fieldsSize := by
    unfold Message.pop at hpop
    split at hpop
    · cases hpop
    · rename_i hlong
      cases hpop
      rw [List.length_take]
      omega
  have hafter : (dispatch { s with server } client).1.server.sessions.lookup task.searchId = some session := by
    rw [dispatch_server, (server.dispatchNextTask_sessions client).1,
      (s.server.takeTask_sessions server client taskId.toNat task htake).1]
    exact hsession
  rintro ⟨⟨s', hs'⟩, hsame⟩
  have hsame := hsame s' hs'
  rw [begin_taskDone hid, hpop] at hs'
  simp only at hs'
  rw [alone_taskDone htake hrest, Alone.turn_iff fun choice => rfl] at hs'
  have hcounted := hs'.of_ended
  -- The session of the task has one chunk more than before.
  have hmore : s'.server.sessions.lookup task.searchId =
      some { session with chunksDone := session.chunksDone + 1 } := by
    rw [hcounted]
    simp only [MasterServer.countChunk, hafter]
    exact AList.lookup_insert _
  rw [hsame, hsession, Option.some.injEq] at hmore
  have hdone := congrArg (fun s => s.chunksDone.toBitVec) hmore
  simp at hdone

theorem discards_of_not_namesItsTask (hmalformed : Malformed msg) (hnames : ¬ NamesItsTask s.server client msg) :
    Discards settings s client msg := by
  rcases hmalformed with ⟨hid, hshort⟩ | ⟨hid, -⟩
  · exact discards_of_ended (begin_hello_short hid hshort)
  · have hbegin : begin settings s (.onMessage client msg) = _ := begin_taskDone hid
    cases hpop : msg.pop UInt64 with
    | error e =>
      rw [hpop] at hbegin
      exact discards_of_ended hbegin
    | ok popped =>
      obtain ⟨taskId, rest⟩ := popped
      rw [hpop] at hbegin
      have hnone : s.server.takeTask client taskId.toNat = none := by
        unfold MasterServer.takeTask
        rw [Option.map_eq_none_iff, ← Option.not_isSome_iff_eq_none]
        exact fun hfound => hnames ⟨hid, taskId, rest, hpop, hfound⟩
      have hturn : ∀ choice, exec settings choice s (.doneTake client taskId.toNat rest) = some (s, none) := by
        intro choice
        simp only [exec, hnone]
      unfold Discards
      rw [hbegin]
      constructor
      · exact ⟨s, (Alone.turn_iff hturn).mpr (.ended s)⟩
      · intro s' hs'
        rw [((Alone.turn_iff hturn).mp hs').of_ended]

end

/-- **A message that is too short is discarded** exactly when it does not name a task of its sender. -/
theorem malformed_discarded_iff (settings : Settings) (p : System) (h : Reachable settings p) (client : Nat)
    (msg : Message) (hmalformed : Malformed msg) :
    Discards settings p.shared client msg ↔ ¬ NamesItsTask p.shared.server client msg := by
  constructor
  · intro hdiscards hnames
    have hshort : msg.body.length < byteSize UInt64 + fieldsSize := by
      rcases hmalformed with ⟨hid, -⟩ | ⟨-, hshort⟩
      · rw [hnames.1] at hid
        exact absurd hid (by decide)
      · exact hshort
    refine not_discards_of_namesItsTask hshort hnames ?_ hdiscards
    intro task htask
    exact ledger_known h task (List.mem_append_right _ (List.mem_append_right _ (List.mem_append_right _ htask)))
  · exact discards_of_not_namesItsTask hmalformed

/-! ## A small run -/

def bareAnswer (taskId : UInt64) : Message :=
  ({ header := { id := LogSearchMsg.workerTaskDone.value } } : Message).push taskId

/-- A worker with one thread has the first of two chunks. -/
def afterFirstDispatch : System := Runs.after (step {}) Any System.initial (twoChunks.take 7)

theorem afterFirstDispatch_reachable : Reachable {} afterFirstDispatch :=
  Runs.reaches_after (twoChunks.take 7) .start (by decide +kernel)

theorem bareAnswer_pop (taskId : UInt64) :
    (bareAnswer taskId).pop UInt64 = .ok (taskId, { header := { id := LogSearchMsg.workerTaskDone.value } }) :=
  Message.pop_of_body (bareAnswer taskId) [] taskId rfl trivial

theorem malformed_discarded_unknown : Discards {} afterFirstDispatch.shared 10000 (bareAnswer 7) := by
  apply (malformed_discarded_iff {} afterFirstDispatch afterFirstDispatch_reachable 10000 (bareAnswer 7)
    (Or.inr ⟨rfl, by decide⟩)).mpr
  rintro ⟨-, taskId, rest, hpop, hfound⟩
  rw [bareAnswer_pop] at hpop
  cases hpop
  revert hfound
  decide +kernel

/-- The task that it has: the chunk is counted as done. -/
theorem bare_answer_counted : Reachable {} afterFirstDispatch ∧ Malformed (bareAnswer 1) ∧
    ¬ Discards {} afterFirstDispatch.shared 10000 (bareAnswer 1) := by
  refine ⟨afterFirstDispatch_reachable, Or.inr ⟨rfl, by decide⟩, ?_⟩
  apply not_discards_of_namesItsTask (by decide)
  · exact ⟨rfl, 1, _, bareAnswer_pop 1, by decide +kernel⟩
  · decide +kernel

end LogGrid.Master
