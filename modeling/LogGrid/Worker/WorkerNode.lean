import LogGrid.ChunkedSearch
import LogGrid.Master.Ledger
import LogGrid.Net.Link
import LogGrid.Worker.ThreadPool
import LogGrid.Worker.WorkerClient

/-!
# The worker process

`WorkerClient` on its connection and its thread pool. The handlers of the
connection run on one thread and the jobs on the pool's. An exception that
leaves `OnMessage` leaves `m_context.run()` as well, and ends the process. The
thread of `main`, which looks at `IsConnected` and `ShouldDisconnect` to end
the process in good order, takes no step here.
-/

open LogGrid.StandardLayout LogGrid.Runs LogGrid.Net LogGrid.FileProcessor

namespace LogGrid

/-- The fields of `WorkerClient` and of its connection, the handlers that `Send` posted, and, beside them,
whether an exception has left `OnMessage`, the messages whose handler has run and the messages that
`OnMessage` got. -/
structure WorkerNode where
  connection : Connection := {}
  connecting : Bool := true
  posted : List Message := []
  threadCount : UInt64
  threadPool : ThreadPool.Pool TaskPayload
  shouldDisconnect : Bool := false
  terminated : Bool := false
  sent : List Message := []
  received : List Message := []

namespace WorkerNode

/-- The N-1 rule; `hardware_concurrency` may be unknown. -/
def calculateThreadCount (threadsAvailable : UInt64) : UInt64 :=
  let threadsAvailable := if threadsAvailable > 1 then threadsAvailable - 1 else threadsAvailable
  if threadsAvailable = 0 then 4 else threadsAvailable

def create (hardwareConcurrency : UInt64) : WorkerNode where
  threadCount := calculateThreadCount hardwareConcurrency
  threadPool := .create (calculateThreadCount hardwareConcurrency).toNat

/-- `client_interface::Send`. -/
def send (n : WorkerNode) (msg : Message) : WorkerNode :=
  if n.connection.isOpen then { n with posted := n.posted ++ [msg] } else n

def sendHello (n : WorkerNode) : WorkerNode := n.send (Master.helloMessage n.threadCount)

def onConnectionResult (n : WorkerNode) (connected : Bool) : WorkerNode :=
  if connected then n.sendHello else n

/-- The handler of `async_connect`. -/
def onConnect (n : WorkerNode) (ok : Bool) : WorkerNode :=
  if ok then { n with connecting := false, connection := n.connection.readHeader }.onConnectionResult true
  else { n with connecting := false, connection := { n.connection with isOpen := false } }.onConnectionResult false

def onMessage (n : WorkerNode) (msg : Message) : Option WorkerNode :=
  let n := { n with received := n.received ++ [msg] }
  if msg.header.id = LogSearchMsg.serverSearchTask.value then
    match msg.pop TaskPayload with
    | .error _ => some { n with terminated := true }
    | .ok (task, _) => (n.threadPool.step (.push task)).map fun threadPool => { n with threadPool }
  else if msg.header.id = LogSearchMsg.serverJobFinished.value then some { n with shouldDisconnect := true }
  else some n

/-- `OnMessage` gets the message by reference, and what it pops is gone from it. -/
def msgCallback (msg : Message) : Message :=
  if msg.header.id = LogSearchMsg.serverSearchTask.value then
    match msg.pop TaskPayload with
    | .error _ => msg
    | .ok (_, msg) => msg
  else msg

def owner : Owner := .client (some msgCallback)

/-- The job that a pool thread runs. -/
def running (n : WorkerNode) (worker : Nat) : Option TaskPayload :=
  match n.threadPool.workerThreads[worker]? with
  | some (.running task) => some task
  | _ => none

/-- The completions of the connection, and what a thread of the pool or its condition variable does. -/
inductive Event
  | connected (ok : Bool)
  | sendPosted
  | wrote (ok : Bool)
  | read (ok : Bool) (bytes : Bytes)
  | notifyOne (woken : Nat)
  | spurious (worker : Nat)
  | turn (worker : Nat)

/-- No connect, read or write fails. -/
def Event.Succeeds : Event → Prop
  | .connected ok | .wrote ok | .read ok _ => ok = true
  | _ => True

instance (e : Event) : Decidable e.Succeeds :=
  match e with
  | .connected _ | .wrote _ | .read _ _ => inferInstanceAs (Decidable (_ = _))
  | .sendPosted | .notifyOne _ | .spurious _ | .turn _ => .isTrue trivial

/-- A job ends with `SendTaskDone`. -/
def step (host : Host) (n : WorkerNode) (e : Event) : Option WorkerNode :=
  if n.terminated then none
  else match e with
    | .connected ok => if n.connecting then some (n.onConnect ok) else none
    | .sendPosted =>
      match n.posted with
      | [] => none
      | msg :: posted => some { n with posted, connection := n.connection.send msg, sent := n.sent ++ [msg] }
    | .wrote ok => (Framing.writerStep n.connection (.wrote ok)).map fun connection => { n with connection }
    | .read ok bytes =>
      n.connection.reading.bind fun part =>
        if ok = true ∧ bytes.length ≠ Framing.bufferSize n.connection part then none
        else
          let (connection, msg) := n.connection.onRead owner ok bytes part
          match msg with
          | none => some { n with connection }
          | some msg => { n with connection }.onMessage msg
    | .notifyOne woken => (n.threadPool.step (.notifyOne woken)).map fun threadPool => { n with threadPool }
    | .spurious worker => (n.threadPool.step (.spurious worker)).map fun threadPool => { n with threadPool }
    | .turn worker =>
      (n.threadPool.step (.turn worker)).map fun threadPool =>
        match n.running worker with
        | some task => { n with threadPool }.send (WorkerClient.answer host task)
        | none => { n with threadPool }

/-- The task in a `Server_SearchTask`. -/
def taskIn (msg : Message) : Option TaskPayload :=
  if msg.header.id = LogSearchMsg.serverSearchTask.value then
    match msg.pop TaskPayload with
    | .error _ => none
    | .ok (task, _) => some task
  else none

theorem calculateThreadCount_pos (threadsAvailable : UInt64) : 0 < (calculateThreadCount threadsAvailable).toNat := by
  have hdefault : ∀ n : UInt64, (if n = 0 then 4 else n) ≠ 0 := by
    intro n
    split
    · decide
    · assumption
  rw [Nat.pos_iff_ne_zero]
  intro hzero
  exact hdefault _ (UInt64.toNat_inj.mp hzero)

/-- The answer that `WorkerClient.onMessage` foretells is that of the task in the message. -/
theorem onMessage_taskIn (host : Host) (msg : Message) :
    WorkerClient.onMessage host msg = (taskIn msg).map (WorkerClient.answer host) := by
  unfold WorkerClient.onMessage taskIn
  split
  · cases msg.pop TaskPayload <;> rfl
  · rfl

/-! ## What a step can do -/

/-- What `OnMessage` does with a message. -/
inductive Handled (n : WorkerNode) (msg : Message) : WorkerNode → Prop
  | task (task : TaskPayload) (threadPool : ThreadPool.Pool TaskPayload) (htask : taskIn msg = some task)
      (hpush : n.threadPool.step (.push task) = some threadPool) :
      Handled n msg { n with received := n.received ++ [msg], threadPool }
  | other (shouldDisconnect terminated : Bool) (htask : taskIn msg = none)
      (hfinished : shouldDisconnect = true →
        n.shouldDisconnect = true ∨ msg.header.id = LogSearchMsg.serverJobFinished.value)
      (hmalformed : terminated = true →
        n.terminated = true ∨ msg.header.id = LogSearchMsg.serverSearchTask.value) :
      Handled n msg { n with received := n.received ++ [msg], shouldDisconnect, terminated }

theorem onMessage_handled {n n' : WorkerNode} {msg : Message} (h : n.onMessage msg = some n') : Handled n msg n' := by
  unfold onMessage at h
  simp only at h
  split at h
  · rename_i hid
    split at h
    · rename_i e hpop
      cases h
      exact .other n.shouldDisconnect true (by rw [taskIn, if_pos hid, hpop]) Or.inl fun _ => Or.inr hid
    · rename_i task rest hpop
      obtain ⟨threadPool, hpush, rfl⟩ := Option.map_eq_some_iff.mp h
      exact .task task threadPool (by rw [taskIn, if_pos hid, hpop]) hpush
  · rename_i hid
    have htask : taskIn msg = none := if_neg hid
    split at h
    · rename_i hfinished
      cases h
      exact .other true n.terminated htask (fun _ => Or.inr hfinished) Or.inl
    · cases h
      exact .other n.shouldDisconnect n.terminated htask Or.inl Or.inl

/-- The rest of the process does not notice a message. -/
structure Unnoticed (n n' : WorkerNode) : Prop where
  connection : n'.connection = n.connection
  connecting : n'.connecting = n.connecting
  posted : n'.posted = n.posted
  sent : n'.sent = n.sent

theorem Handled.frame {n n' : WorkerNode} {msg : Message} (h : Handled n msg n') :
    n'.received = n.received ++ [msg] ∧ Unnoticed n n' := by
  cases h <;> exact ⟨rfl, rfl, rfl, rfl, rfl⟩

/-- What a step of the process can do. -/
inductive Stepped (host : Host) (n : WorkerNode) : Event → WorkerNode → Prop
  | connected (h : n.connecting = true) : Stepped host n (.connected true)
      { n with connecting := false, connection := n.connection.readHeader }.sendHello
  | refused (h : n.connecting = true) : Stepped host n (.connected false)
      { n with connecting := false, connection := { n.connection with isOpen := false } }
  | sendPosted (msg : Message) (posted : List Message) (h : n.posted = msg :: posted) : Stepped host n .sendPosted
      { n with posted, connection := n.connection.send msg, sent := n.sent ++ [msg] }
  | wrote (ok : Bool) (connection : Connection)
      (h : Framing.writerStep n.connection (.wrote ok) = some connection) :
      Stepped host n (.wrote ok) { n with connection }
  | got (ok : Bool) (bytes : Bytes) (part : Part) (hpart : n.connection.reading = some part)
      (hsize : ok = true → bytes.length = Framing.bufferSize n.connection part)
      (hnone : (n.connection.onRead owner ok bytes part).2 = none) :
      Stepped host n (.read ok bytes) { n with connection := (n.connection.onRead owner ok bytes part).1 }
  | handed (ok : Bool) (bytes : Bytes) (part : Part) (hpart : n.connection.reading = some part)
      (hsize : ok = true → bytes.length = Framing.bufferSize n.connection part) (msg : Message)
      (hsome : (n.connection.onRead owner ok bytes part).2 = some msg) (n' : WorkerNode)
      (h : Handled { n with connection := (n.connection.onRead owner ok bytes part).1 } msg n') :
      Stepped host n (.read ok bytes) n'
  | notified (woken : Nat) (threadPool : ThreadPool.Pool TaskPayload)
      (h : n.threadPool.step (.notifyOne woken) = some threadPool) :
      Stepped host n (.notifyOne woken) { n with threadPool }
  | spurious (worker : Nat) (threadPool : ThreadPool.Pool TaskPayload)
      (h : n.threadPool.step (.spurious worker) = some threadPool) :
      Stepped host n (.spurious worker) { n with threadPool }
  | locked (worker : Nat) (hlocking : n.threadPool.workerThreads[worker]? = some .locking) :
      Stepped host n (.turn worker) { n with threadPool := n.threadPool.popTask worker }
  | finished (worker : Nat) (task : TaskPayload)
      (hrunning : n.threadPool.workerThreads[worker]? = some (.running task)) :
      Stepped host n (.turn worker) ({ n with threadPool := { n.threadPool.setWorker worker .locking with
        ran := n.threadPool.ran ++ [(worker, task)] } }.send (WorkerClient.answer host task))

theorem step_stepped {host : Host} {n n' : WorkerNode} {e : Event} (h : step host n e = some n') :
    n.terminated = false ∧ Stepped host n e n' := by
  unfold step at h
  split at h
  · cases h
  · rename_i hterminated
    refine ⟨eq_false_of_ne_true hterminated, ?_⟩
    cases e with
    | connected ok =>
      simp only at h
      split at h
      · rename_i hconnecting
        cases h
        cases ok with
        | true => exact .connected hconnecting
        | false => exact .refused hconnecting
      · cases h
    | sendPosted =>
      simp only at h
      split at h
      · cases h
      · rename_i msg posted hposted
        cases h
        exact .sendPosted msg posted hposted
    | wrote ok =>
      obtain ⟨connection, hwrote, rfl⟩ := Option.map_eq_some_iff.mp h
      exact .wrote ok connection hwrote
    | read ok bytes =>
      obtain ⟨part, hpart, h⟩ := Option.bind_eq_some_iff.mp h
      split at h
      · cases h
      · rename_i hsize
        rw [not_and, ne_eq, not_not] at hsize
        simp only at h
        split at h
        · rename_i hnone
          cases h
          exact .got ok bytes part hpart hsize hnone
        · rename_i msg hsome
          exact .handed ok bytes part hpart hsize msg hsome n' (onMessage_handled h)
    | notifyOne woken =>
      obtain ⟨threadPool, hstep, rfl⟩ := Option.map_eq_some_iff.mp h
      exact .notified woken threadPool hstep
    | spurious worker =>
      obtain ⟨threadPool, hstep, rfl⟩ := Option.map_eq_some_iff.mp h
      exact .spurious worker threadPool hstep
    | turn worker =>
      obtain ⟨threadPool, hturn, rfl⟩ := Option.map_eq_some_iff.mp h
      unfold running
      simp only [ThreadPool.Pool.step] at hturn
      split at hturn
      · rename_i hlocking
        cases hturn
        rw [hlocking]
        exact .locked worker hlocking
      · rename_i task hrunning
        cases hturn
        rw [hrunning]
        exact .finished worker task hrunning
      · cases hturn

/-! ## What a worker says -/

/-- The `Hello`, and an answer for each task that was run. -/
def toSay (host : Host) (n : WorkerNode) : List Message :=
  (if n.connecting then [] else [Master.helloMessage n.threadCount]) ++
    n.threadPool.ran.map fun x => WorkerClient.answer host x.2

/-- What holds of a worker whatever it reads. -/
structure Sound (host : Host) (n : WorkerNode) : Prop where
  pool : Reaches ThreadPool.Pool.step Any (.create n.threadCount.toNat) n.threadPool
  threads : 0 < n.threadCount.toNat
  working : n.threadPool.stop = false ∧ n.threadPool.notifyAll = false
  tasks : n.threadPool.enqueued = n.received.filterMap taskIn
  unconnected : n.connecting = true →
    n.connection = {} ∧ n.posted = [] ∧ n.sent = [] ∧ n.received = [] ∧ n.threadPool.ran = []
  writes : Link.Writes n.sent n.connection
  said : n.sent ++ n.posted <+: n.toSay host
  saidAll : n.connection.isOpen = true → n.sent ++ n.posted = n.toSay host
  finished : n.shouldDisconnect = true → ∃ msg ∈ n.received, msg.header.id = LogSearchMsg.serverJobFinished.value
  malformed : n.terminated = true → ∃ msg ∈ n.received, taskIn msg = none ∧
    msg.header.id = LogSearchMsg.serverSearchTask.value

theorem Sound.poolSound {host : Host} {n : WorkerNode} (h : Sound host n) :
    ThreadPool.Pool.Sound n.threadCount.toNat n.threadPool :=
  ThreadPool.Pool.sound _ h.threads _ h.pool

theorem Sound.ran {host : Host} {n : WorkerNode} (h : Sound host n) :
    (n.threadPool.ran.map Prod.snd).Subperm (n.received.filterMap taskIn) :=
  h.tasks ▸ h.poolSound.kept.ran

section

variable {host : Host} {n n' : WorkerNode}

theorem sound_create (hardwareConcurrency : UInt64) : Sound host (create hardwareConcurrency) where
  pool := .start
  threads := calculateThreadCount_pos hardwareConcurrency
  working := ⟨rfl, rfl⟩
  tasks := rfl
  unconnected _ := ⟨rfl, rfl, rfl, rfl, rfl⟩
  writes := Or.inl Link.pumps_initial
  said := List.prefix_refl _
  saidAll _ := rfl
  finished h := by cases h
  malformed h := by cases h

theorem Sound.connected (h : Sound host n) (hconnecting : n.connecting = true) :
    Sound host { n with connecting := false, connection := n.connection.readHeader }.sendHello := by
  obtain ⟨hconnection, hposted, hsent, hreceived, hran⟩ := h.unconnected hconnecting
  unfold sendHello send
  rw [if_pos (by rw [hconnection]; rfl)]
  have hsay : [] ++ (n.posted ++ [Master.helloMessage n.threadCount]) =
      [Master.helloMessage n.threadCount] ++ n.threadPool.ran.map fun x => WorkerClient.answer host x.2 := by
    rw [hposted, hran]
    rfl
  refine { h with
    unconnected := fun h => by cases h
    writes := ?_
    said := ?_
    saidAll := fun _ => ?_ }
  · rw [hsent, hconnection]
    exact Or.inl Link.pumps_initial
  · simp only [hsent]
    exact hsay ▸ List.prefix_refl _
  · simp only [hsent]
    exact hsay

theorem Sound.refused (h : Sound host n) (hconnecting : n.connecting = true) :
    Sound host { n with connecting := false, connection := { n.connection with isOpen := false } } := by
  obtain ⟨hconnection, hposted, hsent, -, -⟩ := h.unconnected hconnecting
  refine { h with
    unconnected := fun h => by cases h
    writes := h.writes.congr rfl rfl rfl
    said := ?_
    saidAll := fun h => by cases h }
  simp only [hposted, hsent]
  exact List.nil_prefix

theorem Sound.sendPosted (h : Sound host n) {msg : Message} {posted : List Message}
    (hposted : n.posted = msg :: posted) :
    Sound host { n with posted, connection := n.connection.send msg, sent := n.sent ++ [msg] } := by
  have hsay : n.sent ++ [msg] ++ posted = n.sent ++ n.posted := by
    rw [hposted, List.append_assoc]
    rfl
  refine { h with
    unconnected := fun hconnecting => ?_
    writes := h.writes.send msg
    said := ?_
    saidAll := fun hopen => ?_ }
  · rw [(h.unconnected hconnecting).2.1] at hposted
    cases hposted
  · exact hsay ▸ h.said
  · rw [Connection.isOpen_send] at hopen
    exact hsay.trans (h.saidAll hopen)

theorem Sound.wrote (h : Sound host n) {ok : Bool} {connection : Connection}
    (hwrote : Framing.writerStep n.connection (.wrote ok) = some connection) : Sound host { n with connection } := by
  refine { h with
    unconnected := fun hconnecting => ?_
    writes := h.writes.wrote ok hwrote
    saidAll := fun hopen => h.saidAll ?_ }
  · rw [(h.unconnected hconnecting).1] at hwrote
    cases hwrote
  · simp only [Framing.writerStep] at hwrote
    split at hwrote
    · cases hwrote
    · cases hwrote
      rw [Connection.isOpen_onWriteHeader, Bool.and_eq_true] at hopen
      exact hopen.2
    · cases hwrote
      rwa [Connection.isOpen_onWriteBody] at hopen

theorem Sound.read (h : Sound host n) (ok : Bool) (bytes : Bytes) {part : Part}
    (hpart : n.connection.reading = some part) :
    Sound host { n with connection := (n.connection.onRead owner ok bytes part).1 } := by
  obtain ⟨hqueue, hwriting, hwritten⟩ := n.connection.onRead_writer owner ok bytes part
  refine { h with
    unconnected := fun hconnecting => ?_
    writes := h.writes.congr hqueue hwriting hwritten
    saidAll := fun hopen => h.saidAll ?_ }
  · rw [(h.unconnected hconnecting).1] at hpart
    cases hpart
  · rw [Connection.isOpen_onRead, Bool.and_eq_true] at hopen
    exact hopen.2

theorem Sound.handled (h : Sound host n) {msg : Message} (hconnected : n.connecting = false)
    (hhandled : Handled n msg n') : Sound host n' := by
  have hlater : n.connecting = true → False := by
    rw [hconnected]
    simp
  cases hhandled with
  | task task threadPool htask hpush =>
    have hreach := h.pool.step _ trivial hpush
    obtain rfl := ThreadPool.Pool.step_push hpush
    refine { h with
      pool := hreach
      tasks := ?_
      unconnected := fun hconnecting => absurd (hlater hconnecting) id
      finished := fun hfinished => ?_
      malformed := fun hmalformed => ?_ }
    · simp [h.tasks, htask]
    · obtain ⟨msg, hmem, hid⟩ := h.finished hfinished
      exact ⟨msg, List.mem_append_left _ hmem, hid⟩
    · obtain ⟨msg, hmem, hid⟩ := h.malformed hmalformed
      exact ⟨msg, List.mem_append_left _ hmem, hid⟩
  | other shouldDisconnect terminated htask hfinished hmalformed =>
    refine { h with
      tasks := ?_
      unconnected := fun hconnecting => absurd (hlater hconnecting) id
      finished := fun htold => ?_
      malformed := fun htold => ?_ }
    · simp [h.tasks, htask]
    · rcases hfinished htold with hold | hid
      · obtain ⟨msg, hmem, hid⟩ := h.finished hold
        exact ⟨msg, List.mem_append_left _ hmem, hid⟩
      · exact ⟨msg, List.mem_append_right _ (List.mem_singleton_self _), hid⟩
    · rcases hmalformed htold with hold | hid
      · obtain ⟨msg, hmem, hid⟩ := h.malformed hold
        exact ⟨msg, List.mem_append_left _ hmem, hid⟩
      · exact ⟨msg, List.mem_append_right _ (List.mem_singleton_self _), htask, hid⟩

theorem Sound.jobDone (h : Sound host n) {worker : Nat} {task : TaskPayload}
    (hrunning : n.threadPool.workerThreads[worker]? = some (.running task)) :
    Sound host ({ n with threadPool := { n.threadPool.setWorker worker .locking with
      ran := n.threadPool.ran ++ [(worker, task)] } }.send (WorkerClient.answer host task)) := by
  have hturn : n.threadPool.step (.turn worker) = some { n.threadPool.setWorker worker .locking with
      ran := n.threadPool.ran ++ [(worker, task)] } := by
    simp only [ThreadPool.Pool.step, hrunning]
  have hreach := h.pool.step _ trivial hturn
  have hran := (ThreadPool.Pool.sound _ h.threads _ hreach).kept.ran
  have hsay : n.toSay host ++ [WorkerClient.answer host task] =
      (if n.connecting then [] else [Master.helloMessage n.threadCount]) ++
        (n.threadPool.ran ++ [(worker, task)]).map fun x => WorkerClient.answer host x.2 := by
    rw [toSay, List.map_append, List.append_assoc]
    rfl
  have hunconnected : n.connecting = true → False := by
    intro hconnecting
    -- A worker that runs a task has received it.
    have htasks := h.tasks
    rw [(h.unconnected hconnecting).2.2.2.1] at htasks
    have hlength := hran.length_le
    simp only [ThreadPool.Pool.setWorker, htasks] at hlength
    simp at hlength
  unfold send
  split
  · rename_i hopen
    refine { h with
      pool := hreach
      unconnected := fun hconnecting => absurd (hunconnected hconnecting) id
      said := ?_
      saidAll := fun _ => ?_ }
    · rw [← List.append_assoc, h.saidAll hopen, hsay]
      exact List.prefix_refl _
    · rw [← List.append_assoc, h.saidAll hopen, hsay]
      rfl
  · rename_i hclosed
    refine { h with
      pool := hreach
      unconnected := fun hconnecting => absurd (hunconnected hconnecting) id
      said := ?_
      saidAll := fun hopen => absurd hopen hclosed }
    exact h.said.trans ⟨_, hsay⟩

theorem Sound.stepped (h : Sound host n) {e : Event} (hstepped : Stepped host n e n') : Sound host n' := by
  cases hstepped with
  | connected hconnecting => exact h.connected hconnecting
  | refused hconnecting => exact h.refused hconnecting
  | sendPosted msg posted hposted => exact h.sendPosted hposted
  | wrote ok connection hwrote => exact h.wrote hwrote
  | got ok bytes part hpart hsize hnone => exact h.read ok bytes hpart
  | handed ok bytes part hpart hsize msg hsome _ hhandled =>
    refine (h.read ok bytes hpart).handled ?_ hhandled
    refine eq_false_of_ne_true fun hconnecting => ?_
    rw [(h.unconnected hconnecting).1] at hpart
    cases hpart
  | notified woken threadPool hstep =>
    have hreach := h.pool.step _ trivial hstep
    obtain ⟨workerThreads, notifyOnes, rfl⟩ := ThreadPool.Pool.step_wake (Or.inl hstep)
    exact { h with pool := hreach }
  | spurious worker threadPool hstep =>
    have hreach := h.pool.step _ trivial hstep
    obtain ⟨workerThreads, notifyOnes, rfl⟩ := ThreadPool.Pool.step_wake (Or.inr hstep)
    exact { h with pool := hreach }
  | locked worker hlocking =>
    have hturn : n.threadPool.step (.turn worker) = some (n.threadPool.popTask worker) := by
      simp only [ThreadPool.Pool.step, hlocking]
    have hreach := h.pool.step _ trivial hturn
    obtain ⟨workerThreads, taskQueue, popped, hpop⟩ := n.threadPool.popTask_eq worker
    rw [hpop] at hreach ⊢
    exact { h with pool := hreach }
  | finished worker task hrunning => exact h.jobDone hrunning

theorem sound {hardwareConcurrency : UInt64} (h : Reaches (step host) Any (create hardwareConcurrency) n) :
    Sound host n := by
  refine h.invariant (Sound host) (sound_create hardwareConcurrency) ?_
  intro n e n' _ hsound _ hstep
  exact hsound.stepped (step_stepped hstep).2

end

/-! ## The result -/

/-- **A worker only answers.** Whatever it reads, what it has written is the beginning of one `Hello` and the
answers to the tasks that it ran; it ran tasks that it had received, each once and taken up in the order they
came; and an exception leaves `OnMessage` only at a task message that is too short. -/
theorem only_answers (host : Host) (hardwareConcurrency : UInt64) (n : WorkerNode)
    (h : Reaches (step host) Any (create hardwareConcurrency) n) :
    n.connection.written <+: (n.toSay host).flatMap Framing.frame ∧
      (n.threadPool.ran.map Prod.snd).Subperm (n.received.filterMap taskIn) ∧
      n.threadPool.popped.map Prod.snd <+: n.received.filterMap taskIn ∧
      (n.terminated = true → ∃ msg ∈ n.received, taskIn msg = none ∧
        msg.header.id = LogSearchMsg.serverSearchTask.value) := by
  have hsound := sound h
  refine ⟨?_, hsound.ran, ?_, hsound.malformed⟩
  · have hsaid := List.IsPrefix.flatMap ((List.prefix_append _ _).trans hsound.said) Framing.frame
    exact hsound.writes.isPrefix.trans hsaid
  · rw [← hsound.tasks, ← hsound.poolSound.kept.order]
    exact List.prefix_append _ _

/-- The whole of a small file. -/
def wholeFile : TaskPayload := { ChunkedSearch.smallTask with taskId := 1, endOffset := 8 }

/-- A worker with one thread says `Hello`, gets a task, runs it and answers, and reads the header of a task
message without a body. -/
def oneTask : List Event :=
  [.connected true, .turn 0, .sendPosted, .wrote true, .wrote true,
    .read true (toBytes (Master.taskMessage wholeFile).header), .read true (Master.taskMessage wholeFile).body,
    .notifyOne 0, .turn 0, .turn 0, .sendPosted, .wrote true, .wrote true,
    .read true (toBytes ({ id := LogSearchMsg.serverSearchTask.value, size := 0 } : MessageHeader))]

def afterOneTask : WorkerNode := Runs.after (step ChunkedSearch.smallHost) Any (create 2) oneTask

theorem only_answers_one_task :
    afterOneTask.connection.written <+:
      [Master.helloMessage 1, WorkerClient.answer ChunkedSearch.smallHost wholeFile].flatMap Framing.frame ∧
    [wholeFile].Subperm (afterOneTask.received.filterMap taskIn) ∧
    ∃ msg ∈ afterOneTask.received, taskIn msg = none ∧ msg.header.id = LogSearchMsg.serverSearchTask.value := by
  obtain ⟨hwritten, hran, -, hterminated⟩ := only_answers ChunkedSearch.smallHost 2 afterOneTask
    (Runs.reaches_after oneTask .start (by decide +kernel))
  have hone : afterOneTask.threadPool.ran = [(0, wholeFile)] := by decide +kernel
  have hconnected : afterOneTask.connecting = false := by decide +kernel
  have hcount : afterOneTask.threadCount = 1 := by decide +kernel
  unfold toSay at hwritten
  rw [hone, hconnected, hcount] at hwritten
  rw [hone] at hran
  exact ⟨hwritten, hran, hterminated (by decide +kernel)⟩

end WorkerNode

end LogGrid
