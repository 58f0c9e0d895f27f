import LogGrid.Base.Threads
import LogGrid.BatchCodec
import LogGrid.Master.Server

/-!
# The master as a system of threads

`StartSearch` runs on any number of HTTP threads and `OnMessage` on the update
thread; a thread is known by the critical section it comes to next. One step is
a call or one critical section, together with the work without the lock that
follows it.
-/

open LogGrid.StandardLayout LogGrid.BatchCodec

namespace LogGrid.Master

/-- The local variables of `StartSearch` at `AddPendingTasks`, and what it was called for. -/
structure Search where
  request : Request
  target : Bytes
  session : SearchSession
  newTasks : List TaskPayload

/-- The critical section a thread comes to next. A thread in `Worker_TaskDone` carries the task it took
out of `m_inFlightTasks`, of which the source keeps the search id. -/
inductive Pc
  | helloRegister (client : Nat) (threadsCount : UInt64)
  | helloDispatch (client : Nat) (left : Nat)
  | doneTake (client taskId : Nat) (msg : Message)
  | doneDispatch (client : Nat) (task : TaskPayload) (msg : Message)
  | doneAggregate (task : TaskPayload) (msg : Message)
  | doneLookup (task : TaskPayload) (lines : List Bytes)
  | doneWrite (task : TaskPayload) (fullPath : Bytes) (lines : List Bytes)
  | doneCount (task : TaskPayload)
  | searchAllocate (request : Request) (target : Bytes)
  | searchPublish (search : Search)
  | assign
  | assignDispatch (client : Nat) (left : Nat)
  | disconnect (client : Nat)

/-- What has happened so far. Nothing in the code reads it. -/
structure History where
  hellos : List (Nat × UInt64) := []
  searches : List Search := []
  aggregated : List (TaskPayload × ChunkResult) := []
  counted : List TaskPayload := []

/-- What the threads share: the fields under the mutex, the result files, and the messages passed to `Send`. -/
structure Shared where
  server : MasterServer := {}
  files : Bytes → Bytes := fun _ => []
  sent : List (Nat × Message) := []
  history : History := {}

/-- What a critical section does not decide itself: the order of an unordered map, whether a result
file opens, and what comes of a read outside a message's body, which C++ leaves undefined. -/
structure Choice where
  order : List TaskPayload := []
  opens : Bool := true
  overread : Option ChunkResult := none

inductive Op
  | onMessage (client : Nat) (msg : Message)
  | onClientDisconnect (client : Nat)
  | startSearch (request : Request)

abbrev System := Threads.Pool Shared Pc

abbrev Event := Threads.Event Op Choice

def System.initial : System := ⟨{}, []⟩

/-! ## Calls -/

/-- A call up to its first critical section. A malformed message or a refused search has none. -/
def begin (settings : Settings) (s : Shared) : Op → Shared × Option Pc
  | .onMessage client msg =>
    if msg.header.id = LogSearchMsg.workerHello.value then
      match msg.pop HelloMessage with
      | .error _ => (s, none)
      | .ok (result, _) =>
        ({ s with history := { s.history with
            hellos := (client, result.threadsAvailable) :: s.history.hellos } },
          some (.helloRegister client result.threadsAvailable))
    else if msg.header.id = LogSearchMsg.workerTaskDone.value then
      match msg.pop UInt64 with
      | .error _ => (s, none)
      | .ok (taskId, msg) => (s, some (.doneTake client taskId.toNat msg))
    else (s, none)
  | .onClientDisconnect client => (s, some (.disconnect client))
  | .startSearch request =>
    match resolveTarget settings request with
    | .error _ => (s, none)
    | .ok target => (s, some (.searchAllocate request target))

/-! ## Critical sections -/

def taskMessage (task : TaskPayload) : Message :=
  ({ header := { id := LogSearchMsg.serverSearchTask.value } } : Message).push task

/-- `DispatchNextTask` with the message it sends, and whether it returned `true`. -/
def dispatch (s : Shared) (client : Nat) : Shared × Bool :=
  let (server, sent) := s.server.dispatchNextTask client
  ({ s with server, sent := (sent.toList.map fun task => (client, taskMessage task)) ++ s.sent },
    sent.isSome)

@[simp] theorem dispatch_server (s : Shared) (client : Nat) :
    (dispatch s client).1.server = (s.server.dispatchNextTask client).1 := rfl

@[simp] theorem dispatch_history (s : Shared) (client : Nat) :
    (dispatch s client).1.history = s.history := rfl

@[simp] theorem dispatch_files (s : Shared) (client : Nat) : (dispatch s client).1.files = s.files := rfl

def helloLoop (client left : Nat) : Option Pc := if left = 0 then none else some (.helloDispatch client left)

def assignLoop (client left : Nat) : Pc := if left = 0 then .assign else .assignDispatch client left

theorem mem_helloLoop {client left : Nat} {pc : Pc} (h : pc ∈ helloLoop client left) :
    pc = .helloDispatch client left := by
  unfold helloLoop at h
  split at h <;> cases h
  rfl

theorem flatMap_helloLoop {α : Type} (f : Pc → List α) (client left : Nat)
    (hf : f (.helloDispatch client left) = []) :
    (helloLoop client left).toList.flatMap f = [] := by
  rw [List.flatMap_eq_nil_iff]
  intro pc hpc
  rw [mem_helloLoop (Option.mem_toList.mp hpc)]
  exact hf

theorem assignLoop_cases (client left : Nat) :
    assignLoop client left = .assign ∨ assignLoop client left = .assignDispatch client left := by
  unfold assignLoop
  split
  · exact Or.inl rfl
  · exact Or.inr rfl

/-- `DeserializeBatch` as `AggregateTaskResult` meets it; `none` is an exception. -/
def decodeBatch (choice : Choice) (msg : Message) : Option ChunkResult :=
  match deserializeBatch msg with
  | .ok (batch, _) => some batch
  | .error (.thrown _) => none
  | .error .outOfBounds => choice.overread

/-- `WriteResults` on an open file: each line and a newline. -/
def appendLines (files : Bytes → Bytes) (fullPath : Bytes) (lines : List Bytes) : Bytes → Bytes :=
  Function.update files fullPath (files fullPath ++ lines.flatMap (· ++ [10]))

/-- One critical section, and the one the thread comes to after it. -/
def exec (settings : Settings) (choice : Choice) (s : Shared) : Pc → Option (Shared × Option Pc)
  | .helloRegister client threadsCount =>
    some ({ s with server := s.server.registerWorker client threadsCount },
      helloLoop client threadsCount.toNat)
  | .helloDispatch client left =>
    let (s, more) := dispatch s client
    some (s, if more then helloLoop client (left - 1) else none)
  | .doneTake client taskId msg =>
    match s.server.takeTask client taskId with
    | none => some (s, none)
    | some (server, task) => some ({ s with server }, some (.doneDispatch client task msg))
  | .doneDispatch client task msg => some ((dispatch s client).1, some (.doneAggregate task msg))
  | .doneAggregate task msg =>
    match decodeBatch choice msg with
    | none => some (s, some (.doneCount task))
    | some batch =>
      match s.server.addBatch task.searchId batch with
      | .error _ => some (s, some (.doneCount task))
      | .ok (server, linesToWrite) =>
        let s := { s with server, history := { s.history with
          aggregated := (task, batch) :: s.history.aggregated } }
        some (s, some (if linesToWrite > 0 then .doneLookup task (batch.lines.take linesToWrite)
          else .doneCount task))
  | .doneLookup task lines =>
    match s.server.sessions.lookup task.searchId with
    | none => some (s, some (.doneCount task))
    | some session => some (s, some (.doneWrite task session.path lines))
  | .doneWrite task fullPath lines =>
    some (if choice.opens then { s with files := appendLines s.files fullPath lines } else s,
      some (.doneCount task))
  | .doneCount task =>
    some ({ s with
      server := s.server.countChunk task.searchId
      history := { s.history with counted := task :: s.history.counted } }, none)
  | .searchAllocate request target =>
    let (searchId, server) := s.server.allocateSearchId
    match prepareSearch settings request target searchId with
    | .error _ => some ({ s with server }, none)
    | .ok (session, newTasks) =>
      some ({ s with server }, some (.searchPublish { request, target, session, newTasks }))
  | .searchPublish search =>
    -- The append finds its memory; `Http.turn` has the exit where it throws.
    some ({ s with
      server := s.server.addPendingTasks search.session search.newTasks
      history := { s.history with searches := search :: s.history.searches } }, some .assign)
  | .assign =>
    match s.server.popIdleWorker with
    | none => some (s, none)
    | some (server, none) => some ({ s with server }, some .assign)
    | some (server, some (client, threadsCount)) =>
      some ({ s with server }, some (assignLoop client threadsCount.toNat))
  | .assignDispatch client left =>
    let (s, more) := dispatch s client
    some (s, some (if more then assignLoop client (left - 1) else .assign))
  | .disconnect client =>
    if choice.order.Perm (s.server.tasksOf client) then
      some ({ s with server := s.server.reclaimTasks client choice.order }, some .assign)
    else none

abbrev step (settings : Settings) : System → Event → Option System :=
  Threads.step (begin settings) (exec settings)

/-- Reached by some run from the start of the master. -/
abbrev Reachable (settings : Settings) : System → Prop :=
  Runs.Reaches (step settings) Runs.Any System.initial

/-! ## Steps by case -/

/-- What a critical section does, one case for each way it can go. -/
inductive Ran (settings : Settings) (choice : Choice) (s : Shared) : Pc → Shared → Option Pc → Prop
  | helloRegister (client : Nat) (threadsCount : UInt64) :
      Ran settings choice s (.helloRegister client threadsCount)
        { s with server := s.server.registerWorker client threadsCount } (helloLoop client threadsCount.toNat)
  | helloDispatch (client left : Nat) : Ran settings choice s (.helloDispatch client left)
      (dispatch s client).1 (if (dispatch s client).2 then helloLoop client (left - 1) else none)
  | unknownTask (client taskId : Nat) (msg : Message) (h : s.server.takeTask client taskId = none) :
      Ran settings choice s (.doneTake client taskId msg) s none
  | doneTake (client taskId : Nat) (msg : Message) (server : MasterServer) (task : TaskPayload)
      (h : s.server.takeTask client taskId = some (server, task)) :
      Ran settings choice s (.doneTake client taskId msg) { s with server }
        (some (.doneDispatch client task msg))
  | doneDispatch (client : Nat) (task : TaskPayload) (msg : Message) :
      Ran settings choice s (.doneDispatch client task msg) (dispatch s client).1
        (some (.doneAggregate task msg))
  | batchLost (task : TaskPayload) (msg : Message)
      (h : decodeBatch choice msg = none ∨ task.searchId ∉ s.server.sessions) :
      Ran settings choice s (.doneAggregate task msg) s (some (.doneCount task))
  | doneAggregate (task : TaskPayload) (msg : Message) (batch : ChunkResult) (server : MasterServer)
      (linesToWrite : Nat) (hdecode : decodeBatch choice msg = some batch)
      (hadd : s.server.addBatch task.searchId batch = .ok (server, linesToWrite)) :
      Ran settings choice s (.doneAggregate task msg)
        { s with server, history := { s.history with
          aggregated := (task, batch) :: s.history.aggregated } }
        (some (if linesToWrite > 0 then .doneLookup task (batch.lines.take linesToWrite) else .doneCount task))
  | sessionLost (task : TaskPayload) (lines : List Bytes)
      (h : s.server.sessions.lookup task.searchId = none) :
      Ran settings choice s (.doneLookup task lines) s (some (.doneCount task))
  | doneLookup (task : TaskPayload) (lines : List Bytes) (session : SearchSession)
      (h : s.server.sessions.lookup task.searchId = some session) :
      Ran settings choice s (.doneLookup task lines) s (some (.doneWrite task session.path lines))
  | doneWrite (task : TaskPayload) (fullPath : Bytes) (lines : List Bytes) :
      Ran settings choice s (.doneWrite task fullPath lines)
        (if choice.opens then { s with files := appendLines s.files fullPath lines } else s)
        (some (.doneCount task))
  | doneCount (task : TaskPayload) : Ran settings choice s (.doneCount task)
      { s with
        server := s.server.countChunk task.searchId
        history := { s.history with counted := task :: s.history.counted } } none
  | searchFailed (request : Request) (target : Bytes) :
      Ran settings choice s (.searchAllocate request target)
        { s with server := s.server.allocateSearchId.2 } none
  | searchAllocate (request : Request) (target : Bytes) (session : SearchSession)
      (newTasks : List TaskPayload)
      (h : prepareSearch settings request target s.server.nextSearchId = .ok (session, newTasks)) :
      Ran settings choice s (.searchAllocate request target)
        { s with server := s.server.allocateSearchId.2 }
        (some (.searchPublish { request, target, session, newTasks }))
  | searchPublish (search : Search) : Ran settings choice s (.searchPublish search)
      { s with
        server := s.server.addPendingTasks search.session search.newTasks
        history := { s.history with searches := search :: s.history.searches } } (some .assign)
  | assignStop (h : s.server.popIdleWorker = none) : Ran settings choice s .assign s none
  | assignSkip (server : MasterServer) (h : s.server.popIdleWorker = some (server, none)) :
      Ran settings choice s .assign { s with server } (some .assign)
  | assignWake (server : MasterServer) (client : Nat) (threadsCount : UInt64)
      (h : s.server.popIdleWorker = some (server, some (client, threadsCount))) :
      Ran settings choice s .assign { s with server } (some (assignLoop client threadsCount.toNat))
  | assignDispatch (client left : Nat) : Ran settings choice s (.assignDispatch client left)
      (dispatch s client).1
      (some (if (dispatch s client).2 then assignLoop client (left - 1) else .assign))
  | disconnect (client : Nat) (h : choice.order.Perm (s.server.tasksOf client)) :
      Ran settings choice s (.disconnect client)
        { s with server := s.server.reclaimTasks client choice.order } (some .assign)

theorem exec_ran (settings : Settings) (choice : Choice) (s s' : Shared) (pc : Pc) (next : Option Pc)
    (h : exec settings choice s pc = some (s', next)) : Ran settings choice s pc s' next := by
  cases pc with
  | helloRegister client threadsCount => cases h; exact .helloRegister client threadsCount
  | helloDispatch client left =>
    simp only [exec, Option.some.injEq, Prod.mk.injEq] at h
    obtain ⟨rfl, rfl⟩ := h
    exact .helloDispatch client left
  | doneTake client taskId msg =>
    simp only [exec] at h
    split at h
    · rename_i htake
      cases h
      exact .unknownTask client taskId msg htake
    · rename_i server task htake
      cases h
      exact .doneTake client taskId msg server task htake
  | doneDispatch client task msg =>
    simp only [exec, Option.some.injEq, Prod.mk.injEq] at h
    obtain ⟨rfl, rfl⟩ := h
    exact .doneDispatch client task msg
  | doneAggregate task msg =>
    simp only [exec] at h
    split at h
    · rename_i hdecode
      cases h
      exact .batchLost task msg (Or.inl hdecode)
    · rename_i batch hdecode
      split at h
      · rename_i e hadd
        cases h
        refine .batchLost task msg (Or.inr fun hmem => ?_)
        exact MasterServer.addBatch_ne_error s.server task.searchId batch e hmem hadd
      · rename_i server linesToWrite hadd
        cases h
        exact .doneAggregate task msg batch server linesToWrite hdecode hadd
  | doneLookup task lines =>
    simp only [exec] at h
    split at h
    · rename_i hsession
      cases h
      exact .sessionLost task lines hsession
    · rename_i session hsession
      cases h
      exact .doneLookup task lines session hsession
  | doneWrite task fullPath lines => cases h; exact .doneWrite task fullPath lines
  | doneCount task => cases h; exact .doneCount task
  | searchAllocate request target =>
    simp only [exec] at h
    split at h
    · cases h; exact .searchFailed request target
    · rename_i session newTasks hprepare
      cases h
      exact .searchAllocate request target session newTasks hprepare
  | searchPublish search => cases h; exact .searchPublish search
  | assign =>
    simp only [exec] at h
    split at h
    · rename_i hpop
      cases h
      exact .assignStop hpop
    · rename_i server hpop
      cases h
      exact .assignSkip server hpop
    · rename_i server client threadsCount hpop
      cases h
      exact .assignWake server client threadsCount hpop
  | assignDispatch client left =>
    simp only [exec, Option.some.injEq, Prod.mk.injEq] at h
    obtain ⟨rfl, rfl⟩ := h
    exact .assignDispatch client left
  | disconnect client =>
    simp only [exec] at h
    split at h
    · rename_i hperm
      cases h
      exact .disconnect client hperm
    · cases h

theorem step_cases {settings : Settings} {p p' : System} {e : Event} (h : step settings p e = some p') :
    (∃ op, e = .call op ∧ p'.shared = (begin settings p.shared op).1 ∧
      p'.threads = (begin settings p.shared op).2.toList ++ p.threads) ∨
    ∃ thread choice pc rest next, e = .run thread choice ∧ p.threads.Perm (pc :: rest) ∧
      Ran settings choice p.shared pc p'.shared next ∧ p'.threads.Perm (next.toList ++ rest) := by
  cases e with
  | call op =>
    obtain ⟨hshared, hthreads⟩ := Threads.step_call h
    exact Or.inl ⟨op, rfl, hshared, hthreads⟩
  | run thread choice =>
    obtain ⟨pc, rest, next, -, hthreads, hexec, hthreads'⟩ := Threads.step_run h
    exact Or.inr ⟨thread, choice, pc, rest, next, rfl, hthreads,
      exec_ran settings choice p.shared p'.shared pc next hexec, hthreads'⟩

/-- **The invariant rule for the master**, with the step of a thread taken apart. -/
theorem system_invariant {settings : Settings} {guard : System → Event → Prop} {p : System}
    (Inv : Shared → List Pc → Prop) (hinit : Inv {} [])
    (hperm : ∀ s l l', l.Perm l' → Inv s l → Inv s l')
    (hcall : ∀ p op, Runs.Reaches (step settings) guard System.initial p → guard p (.call op) →
      Inv p.shared p.threads →
      Inv (begin settings p.shared op).1 ((begin settings p.shared op).2.toList ++ p.threads))
    (hrun : ∀ p thread choice pc rest s' next, Runs.Reaches (step settings) guard System.initial p →
      guard p (.run thread choice) → p.threads[thread]? = some pc → p.threads.Perm (pc :: rest) →
      Inv p.shared (pc :: rest) → Ran settings choice p.shared pc s' next → Inv s' (next.toList ++ rest))
    (h : Runs.Reaches (step settings) guard System.initial p) : Inv p.shared p.threads := by
  refine Threads.pool_invariant Inv ?_ hperm hcall ?_ h
  · exact hinit
  · intro p thread choice pc rest s' next hreach hguard hget hthreads hinv hexec
    exact hrun p thread choice pc rest s' next hreach hguard hget hthreads hinv
      (exec_ran settings choice p.shared s' pc next hexec)

/-! ## The fields under the mutex -/

/-- What one critical section can do to the fields under the mutex. -/
inductive Section (m : MasterServer) : MasterServer → Prop
  | nothing : Section m m
  | register (client : Nat) (threadsCount : UInt64) : Section m (m.registerWorker client threadsCount)
  | dispatch (client : Nat) : Section m (m.dispatchNextTask client).1
  | take (client taskId : Nat) (server : MasterServer) (task : TaskPayload)
      (h : m.takeTask client taskId = some (server, task)) : Section m server
  | add (searchId : Nat) (batch : ChunkResult) (server : MasterServer) (linesToWrite : Nat)
      (h : m.addBatch searchId batch = .ok (server, linesToWrite)) : Section m server
  | count (searchId : Nat) : Section m (m.countChunk searchId)
  | allocate : Section m m.allocateSearchId.2
  | publish (session : SearchSession) (newTasks : List TaskPayload) :
      Section m (m.addPendingTasks session newTasks)
  | pop (server : MasterServer) (woken : Option (Nat × UInt64))
      (h : m.popIdleWorker = some (server, woken)) : Section m server
  | reclaim (client : Nat) (order : List TaskPayload) (h : order.Perm (m.tasksOf client)) :
      Section m (m.reclaimTasks client order)

/-! ## Where a call begins -/

/-- The first critical section of a call that comes to one. -/
inductive Begun (settings : Settings) : Op → Pc → Prop
  | hello (client : Nat) (msg rest : Message) (result : HelloMessage)
      (hid : msg.header.id = LogSearchMsg.workerHello.value) (hpop : msg.pop HelloMessage = .ok (result, rest)) :
      Begun settings (.onMessage client msg) (.helloRegister client result.threadsAvailable)
  | taskDone (client : Nat) (msg rest : Message) (taskId : UInt64)
      (hid : msg.header.id = LogSearchMsg.workerTaskDone.value) (hpop : msg.pop UInt64 = .ok (taskId, rest)) :
      Begun settings (.onMessage client msg) (.doneTake client taskId.toNat rest)
  | disconnect (client : Nat) : Begun settings (.onClientDisconnect client) (.disconnect client)
  | startSearch (request : Request) (target : Bytes) (htarget : resolveTarget settings request = .ok target) :
      Begun settings (.startSearch request) (.searchAllocate request target)

theorem begin_begun (settings : Settings) (s : Shared) (op : Op) :
    ∀ pc ∈ (begin settings s op).2, Begun settings op pc := by
  intro pc hpc
  unfold begin at hpc
  cases op with
  | onMessage client msg =>
    simp only at hpc
    split at hpc
    · rename_i hid
      split at hpc <;> cases hpc
      rename_i result rest hpop
      exact .hello client msg rest result hid hpop
    · split at hpc
      · rename_i hid
        split at hpc <;> cases hpc
        rename_i taskId rest hpop
        exact .taskDone client msg rest taskId hid hpop
      · cases hpc
  | onClientDisconnect client => cases hpc; exact .disconnect client
  | startSearch request =>
    simp only at hpc
    split at hpc <;> cases hpc
    rename_i target htarget
    exact .startSearch request target htarget

theorem begin_flatMap {α : Type} {settings : Settings} (s : Shared) (op : Op) (f : Pc → List α)
    (hf : ∀ pc, Begun settings op pc → f pc = []) : (begin settings s op).2.toList.flatMap f = [] := by
  rw [List.flatMap_eq_nil_iff]
  intro pc hpc
  exact hf pc (begin_begun settings s op pc (Option.mem_toList.mp hpc))

theorem begin_shared (settings : Settings) (s : Shared) (op : Op) :
    ∃ hellos, (begin settings s op).1 = { s with history := { s.history with hellos } } := by
  unfold begin
  cases op with
  | onMessage client msg =>
    simp only
    split
    · split <;> exact ⟨_, rfl⟩
    · split
      · split <;> exact ⟨_, rfl⟩
      · exact ⟨_, rfl⟩
  | onClientDisconnect client => exact ⟨_, rfl⟩
  | startSearch request =>
    simp only
    split <;> exact ⟨_, rfl⟩

theorem begin_server (settings : Settings) (s : Shared) (op : Op) : (begin settings s op).1.server = s.server := by
  obtain ⟨hellos, h⟩ := begin_shared settings s op
  rw [h]

theorem Ran.section {settings : Settings} {choice : Choice} {s s' : Shared} {pc : Pc} {next : Option Pc}
    (h : Ran settings choice s pc s' next) : Section s.server s'.server := by
  cases h with
  | helloRegister client threadsCount => exact .register client threadsCount
  | helloDispatch client left => exact .dispatch client
  | unknownTask client taskId msg h => exact .nothing
  | doneTake client taskId msg server task h => exact .take client taskId server task h
  | doneDispatch client task msg => exact .dispatch client
  | batchLost task msg h => exact .nothing
  | doneAggregate task msg batch server linesToWrite hdecode hadd =>
    exact .add task.searchId batch server linesToWrite hadd
  | sessionLost task lines h => exact .nothing
  | doneLookup task lines session h => exact .nothing
  | doneWrite task fullPath lines => cases choice.opens <;> exact .nothing
  | doneCount task => exact .count task.searchId
  | searchFailed request target => exact .allocate
  | searchAllocate request target session newTasks h => exact .allocate
  | searchPublish search => exact .publish search.session search.newTasks
  | assignStop h => exact .nothing
  | assignSkip server h => exact .pop server none h
  | assignWake server client threadsCount h => exact .pop server _ h
  | assignDispatch client left => exact .dispatch client
  | disconnect client h => exact .reclaim client choice.order h

theorem server_invariant {settings : Settings} {guard : System → Event → Prop} {p : System}
    (Inv : MasterServer → Prop) (hinit : Inv {}) (hsection : ∀ m m', Section m m' → Inv m → Inv m')
    (h : Runs.Reaches (step settings) guard System.initial p) : Inv p.shared.server := by
  apply system_invariant (fun s _ => Inv s.server) hinit _ _ _ h
  · intro s l l' _ hinv
    exact hinv
  · intro p op _ _ hinv
    rw [begin_server]
    exact hinv
  · intro p thread choice pc rest s' next _ _ _ _ hinv hran
    exact hsection _ _ hran.section hinv

/-! ## The history -/

def publishes : Pc → List Search
  | .searchPublish search => [search]
  | _ => []

def counts : Pc → List TaskPayload
  | .doneCount task => [task]
  | _ => []

theorem begin_history (settings : Settings) (s : Shared) (op : Op) :
    (begin settings s op).1.history.searches = s.history.searches ∧
      (begin settings s op).1.history.counted = s.history.counted ∧
      (begin settings s op).1.history.aggregated = s.history.aggregated := by
  obtain ⟨hellos, h⟩ := begin_shared settings s op
  rw [h]
  exact ⟨rfl, rfl, rfl⟩

theorem Ran.history {settings : Settings} {choice : Choice} {s s' : Shared} {pc : Pc} {next : Option Pc}
    (h : Ran settings choice s pc s' next) :
    s'.history.searches = publishes pc ++ s.history.searches ∧
      s'.history.counted = counts pc ++ s.history.counted ∧ s'.history.hellos = s.history.hellos := by
  cases h with
  | doneWrite task fullPath lines => cases choice.opens <;> exact ⟨rfl, rfl, rfl⟩
  | _ => exact ⟨rfl, rfl, rfl⟩

theorem Ran.aggregated {settings : Settings} {choice : Choice} {s s' : Shared} {pc : Pc} {next : Option Pc}
    (h : Ran settings choice s pc s' next) : s.history.aggregated <:+ s'.history.aggregated := by
  cases h with
  | doneAggregate task msg batch server linesToWrite hdecode hadd => exact List.suffix_cons _ _
  | doneWrite task fullPath lines => cases choice.opens <;> exact List.suffix_rfl
  | _ => exact List.suffix_rfl

/-- `later` goes on from `earlier`. -/
structure Grows (earlier later : History) : Prop where
  searches : earlier.searches <:+ later.searches
  counted : earlier.counted <:+ later.counted
  aggregated : earlier.aggregated <:+ later.aggregated

theorem history_grows {settings : Settings} {guard : System → Event → Prop} {p p' : System}
    (h : Runs.Reaches (step settings) guard p p') : Grows p.shared.history p'.shared.history := by
  refine h.invariant (fun q => Grows p.shared.history q.shared.history)
    ⟨List.suffix_rfl, List.suffix_rfl, List.suffix_rfl⟩ ?_
  intro q e q' _ hgrows _ hstep
  rcases step_cases hstep with ⟨op, -, hshared, -⟩ | ⟨_, choice, pc, rest, next, -, -, hran, -⟩
  · obtain ⟨hsearches, hcounted, haggregated⟩ := begin_history settings q.shared op
    rw [hshared]
    exact ⟨hsearches ▸ hgrows.searches, hcounted ▸ hgrows.counted, haggregated ▸ hgrows.aggregated⟩
  · obtain ⟨hsearches, hcounted, -⟩ := hran.history
    exact ⟨hgrows.searches.trans (hsearches ▸ List.suffix_append _ _),
      hgrows.counted.trans (hcounted ▸ List.suffix_append _ _), hgrows.aggregated.trans hran.aggregated⟩

/-! ## What a search is made of -/

section

variable (settings : Settings) (asked : Request → Bytes → Prop) (made : Search → Prop)

def PcSearch : Pc → Prop
  | .searchAllocate request target => asked request target
  | .searchPublish search => made search
  | _ => True

theorem begin_search (s : Shared) (op : Op) (hasked : ∀ request target, op = .startSearch request →
      resolveTarget settings request = .ok target → asked request target) :
    ∀ pc ∈ (begin settings s op).2, PcSearch asked made pc := by
  intro pc hpc
  cases begin_begun settings s op pc hpc with
  | startSearch request target htarget => exact hasked request target rfl htarget
  | _ => trivial

theorem Ran.search (hmade : ∀ request target searchId session newTasks, asked request target →
      prepareSearch settings request target searchId = .ok (session, newTasks) →
      made { request, target, session, newTasks })
    {choice : Choice} {s s' : Shared} {pc : Pc} {next : Option Pc} (h : Ran settings choice s pc s' next)
    (hpc : PcSearch asked made pc) : ∀ pc' ∈ next, PcSearch asked made pc' := by
  intro pc' hnext
  cases h with
  | helloRegister client threadsCount => rw [mem_helloLoop hnext]; trivial
  | helloDispatch client left =>
    split at hnext
    · rw [mem_helloLoop hnext]; trivial
    · cases hnext
  | doneAggregate task msg batch server linesToWrite hdecode hadd =>
    split at hnext <;> cases hnext <;> trivial
  | searchAllocate request target session newTasks hprepare =>
    cases hnext
    exact hmade request target _ session newTasks hpc hprepare
  | assignWake server client threadsCount hpop =>
    cases hnext
    rcases assignLoop_cases client threadsCount.toNat with h | h <;> rw [h] <;> trivial
  | assignDispatch client left =>
    cases hnext
    split
    · rcases assignLoop_cases client (left - 1) with h | h <;> rw [h] <;> trivial
    · trivial
  | _ => cases hnext <;> trivial

/-- **What `StartSearch` makes of what it was asked for** holds of every search under way or published. -/
theorem search_invariant {guard : System → Event → Prop} {p : System}
    (hasked : ∀ request target, resolveTarget settings request = .ok target → asked request target)
    (hmade : ∀ request target searchId session newTasks, asked request target →
      prepareSearch settings request target searchId = .ok (session, newTasks) →
      made { request, target, session, newTasks })
    (h : Runs.Reaches (step settings) guard System.initial p) :
    (∀ pc ∈ p.threads, PcSearch asked made pc) ∧ ∀ search ∈ p.shared.history.searches, made search := by
  apply system_invariant (fun s threads =>
    (∀ pc ∈ threads, PcSearch asked made pc) ∧ ∀ search ∈ s.history.searches, made search) _ _ _ _ h
  · exact ⟨by simp, by simp⟩
  · intro s l l' hperm hinv
    exact ⟨fun pc hpc => hinv.1 pc (hperm.mem_iff.mpr hpc), hinv.2⟩
  · intro p op _ _ hinv
    obtain ⟨hsearches, -, -⟩ := begin_history settings p.shared op
    rw [hsearches]
    refine ⟨?_, hinv.2⟩
    intro pc hpc
    rcases List.mem_append.mp hpc with hpc | hpc
    · exact begin_search settings asked made p.shared op (fun request target _ => hasked request target) pc
        (Option.mem_toList.mp hpc)
    · exact hinv.1 pc hpc
  · intro p thread choice pc rest s' next _ _ _ _ hinv hran
    obtain ⟨hpc, hrest⟩ := List.forall_mem_cons.mp hinv.1
    obtain ⟨hsearches, -, -⟩ := hran.history
    constructor
    · intro pc' hpc'
      rcases List.mem_append.mp hpc' with hpc' | hpc'
      · exact hran.search settings asked made hmade hpc pc' (Option.mem_toList.mp hpc')
      · exact hrest pc' hpc'
    · intro search hsearch
      rw [hsearches] at hsearch
      rcases List.mem_append.mp hsearch with hsearch | hsearch
      · cases pc with
        | searchPublish published => rw [List.mem_singleton.mp hsearch]; exact hpc
        | _ => cases hsearch
      · exact hinv.2 search hsearch

end

end LogGrid.Master
