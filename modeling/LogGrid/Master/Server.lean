import LogGrid.Base.TwoLevel
import LogGrid.Master.Scan
import Mathlib.Data.Finset.Basic

/-!
# `MasterServer` under its mutex

The fields that `m_stateMutex` protects, and the critical sections, each a
function of them. Connection ids, search ids and task ids are `Nat`: each comes
from a counter that only counts up.
-/

open LogGrid.Path

namespace LogGrid.Master

structure MasterServer where
  pendingTasks : List TaskPayload := []
  inFlightTasks : TwoLevel Nat Nat TaskPayload := ∅
  idleWorkers : List Nat := []
  idleWorkersIds : Finset Nat := ∅
  sessions : AList (fun _ : Nat => SearchSession) := ∅
  workersFreeSlots : AList (fun _ : Nat => UInt64) := ∅
  nextSearchId : Nat := 0
  nextTaskId : Nat := 0

inductive SearchState
  | running
  | done
  deriving DecidableEq

structure SearchStatus where
  state : SearchState
  linesFound : UInt64
  totalMatches : UInt64
  scanErrors : UInt64
  chunksDone : Int32
  chunksTotal : Int32
  deriving DecidableEq

namespace MasterServer

def getStatus (m : MasterServer) (searchId : Nat) : Option SearchStatus :=
  (m.sessions.lookup searchId).map fun session => {
    state := if session.chunksDone = session.chunksTotal then .done else .running
    linesFound := session.lineCount
    totalMatches := session.totalMatches
    scanErrors := session.scanErrors
    chunksDone := session.chunksDone
    chunksTotal := session.chunksTotal }

/-! ## Searches -/

def allocateSearchId (m : MasterServer) : Nat × MasterServer :=
  (m.nextSearchId, { m with nextSearchId := m.nextSearchId + 1 })

/-- `AddPendingTasks` up to the append, which is all of it when the append throws. -/
def insertSession (m : MasterServer) (session : SearchSession) (newTasks : List TaskPayload) : MasterServer :=
  let session := { session with chunksTotal := Int32.ofNat newTasks.length }
  { m with sessions := m.sessions.insert session.searchId session }

/-- `AddPendingTasks` with an append that does not throw. -/
def addPendingTasks (m : MasterServer) (session : SearchSession) (newTasks : List TaskPayload) :
    MasterServer :=
  { m.insertSession session newTasks with pendingTasks := m.pendingTasks ++ newTasks }

/-! ## Workers -/

def registerWorker (m : MasterServer) (client : Nat) (threadsCount : UInt64) : MasterServer :=
  { m with workersFreeSlots := m.workersFreeSlots.insert client threadsCount }

/-- `DispatchNextTask`, with the task it sends. It returns `true` when there is one. -/
def dispatchNextTask (m : MasterServer) (client : Nat) : MasterServer × Option TaskPayload :=
  match m.workersFreeSlots.lookup client with
  | none => (m, none)
  | some slots =>
    match m.pendingTasks with
    | task :: pendingTasks =>
      let nextTaskId := m.nextTaskId + 1
      let task := { task with taskId := nextTaskId }
      ({ m with
        pendingTasks
        nextTaskId
        inFlightTasks := m.inFlightTasks.put client nextTaskId task
        workersFreeSlots := m.workersFreeSlots.insert client (slots - 1) }, some task)
    | [] =>
      if client ∈ m.idleWorkersIds then (m, none)
      else
        ({ m with
          idleWorkers := m.idleWorkers ++ [client]
          idleWorkersIds := insert client m.idleWorkersIds }, none)

/-- The critical section of `AssignIdleWorkers`: `none` leaves the loop, and the inner `none` is the
`continue` over a worker that is gone. -/
def popIdleWorker (m : MasterServer) : Option (MasterServer × Option (Nat × UInt64)) :=
  match m.pendingTasks, m.idleWorkers with
  | _ :: _, workerToWakeUp :: idleWorkers =>
    match m.workersFreeSlots.lookup workerToWakeUp with
    | none => some ({ m with idleWorkers }, none)
    | some threadsCount =>
      some ({ m with idleWorkers, idleWorkersIds := m.idleWorkersIds.erase workerToWakeUp },
        some (workerToWakeUp, threadsCount))
  | _, _ => none

/-- The tasks a worker has, in the order of the map that holds them. -/
def tasksOf (m : MasterServer) (client : Nat) : List TaskPayload :=
  (m.inFlightTasks.row client).entries.map (·.2)

/-- The critical section of `OnClientDisconnect`. The map is unordered, so `order` is the order in
which its tasks are found. -/
def reclaimTasks (m : MasterServer) (client : Nat) (order : List TaskPayload) : MasterServer :=
  { m with
    workersFreeSlots := m.workersFreeSlots.erase client
    idleWorkersIds := m.idleWorkersIds.erase client
    pendingTasks := order.foldl (fun pendingTasks task => task :: pendingTasks) m.pendingTasks
    inFlightTasks := m.inFlightTasks.dropRow client }

/-! ## Answers -/

/-- The first critical section of `Worker_TaskDone`; `none` is an unknown task. -/
def takeTask (m : MasterServer) (client taskId : Nat) : Option (MasterServer × TaskPayload) :=
  (m.inFlightTasks.find client taskId).map fun task =>
    ({ m with
      inFlightTasks := m.inFlightTasks.remove client taskId
      workersFreeSlots :=
        m.workersFreeSlots.insert client ((m.workersFreeSlots.lookup client).getD 0 + 1) }, task)

/-- The critical section of `AggregateTaskResult`, with the number of lines to write. -/
def addBatch (m : MasterServer) (searchId : Nat) (batch : ChunkResult) :
    Except Exn (MasterServer × Nat) :=
  match m.sessions.lookup searchId with
  | none => .error (.runtimeError (ascii "[MASTER] Unknown search_id:" ++ decimal searchId))
  | some session =>
    let session := { session with totalMatches := session.totalMatches + batch.totalMatches }
    if session.lineCount < session.maxResults then
      let needed := session.maxResults - session.lineCount
      let linesToWrite := min batch.lines.length needed.toNat
      let session := { session with lineCount := session.lineCount + UInt64.ofNat linesToWrite }
      .ok ({ m with sessions := m.sessions.insert searchId session }, linesToWrite)
    else .ok ({ m with sessions := m.sessions.insert searchId session }, 0)

def countChunk (m : MasterServer) (searchId : Nat) : MasterServer :=
  match m.sessions.lookup searchId with
  | none => m
  | some session =>
    { m with
      sessions := m.sessions.insert searchId { session with chunksDone := session.chunksDone + 1 } }

/-! ## What the sections do -/

/-- The four ways `DispatchNextTask` ends. -/
inductive Dispatched (m : MasterServer) (client : Nat) : MasterServer × Option TaskPayload → Prop
  | gone (h : m.workersFreeSlots.lookup client = none) : Dispatched m client (m, none)
  | sent (slots : UInt64) (task : TaskPayload) (pendingTasks : List TaskPayload)
      (hslots : m.workersFreeSlots.lookup client = some slots)
      (hpending : m.pendingTasks = task :: pendingTasks) :
      Dispatched m client ({ m with
        pendingTasks
        nextTaskId := m.nextTaskId + 1
        inFlightTasks := m.inFlightTasks.put client (m.nextTaskId + 1) { task with taskId := m.nextTaskId + 1 }
        workersFreeSlots := m.workersFreeSlots.insert client (slots - 1) },
        some { task with taskId := m.nextTaskId + 1 })
  | waiting (slots : UInt64) (hslots : m.workersFreeSlots.lookup client = some slots)
      (hpending : m.pendingTasks = []) (hidle : client ∈ m.idleWorkersIds) : Dispatched m client (m, none)
  | queued (slots : UInt64) (hslots : m.workersFreeSlots.lookup client = some slots)
      (hpending : m.pendingTasks = []) (hidle : client ∉ m.idleWorkersIds) :
      Dispatched m client ({ m with
        idleWorkers := m.idleWorkers ++ [client]
        idleWorkersIds := insert client m.idleWorkersIds }, none)

theorem dispatchNextTask_spec (m : MasterServer) (client : Nat) :
    Dispatched m client (m.dispatchNextTask client) := by
  unfold dispatchNextTask
  split
  · rename_i hslots
    exact .gone hslots
  · rename_i slots hslots
    split
    · rename_i task pendingTasks hpending
      exact .sent slots task pendingTasks hslots hpending
    · rename_i hpending
      split
      · rename_i hidle
        exact .waiting slots hslots hpending hidle
      · rename_i hidle
        exact .queued slots hslots hpending hidle

/-- The three ways a turn of `AssignIdleWorkers` goes. -/
inductive Popped (m : MasterServer) : Option (MasterServer × Option (Nat × UInt64)) → Prop
  | stop (h : m.pendingTasks = [] ∨ m.idleWorkers = []) : Popped m none
  | skip (client : Nat) (idleWorkers : List Nat) (hidle : m.idleWorkers = client :: idleWorkers)
      (hslots : m.workersFreeSlots.lookup client = none) : Popped m (some ({ m with idleWorkers }, none))
  | wake (client : Nat) (idleWorkers : List Nat) (threadsCount : UInt64)
      (hidle : m.idleWorkers = client :: idleWorkers)
      (hslots : m.workersFreeSlots.lookup client = some threadsCount) :
      Popped m (some ({ m with idleWorkers, idleWorkersIds := m.idleWorkersIds.erase client },
        some (client, threadsCount)))

theorem popIdleWorker_spec (m : MasterServer) : Popped m m.popIdleWorker := by
  unfold popIdleWorker
  split
  · rename_i client idleWorkers hpending hidle
    split
    · rename_i hslots
      exact .skip client idleWorkers hidle hslots
    · rename_i threadsCount hslots
      exact .wake client idleWorkers threadsCount hidle hslots
  · rename_i hnone
    refine .stop ?_
    by_contra h
    rw [not_or] at h
    obtain ⟨task, pendingTasks, hpending⟩ := List.exists_cons_of_ne_nil h.1
    obtain ⟨client, idleWorkers, hidle⟩ := List.exists_cons_of_ne_nil h.2
    exact hnone task pendingTasks client idleWorkers hpending hidle

theorem takeTask_eq_some (m : MasterServer) (client taskId : Nat) (server : MasterServer) (task : TaskPayload)
    (h : m.takeTask client taskId = some (server, task)) :
    m.inFlightTasks.find client taskId = some task ∧ server = { m with
      inFlightTasks := m.inFlightTasks.remove client taskId
      workersFreeSlots :=
        m.workersFreeSlots.insert client ((m.workersFreeSlots.lookup client).getD 0 + 1) } := by
  obtain ⟨task', hfind, heq⟩ := Option.map_eq_some_iff.mp h
  cases heq
  exact ⟨hfind, rfl⟩

theorem addBatch_eq_ok (m : MasterServer) (searchId : Nat) (batch : ChunkResult) (server : MasterServer)
    (linesToWrite : Nat) (h : m.addBatch searchId batch = .ok (server, linesToWrite)) :
    ∃ session, m.sessions.lookup searchId = some session ∧
      linesToWrite = min batch.lines.length (session.maxResults.toNat - session.lineCount.toNat) ∧
      server = { m with sessions := m.sessions.insert searchId { session with
        totalMatches := session.totalMatches + batch.totalMatches
        lineCount := session.lineCount + UInt64.ofNat linesToWrite } } := by
  unfold addBatch at h
  split at h
  · cases h
  · rename_i session hsession
    refine ⟨session, hsession, ?_⟩
    simp only at h
    split at h
    · rename_i hlt
      cases h
      exact ⟨by rw [UInt64.toNat_sub_of_le _ _ (UInt64.le_of_lt hlt)], rfl⟩
    · rename_i hge
      rw [UInt64.lt_iff_toNat_lt, not_lt] at hge
      cases h
      exact ⟨by rw [Nat.sub_eq_zero_of_le hge, Nat.min_zero], by simp⟩

theorem addBatch_ne_error (m : MasterServer) (searchId : Nat) (batch : ChunkResult) (e : Exn)
    (h : searchId ∈ m.sessions) : m.addBatch searchId batch ≠ .error e := by
  obtain ⟨session, hsession⟩ := Option.isSome_iff_exists.mp (AList.lookup_isSome.mpr h)
  unfold addBatch
  rw [hsession]
  simp only
  split <;> simp

theorem countChunk_lookup (m : MasterServer) (searchId id : Nat) (session : SearchSession)
    (h : (m.countChunk searchId).sessions.lookup id = some session) :
    ∃ old, m.sessions.lookup id = some old ∧ session = { old with chunksDone := session.chunksDone } := by
  unfold countChunk at h
  split at h
  · exact ⟨session, h, rfl⟩
  · rename_i old hold
    by_cases hid : id = searchId
    · subst hid
      have := (AList.lookup_insert _).symm.trans h
      rw [Option.some.injEq] at this
      subst this
      exact ⟨old, hold, rfl⟩
    · exact ⟨session, (AList.lookup_insert_ne hid).symm.trans h, rfl⟩

theorem mem_countChunk (m : MasterServer) (searchId id : Nat) :
    id ∈ (m.countChunk searchId).sessions ↔ id ∈ m.sessions := by
  unfold countChunk
  split
  · rfl
  · rename_i old hold
    have hmem : searchId ∈ m.sessions := AList.lookup_isSome.mp (by rw [hold]; rfl)
    simp only [AList.mem_insert]
    constructor
    · rintro (rfl | h)
      · exact hmem
      · exact h
    · exact Or.inr

theorem dispatchNextTask_sessions (m : MasterServer) (client : Nat) :
    (m.dispatchNextTask client).1.sessions = m.sessions ∧
      (m.dispatchNextTask client).1.nextSearchId = m.nextSearchId := by
  have hspec := m.dispatchNextTask_spec client
  generalize m.dispatchNextTask client = r at hspec
  cases hspec <;> exact ⟨rfl, rfl⟩

theorem takeTask_sessions (m server : MasterServer) (client taskId : Nat) (task : TaskPayload)
    (h : m.takeTask client taskId = some (server, task)) :
    server.sessions = m.sessions ∧ server.nextSearchId = m.nextSearchId := by
  obtain ⟨-, rfl⟩ := takeTask_eq_some m client taskId server task h
  exact ⟨rfl, rfl⟩

theorem popIdleWorker_sessions (m server : MasterServer) (woken : Option (Nat × UInt64))
    (h : m.popIdleWorker = some (server, woken)) :
    server.sessions = m.sessions ∧ server.nextSearchId = m.nextSearchId := by
  have hspec := h ▸ m.popIdleWorker_spec
  cases hspec <;> exact ⟨rfl, rfl⟩

theorem reclaimTasks_pending (m : MasterServer) (client : Nat) (order : List TaskPayload) :
    (m.reclaimTasks client order).pendingTasks = order.reverse ++ m.pendingTasks := by
  unfold reclaimTasks
  simp only
  generalize m.pendingTasks = pendingTasks
  induction order generalizing pendingTasks with
  | nil => rfl
  | cons task order ih => rw [List.foldl_cons, ih]; simp

end MasterServer

end LogGrid.Master
