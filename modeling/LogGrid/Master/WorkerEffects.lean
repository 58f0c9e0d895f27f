import LogGrid.Master.Ledger

/-!
# What a worker can change

Every critical section is put down with the call it belongs to. The sections of
a worker's call change nothing of another worker, and no session but that of
the task the message names, if the worker has it.
-/

open LogGrid.Runs

namespace LogGrid.Master

/-! ## Sections with their calls -/

/-- A critical section of a call: the master as the call's first section found it, and before and after
this one. -/
structure Effect where
  op : Op
  entry : MasterServer
  before : MasterServer
  after : MasterServer

/-- The master with the sections its calls have gone through, which nothing in the code reads. -/
structure Audited where
  master : Shared := {}
  effects : List Effect := []

/-- A thread with its call, and the master as the first section of the call found it. -/
structure Caller where
  op : Op
  entry : Option MasterServer
  pc : Pc

namespace Audited

/-- A thread went through its critical section and left `master` behind. -/
def record (s : Audited) (caller : Caller) (master : Shared) : Audited where
  master := master
  effects := {
    op := caller.op
    entry := caller.entry.getD s.master.server
    before := s.master.server
    after := master.server } :: s.effects

def start (settings : Settings) (s : Audited) (op : Op) : Audited × Option Caller :=
  ({ s with master := (begin settings s.master op).1 },
    (begin settings s.master op).2.map fun pc => ⟨op, none, pc⟩)

def turn (settings : Settings) (choice : Choice) (s : Audited) (caller : Caller) :
    Option (Audited × Option Caller) :=
  (exec settings choice s.master caller.pc).map fun (master, next) =>
    (s.record caller master, next.map fun pc => ⟨caller.op, some (caller.entry.getD s.master.server), pc⟩)

abbrev AuditedSystem := Threads.Pool Audited Caller

abbrev step (settings : Settings) : AuditedSystem → Event → Option AuditedSystem :=
  Threads.step (start settings) (turn settings)

def initial : AuditedSystem := ⟨{}, []⟩

abbrev Reachable (settings : Settings) : AuditedSystem → Prop := Reaches (step settings) Any initial

/-! ## The master below -/

def forget : AuditedSystem → System := Threads.Pool.map master Caller.pc

theorem start_forget (settings : Settings) (s : Audited) (op : Op) :
    begin settings s.master op = ((start settings s op).1.master, (start settings s op).2.map Caller.pc) := by
  unfold start
  simp only [Option.map_map]
  rw [show Caller.pc ∘ (fun pc => ⟨op, none, pc⟩) = id from rfl, Option.map_id]
  rfl

theorem turn_forget (settings : Settings) (choice : Choice) (s : Audited) (caller : Caller) :
    exec settings choice s.master caller.pc =
      (turn settings choice s caller).map fun r => (r.1.master, r.2.map Caller.pc) := by
  unfold turn
  cases exec settings choice s.master caller.pc with
  | none => rfl
  | some r =>
    obtain ⟨master, next⟩ := r
    cases next <;> rfl

theorem step_forget (settings : Settings) (q : AuditedSystem) (e : Event) :
    Master.step settings (forget q) e = (step settings q e).map forget :=
  Threads.step_map master Caller.pc (turn_forget settings) (start_forget settings) q e

theorem exists_of_reachable {settings : Settings} {p : System} (h : Master.Reachable settings p) :
    ∃ q, Reachable settings q ∧ forget q = p :=
  h.of_map forget (step_forget settings)

end Audited

open Audited

/-! ## What a worker may change -/

/-- The message is an answer that names `task`, which the worker has. -/
def Names (m : MasterServer) (client : Nat) (msg : Message) (task : TaskPayload) : Prop :=
  msg.header.id = LogSearchMsg.workerTaskDone.value ∧
    ∃ taskId rest, msg.pop UInt64 = .ok (taskId, rest) ∧ m.inFlightTasks.find client taskId.toNat = some task

/-- No other worker is touched. -/
structure OthersKept (client : Nat) (before after : MasterServer) : Prop where
  inFlight : ∀ w, w ≠ client → after.inFlightTasks.lookup w = before.inFlightTasks.lookup w
  slots : ∀ w, w ≠ client → after.workersFreeSlots.lookup w = before.workersFreeSlots.lookup w
  idleIds : ∀ w, w ≠ client → (w ∈ after.idleWorkersIds ↔ w ∈ before.idleWorkersIds)
  idle : after.idleWorkers.filter (· ≠ client) = before.idleWorkers.filter (· ≠ client)

def chunksDone (m : MasterServer) (id : Nat) : Option Int32 := (m.sessions.lookup id).map (·.chunksDone)

def Op.sender : Op → Option Nat
  | .onMessage client _ => some client
  | _ => none

/-- The sections of a worker's calls that changed `chunks_done` of a session. -/
def gains (effects : List Effect) (client id : Nat) : Nat :=
  effects.countP fun e => e.op.sender = some client ∧ chunksDone e.after id ≠ chunksDone e.before id

/-! ## Other workers -/

theorem OthersKept.refl (client : Nat) (m : MasterServer) : OthersKept client m m :=
  ⟨fun _ _ => rfl, fun _ _ => rfl, fun _ _ => Iff.rfl, rfl⟩

theorem OthersKept.trans {client : Nat} {m₁ m₂ m₃ : MasterServer} (h : OthersKept client m₁ m₂)
    (h' : OthersKept client m₂ m₃) : OthersKept client m₁ m₃ :=
  ⟨fun w hw => (h'.inFlight w hw).trans (h.inFlight w hw), fun w hw => (h'.slots w hw).trans (h.slots w hw),
    fun w hw => (h'.idleIds w hw).trans (h.idleIds w hw), h'.idle.trans h.idle⟩

theorem OthersKept.congr {client : Nat} {m m' : MasterServer} (hinFlight : m'.inFlightTasks = m.inFlightTasks)
    (hslots : m'.workersFreeSlots = m.workersFreeSlots) (hids : m'.idleWorkersIds = m.idleWorkersIds)
    (hidle : m'.idleWorkers = m.idleWorkers) : OthersKept client m m' :=
  ⟨fun _ _ => by rw [hinFlight], fun _ _ => by rw [hslots], fun _ _ => by rw [hids], by rw [hidle]⟩

namespace MasterServer

variable (m : MasterServer) (client : Nat)

end MasterServer

/-! ## Sessions -/

section

variable {m m' : MasterServer}

/-- Only the session of `searchId` may differ, and not in its `chunks_done`. -/
structure SameCount (searchId : Nat) (m m' : MasterServer) : Prop where
  sessions : ∀ id, id ≠ searchId → m'.sessions.lookup id = m.sessions.lookup id
  done : ∀ id, chunksDone m' id = chunksDone m id

theorem sameCount_add (searchId : Nat) (batch : ChunkResult) (linesToWrite : Nat)
    (h : m.addBatch searchId batch = .ok (m', linesToWrite)) : SameCount searchId m m' := by
  obtain ⟨session, hsession, _, rfl⟩ := MasterServer.addBatch_eq_ok m searchId batch m' linesToWrite h
  refine ⟨fun id hid => AList.lookup_insert_ne hid, fun id => ?_⟩
  unfold chunksDone
  by_cases hid : id = searchId
  · subst hid
    rw [AList.lookup_insert, hsession]
    rfl
  · rw [AList.lookup_insert_ne hid]

theorem countChunk_lookup_ne (m : MasterServer) (searchId id : Nat) (hid : id ≠ searchId) :
    (m.countChunk searchId).sessions.lookup id = m.sessions.lookup id := by
  unfold MasterServer.countChunk
  split
  · rfl
  · exact AList.lookup_insert_ne hid

theorem chunksDone_countChunk (m : MasterServer) (searchId : Nat) :
    chunksDone (m.countChunk searchId) searchId = (chunksDone m searchId).map (· + 1) := by
  unfold chunksDone MasterServer.countChunk
  split
  · rename_i hnone
    rw [hnone]
    rfl
  · rename_i session hsession
    rw [AList.lookup_insert, hsession]
    rfl

end

/-! ## Threads and their calls -/

/-- The call is about an answer that named `task` when its first section ran. -/
def Took (op : Op) (entry : Option MasterServer) (task : TaskPayload) : Prop :=
  ∃ client msg m, op = .onMessage client msg ∧ entry = some m ∧ Names m client msg task

/-- A thread handles a message of the worker it serves, and the task it took is the one that the message
names. -/
def Belongs (op : Op) (entry : Option MasterServer) : Pc → Prop
  | .helloRegister client _ | .helloDispatch client _ => op.sender = some client
  | .doneTake client taskId rest => entry = none ∧ ∃ msg n, op = .onMessage client msg ∧
      msg.header.id = LogSearchMsg.workerTaskDone.value ∧ msg.pop UInt64 = .ok (n, rest) ∧ n.toNat = taskId
  | .doneDispatch client task _ => op.sender = some client ∧ Took op entry task
  | .doneAggregate task _ | .doneLookup task _ | .doneWrite task _ _ | .doneCount task => Took op entry task
  | _ => op.sender = none

section

variable {settings : Settings} {choice : Choice} {s s' : Shared} {pc : Pc} {next : Option Pc} {op : Op}
  {entry : Option MasterServer}

theorem Took.later {task : TaskPayload} (h : Took op entry task) (m : MasterServer) :
    Took op (some (entry.getD m)) task := by
  obtain ⟨client, msg, m', hop, rfl, hnames⟩ := h
  exact ⟨client, msg, m', hop, rfl, hnames⟩

theorem Belongs.names {task : TaskPayload} (h : Belongs op entry pc) (htask : task ∈ held pc) :
    Took op entry task := by
  cases pc with
  | doneDispatch client task' msg => rw [List.mem_singleton.mp htask]; exact h.2
  | doneAggregate task' msg => rw [List.mem_singleton.mp htask]; exact h
  | doneLookup task' lines => rw [List.mem_singleton.mp htask]; exact h
  | doneWrite task' fullPath lines => rw [List.mem_singleton.mp htask]; exact h
  | doneCount task' => rw [List.mem_singleton.mp htask]; exact h
  | _ => cases htask

variable {client : Nat}

theorem Ran.session (h : Ran settings choice s pc s' next) (hpc : Belongs op entry pc)
    (hop : op.sender = some client) (id : Nat) :
    ((∀ task ∈ held pc, task.searchId ≠ id) → s'.server.sessions.lookup id = s.server.sessions.lookup id) ∧
      (chunksDone s'.server id = chunksDone s.server id ∨
        chunksDone s'.server id = (chunksDone s.server id).map (· + 1) ∧
          ∃ task ∈ counts pc, task.searchId = id) := by
  have same : s'.server.sessions = s.server.sessions → s'.server.sessions.lookup id = s.server.sessions.lookup id ∧
      chunksDone s'.server id = chunksDone s.server id := by
    intro hsessions
    unfold chunksDone
    rw [hsessions]
    exact ⟨rfl, rfl⟩
  cases h with
  | helloRegister client' threadsCount => exact ⟨fun _ => rfl, Or.inl rfl⟩
  | helloDispatch client' left =>
    obtain ⟨hlookup, hdone⟩ := same (s.server.dispatchNextTask_sessions client').1
    exact ⟨fun _ => hlookup, Or.inl hdone⟩
  | doneTake client' taskId rest server task htake =>
    obtain ⟨hlookup, hdone⟩ := same (s.server.takeTask_sessions server client' taskId task htake).1
    exact ⟨fun _ => hlookup, Or.inl hdone⟩
  | doneDispatch client' task rest =>
    obtain ⟨hlookup, hdone⟩ := same (s.server.dispatchNextTask_sessions client').1
    exact ⟨fun _ => hlookup, Or.inl hdone⟩
  | doneAggregate task rest batch server linesToWrite hdecode hadd =>
    have hsame := sameCount_add task.searchId batch linesToWrite hadd
    exact ⟨fun hne => hsame.sessions id (Ne.symm (hne task List.mem_cons_self)), Or.inl (hsame.done id)⟩
  | doneCount task =>
    by_cases hid : id = task.searchId
    · subst hid
      exact ⟨fun hne => absurd rfl (hne task List.mem_cons_self),
        Or.inr ⟨chunksDone_countChunk s.server task.searchId, task, List.mem_cons_self, rfl⟩⟩
    · have hlookup := countChunk_lookup_ne s.server task.searchId id hid
      exact ⟨fun _ => hlookup, Or.inl (by unfold chunksDone; rw [hlookup])⟩
  | doneWrite task fullPath lines => cases choice.opens <;> exact ⟨fun _ => rfl, Or.inl rfl⟩
  | unknownTask client' taskId rest htake => exact ⟨fun _ => rfl, Or.inl rfl⟩
  | batchLost task rest hlost => exact ⟨fun _ => rfl, Or.inl rfl⟩
  | sessionLost task lines hlost => exact ⟨fun _ => rfl, Or.inl rfl⟩
  | doneLookup task lines session hsession => exact ⟨fun _ => rfl, Or.inl rfl⟩
  | _ => cases hop.symm.trans hpc

/-- Tasks of a call, with the worker it serves. -/
def dealt (op : Op) (tasks : List TaskPayload) : List (Nat × TaskPayload) :=
  op.sender.toList.flatMap fun client => tasks.map (client, ·)

theorem dealt_of_sender (tasks : List TaskPayload) (h : op.sender = some client) :
    dealt op tasks = tasks.map (client, ·) := by
  unfold dealt
  rw [h]
  simp

@[simp] theorem dealt_nil (op : Op) : dealt op [] = [] := by
  unfold dealt
  simp

theorem dealt_append (op : Op) (tasks tasks' : List TaskPayload) :
    (dealt op (tasks ++ tasks')).Perm (dealt op tasks ++ dealt op tasks') := by
  unfold dealt
  cases op.sender <;> simp

def MasterServer.onDesks (m : MasterServer) : List (Nat × TaskPayload) :=
  m.inFlightTasks.items.map fun x => (x.1, x.2.2)

/-- A section sends `sentNow`, and what it counts or leaves with a thread or a worker it found there or sent. -/
def Hands (op : Op) (s s' : Shared) (pc : Pc) (next : Option Pc) (sentNow : List (Nat × TaskPayload)) : Prop :=
  s'.sent = sentNow.map (fun x => (x.1, taskMessage x.2)) ++ s.sent ∧
    (dealt op (counts pc ++ next.toList.flatMap held) ++ s'.server.onDesks).Subperm
      (sentNow ++ (dealt op (held pc) ++ s.server.onDesks))

theorem hands_nothing (hsent : s'.sent = s.sent) (hdesks : s'.server.onDesks.Subperm s.server.onDesks)
    (hheld : counts pc ++ next.toList.flatMap held = held pc) : Hands op s s' pc next [] := by
  refine ⟨hsent, ?_⟩
  rw [hheld]
  exact (List.subperm_append_left _).mpr hdesks

theorem hands_dispatch (client : Nat) (hids : s.server.TaskIds)
    (hheld : counts pc ++ next.toList.flatMap held = held pc) :
    ∃ sentNow, Hands op s (dispatch s client).1 pc next sentNow := by
  unfold dispatch Hands
  rw [hheld]
  have hspec := s.server.dispatchNextTask_spec client
  generalize s.server.dispatchNextTask client = r at hspec
  cases hspec with
  | gone _ => exact ⟨[], rfl, List.Subperm.refl _⟩
  | waiting _ _ _ _ => exact ⟨[], rfl, List.Subperm.refl _⟩
  | queued _ _ _ _ => exact ⟨[], rfl, List.Subperm.refl _⟩
  | sent slots task pendingTasks _ _ =>
    have hitems := (s.server.inFlightTasks.items_put client (s.server.nextTaskId + 1)
      { task with taskId := s.server.nextTaskId + 1 } (hids.fresh client)).map fun x => (x.1, x.2.2)
    refine ⟨[(client, { task with taskId := s.server.nextTaskId + 1 })], rfl, ?_⟩
    exact ((hitems.append_left _).trans List.perm_middle).subperm

theorem Ran.hands (h : Ran settings choice s pc s' next) (hpc : Belongs op entry pc) (hids : s.server.TaskIds) :
    ∃ sentNow, Hands op s s' pc next sentNow := by
  cases h with
  | helloRegister client' threadsCount =>
    exact ⟨[], hands_nothing rfl (List.Subperm.refl _) (held_helloLoop _ _)⟩
  | helloDispatch client' left =>
    apply hands_dispatch client' hids
    split
    · exact held_helloLoop _ _
    · rfl
  | doneTake client' taskId rest server task htake =>
    obtain ⟨-, msg, n, rfl, -⟩ := hpc
    obtain ⟨hfind, rfl⟩ := MasterServer.takeTask_eq_some _ _ _ _ _ htake
    have hitems := (s.server.inFlightTasks.items_remove client' taskId task hfind).map fun x => (x.1, x.2.2)
    exact ⟨[], rfl, hitems.symm.subperm⟩
  | doneDispatch client' task rest => exact hands_dispatch client' hids rfl
  | doneAggregate task rest batch server linesToWrite hdecode hadd =>
    obtain ⟨_, _, _, rfl⟩ := MasterServer.addBatch_eq_ok _ _ _ _ _ hadd
    refine ⟨[], hands_nothing rfl (List.Subperm.refl _) ?_⟩
    split <;> rfl
  | doneWrite task fullPath lines =>
    cases choice.opens <;> exact ⟨[], hands_nothing rfl (List.Subperm.refl _) rfl⟩
  | doneCount task =>
    refine ⟨[], hands_nothing rfl ?_ rfl⟩
    unfold MasterServer.countChunk
    split <;> exact List.Subperm.refl _
  | assignSkip server hpop =>
    have hspec := hpop ▸ s.server.popIdleWorker_spec
    cases hspec
    exact ⟨[], hands_nothing rfl (List.Subperm.refl _) rfl⟩
  | assignWake server client' threadsCount hpop =>
    have hspec := hpop ▸ s.server.popIdleWorker_spec
    cases hspec
    refine ⟨[], hands_nothing rfl (List.Subperm.refl _) ?_⟩
    rw [Option.toList_some, List.flatMap_singleton, held_assignLoop]
    rfl
  | assignDispatch client' left =>
    apply hands_dispatch client' hids
    rw [Option.toList_some, List.flatMap_singleton]
    split
    · rw [held_assignLoop]; rfl
    · rfl
  | disconnect client' horder =>
    refine ⟨[], hands_nothing rfl ?_ rfl⟩
    have hitems := (s.server.inFlightTasks.items_perm_dropRow client').map fun x => (x.1, x.2.2)
    rw [List.map_append] at hitems
    exact (List.sublist_append_right _ _).subperm.trans hitems.symm.subperm
  | _ => exact ⟨[], hands_nothing rfl (List.Subperm.refl _) rfl⟩

end

/-! ## Whole runs -/

/-- The tasks that were sent; each is at most once with its worker, in the hands of a thread, or earned, and
a session gains chunks from a worker for tasks that it earned. -/
structure Accounts (s : Audited) (callers : List Caller)
    (dispatched earned : List (Nat × TaskPayload)) : Prop where
  sent : s.master.sent = dispatched.map fun x => (x.1, taskMessage x.2)
  once : (earned ++ (callers.flatMap (fun caller => dealt caller.op (held caller.pc)) ++
    s.master.server.onDesks)).Subperm dispatched
  gained : ∀ client id, gains s.effects client id ≤ earned.countP fun x => x.1 = client ∧ x.2.searchId = id

section

variable {settings : Settings} {q : AuditedSystem}

theorem gains_record {choice : Choice} {s : Audited} {caller : Caller} {master : Shared} {next : Option Pc}
    (hran : Ran settings choice s.master caller.pc master next)
    (hbelongs : Belongs caller.op caller.entry caller.pc) (client id : Nat) :
    gains (s.record caller master).effects client id ≤
      (dealt caller.op (counts caller.pc)).countP (fun x => x.1 = client ∧ x.2.searchId = id) +
        gains s.effects client id := by
  unfold record gains
  rw [List.countP_cons]
  split
  · rename_i hgain
    obtain ⟨hop, hdone⟩ := of_decide_eq_true hgain
    rcases (hran.session hbelongs hop id).2 with hsame | ⟨-, task, htask, hid⟩
    · exact absurd hsame hdone
    · have hone : 0 < (dealt caller.op (counts caller.pc)).countP (fun x => x.1 = client ∧ x.2.searchId = id) := by
        rw [dealt_of_sender _ hop, List.countP_pos_iff]
        exact ⟨(client, task), List.mem_map_of_mem htask, by simpa using hid⟩
      omega
  · omega

theorem Accounts.turn {choice : Choice} {s : Audited} {caller : Caller} {rest : List Caller} {master : Shared}
    {next : Option Pc} {dispatched earned sentNow : List (Nat × TaskPayload)}
    (h : Accounts s (caller :: rest) dispatched earned)
    (hran : Ran settings choice s.master caller.pc master next)
    (hbelongs : Belongs caller.op caller.entry caller.pc)
    (hhands : Hands caller.op s.master master caller.pc next sentNow) (entry : Option MasterServer) :
    Accounts (s.record caller master) ((next.map fun pc => ⟨caller.op, entry, pc⟩).toList ++ rest)
      (sentNow ++ dispatched) (dealt caller.op (counts caller.pc) ++ earned) := by
  obtain ⟨hsent, hmove⟩ := hhands
  constructor
  · rw [List.map_append, ← h.sent]
    exact hsent
  · have honce := h.once
    have hnext : (next.map fun pc => (⟨caller.op, entry, pc⟩ : Caller)).toList.flatMap
        (fun caller => dealt caller.op (held caller.pc)) = dealt caller.op (next.toList.flatMap held) := by
      cases next <;> simp
    rw [List.flatMap_append, hnext]
    simp only [record, List.flatMap_cons] at honce ⊢
    refine List.subperm_ext_iff.mpr fun x _ => ?_
    have h₁ := honce.count_le x
    have h₂ := hmove.count_le x
    have h₃ := (dealt_append caller.op (counts caller.pc) (next.toList.flatMap held)).count_eq x
    simp only [List.count_append] at h₁ h₂ h₃ ⊢
    omega
  · intro client id
    have hgain := gains_record hran hbelongs client id
    have hold := h.gained client id
    rw [List.countP_append]
    omega

end

/-! ## The result -/

end LogGrid.Master
