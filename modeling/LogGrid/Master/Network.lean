import LogGrid.Master.Slots
import LogGrid.Net.Framing

/-!
# The master on the network

The server's connections around the scheduler. A socket is closed by a read
that fails, or by the write of a header that fails. `OnClientDisconnect` is
called by `MessageClient` and `MessageAllClients` only, and the master calls
neither, so no step here is a call of it.
-/

open LogGrid.StandardLayout LogGrid.Runs LogGrid.Net LogGrid.Net.Framing

namespace LogGrid.Master

structure Network where
  system : System := .initial
  connections : AList (fun _ : Nat => Connection) := ∅
  messagesIn : List (Nat × Message) := []
  /-- How many of the handlers posted by `Send` have run. -/
  handled : Nat := 0
  nIDCounter : Nat := 10000

/-- The completion of a read or write comes with `ok` for `!ec`, and a read with what is in its buffer. -/
inductive NetworkEvent
  | accept
  | sendPosted
  | wrote (client : Nat) (ok : Bool)
  | read (client : Nat) (ok : Bool) (bytes : Bytes)
  | update
  | startSearch (request : Request)
  | run (thread : Nat) (choice : Choice)

namespace Network

/-- `WaitForClientConnection` and `ConnectToClient`; `OnClientConnect` accepts everyone. -/
def accept (n : Network) : Network :=
  { n with
    connections := n.connections.insert n.nIDCounter (Connection.readHeader {})
    nIDCounter := n.nIDCounter + 1 }

def setConnection (n : Network) (client : Nat) (c : Connection) : Network :=
  { n with connections := n.connections.insert client c }

/-- The handlers posted by `Send` that are still to run, the oldest first. -/
def posted (n : Network) : List (Nat × Message) := n.system.shared.sent.reverse.drop n.handled

def readCompletion (c : Connection) (ok : Bool) (bytes : Bytes) : Part → Connection × Option Message
  | .header => c.onReadHeader .server ok (ofBytes bytes)
  | .body => c.onReadBody .server ok bytes

def step (settings : Settings) (n : Network) : NetworkEvent → Option Network
  | .accept => some n.accept
  | .sendPosted =>
    n.posted.head?.bind fun (client, msg) =>
      (n.connections.lookup client).map fun c =>
        { n.setConnection client (c.send msg) with handled := n.handled + 1 }
  | .wrote client ok =>
    (n.connections.lookup client).bind fun c => (writerStep c (.wrote ok)).map (n.setConnection client)
  | .read client ok bytes =>
    (n.connections.lookup client).bind fun c => c.reading.bind fun part =>
      if ok = true ∧ bytes.length ≠ bufferSize c part then none
      else
        let (c, msg) := readCompletion c ok bytes part
        some { n.setConnection client c with
          messagesIn := n.messagesIn ++ msg.toList.map fun msg => (client, msg) }
  | .update =>
    if ∀ pc ∈ n.system.threads, updating pc = false then
      match n.messagesIn with
      | [] => none
      | (client, msg) :: messagesIn =>
        (Master.step settings n.system (.call (.onMessage client msg))).map fun system =>
          { n with system, messagesIn }
    else none
  | .startSearch request =>
    (Master.step settings n.system (.call (.startSearch request))).map fun system => { n with system }
  | .run thread choice =>
    (Master.step settings n.system (.run thread choice)).map fun system => { n with system }

/-! ## Lost connections -/

def closed (n : Network) (client : Nat) : Bool :=
  (n.connections.lookup client).any fun c => !c.isOpen

/-- No call is running, no message is queued, and a closed socket has nothing outstanding. -/
structure Quiet (n : Network) : Prop where
  threads : n.system.threads = []
  messagesIn : n.messagesIn = []
  completions : ∀ e ∈ n.connections.entries, e.2.isOpen = false → e.2.reading = none ∧ e.2.writing = none
  posts : ∀ x ∈ n.posted, n.closed x.1 = false

def NoneStranded (n : Network) : Prop :=
  ∀ client, n.closed client = true → n.system.shared.server.tasksOf client = []

/-! ## Answers on their way -/

/-- The task id of a `Worker_TaskDone`. -/
def answerOf (msg : Message) : Option Nat :=
  if msg.header.id = LogSearchMsg.workerTaskDone.value then
    match msg.pop UInt64 with
    | .ok (taskId, _) => some taskId.toNat
    | .error _ => none
  else none

def takes : Pc → Option (Nat × Nat)
  | .doneTake client taskId _ => some (client, taskId)
  | _ => none

def dispatchesTo : Pc → Option Nat
  | .helloDispatch client _ | .doneDispatch client _ _ | .assignDispatch client _ => some client
  | _ => none

/-- An answer for the task is queued, or about to be taken up. -/
def AnswerQueued (n : Network) (client taskId : Nat) : Prop :=
  (∃ x ∈ n.messagesIn, x.1 = client ∧ answerOf x.2 = some taskId) ∨
    ∃ pc ∈ n.system.threads, takes pc = some (client, taskId)

def Answered (n : Network) (client : Nat) : Prop :=
  ∀ e ∈ (n.system.shared.server.inFlightTasks.row client).entries, n.AnswerQueued client e.1

def closes (n : Network) : NetworkEvent → Option Nat
  | .read client false _ => some client
  | .wrote client false =>
    if (n.connections.lookup client).bind (·.writing) = some Part.header then some client else none
  | _ => none

def hands (n : Network) : NetworkEvent → Option Nat
  | .run thread _ => n.system.threads[thread]?.bind dispatchesTo
  | _ => none

/-- A connection is lost only when all its tasks are answered, and no task is handed to a lost one. -/
def Kept (n : Network) (e : NetworkEvent) : Prop :=
  (∀ client ∈ n.closes e, n.Answered client) ∧
  ∀ client ∈ n.hands e, n.closed client = true →
    n.system.shared.server.pendingTasks.isEmpty = true ∨ client ∉ n.system.shared.server.workersFreeSlots

instance (n : Network) (client taskId : Nat) : Decidable (n.AnswerQueued client taskId) :=
  inferInstanceAs (Decidable (_ ∨ _))

instance (n : Network) (client : Nat) : Decidable (n.Answered client) :=
  inferInstanceAs (Decidable (∀ _ ∈ _, _))

instance (n : Network) (e : NetworkEvent) : Decidable (n.Kept e) := inferInstanceAs (Decidable (_ ∧ _))

/-! ## What a step does to the tasks -/

theorem find_dispatch (m : MasterServer) (client client' taskId : Nat) (task : TaskPayload)
    (h : (m.dispatchNextTask client).1.inFlightTasks.find client' taskId = some task) :
    m.inFlightTasks.find client' taskId = some task ∨
      client' = client ∧ m.pendingTasks.isEmpty = false ∧ client ∈ m.workersFreeSlots := by
  have hspec := m.dispatchNextTask_spec client
  generalize m.dispatchNextTask client = r at hspec h
  cases hspec with
  | gone _ => exact Or.inl h
  | waiting _ _ _ _ => exact Or.inl h
  | queued _ _ _ _ => exact Or.inl h
  | sent slots task pendingTasks hslots hpending =>
    rcases TwoLevel.find_of_put _ _ _ _ _ _ _ h with hold | hclient
    · exact Or.inl hold
    · exact Or.inr ⟨hclient, by rw [hpending]; rfl, AList.lookup_isSome.mp (by rw [hslots]; rfl)⟩

theorem find_ran {settings : Settings} {choice : Choice} {s s' : Shared} {pc : Pc} {next : Option Pc}
    (h : Ran settings choice s pc s' next) (client taskId : Nat) (task : TaskPayload)
    (hfind : s'.server.inFlightTasks.find client taskId = some task) :
    s.server.inFlightTasks.find client taskId = some task ∧ takes pc ≠ some (client, taskId) ∨
      dispatchesTo pc = some client ∧ s.server.pendingTasks.isEmpty = false ∧
        client ∈ s.server.workersFreeSlots := by
  have hother : none ≠ some (client, taskId) := (Option.some_ne_none _).symm
  cases h with
  | helloDispatch worker left =>
    rcases find_dispatch s.server worker client taskId task hfind with hold | ⟨rfl, hhand⟩
    · exact Or.inl ⟨hold, hother⟩
    · exact Or.inr ⟨rfl, hhand⟩
  | unknownTask worker taskId' msg hnone =>
    refine Or.inl ⟨hfind, ?_⟩
    rintro ⟨⟩
    rw [MasterServer.takeTask, hfind] at hnone
    cases hnone
  | doneTake worker taskId' msg server task' htake =>
    obtain ⟨-, rfl⟩ := MasterServer.takeTask_eq_some _ _ _ _ _ htake
    obtain ⟨hold, hne⟩ := TwoLevel.find_of_remove _ _ _ _ _ _ hfind
    refine Or.inl ⟨hold, ?_⟩
    rintro ⟨⟩
    exact hne ⟨rfl, rfl⟩
  | doneDispatch worker task' msg =>
    rcases find_dispatch s.server worker client taskId task hfind with hold | ⟨rfl, hhand⟩
    · exact Or.inl ⟨hold, hother⟩
    · exact Or.inr ⟨rfl, hhand⟩
  | doneAggregate task' msg batch server linesToWrite hdecode hadd =>
    obtain ⟨_, _, _, rfl⟩ := MasterServer.addBatch_eq_ok _ _ _ _ _ hadd
    exact Or.inl ⟨hfind, hother⟩
  | doneWrite task' fullPath lines =>
    refine Or.inl ⟨?_, hother⟩
    split at hfind <;> exact hfind
  | doneCount task' =>
    refine Or.inl ⟨?_, hother⟩
    unfold MasterServer.countChunk at hfind
    split at hfind <;> exact hfind
  | assignSkip server hpop =>
    have hspec := hpop ▸ s.server.popIdleWorker_spec
    cases hspec with
    | skip _ _ _ _ => exact Or.inl ⟨hfind, hother⟩
  | assignWake server worker slots hpop =>
    have hspec := hpop ▸ s.server.popIdleWorker_spec
    cases hspec with
    | wake _ _ _ _ _ => exact Or.inl ⟨hfind, hother⟩
  | assignDispatch worker left =>
    rcases find_dispatch s.server worker client taskId task hfind with hold | ⟨rfl, hhand⟩
    · exact Or.inl ⟨hold, hother⟩
    · exact Or.inr ⟨rfl, hhand⟩
  | disconnect worker horder =>
    refine Or.inl ⟨?_, hother⟩
    by_cases hw : client = worker
    · subst hw
      simp [MasterServer.reclaimTasks, TwoLevel.find] at hfind
    · rw [TwoLevel.find, MasterServer.reclaimTasks, TwoLevel.row_dropRow_ne _ _ _ hw] at hfind
      exact hfind
  | _ => exact Or.inl ⟨hfind, hother⟩

/-! ## Every lost connection is answered -/

def LostAnswered (n : Network) : Prop := ∀ client, n.closed client = true → n.Answered client

theorem Answered.congr {n n' : Network} {client : Nat} (h : n.Answered client)
    (hserver : n'.system.shared.server = n.system.shared.server)
    (hqueued : ∀ taskId, n.AnswerQueued client taskId → n'.AnswerQueued client taskId) : n'.Answered client := by
  intro e he
  rw [hserver] at he
  exact hqueued e.1 (h e he)

theorem closed_setConnection (n : Network) (client client' : Nat) (c : Connection) :
    (n.setConnection client c).closed client' = if client' = client then !c.isOpen else n.closed client' := by
  unfold closed setConnection
  split
  · rename_i h; subst h; simp
  · rename_i h; rw [AList.lookup_insert_ne h]

theorem lostAnswered_setConnection {n n' : Network} {client : Nat} {c c' : Connection} (h : n.LostAnswered)
    (hc : n.connections.lookup client = some c)
    (hconnections : ∀ client', n'.closed client' = (n.setConnection client c').closed client')
    (hsystem : n'.system = n.system) (hmessages : n.messagesIn ⊆ n'.messagesIn)
    (hclosed : c'.isOpen = false → c.isOpen = false ∨ n.Answered client) : n'.LostAnswered := by
  intro client' hlost
  rw [hconnections, closed_setConnection] at hlost
  have hanswered : n.Answered client' := by
    split at hlost
    · rename_i heq
      subst heq
      rcases hclosed (by simpa using hlost) with hopen | hanswered
      · exact h client' (by simp [closed, hc, hopen])
      · exact hanswered
    · exact h client' hlost
  refine hanswered.congr (by rw [hsystem]) ?_
  rintro taskId (⟨x, hx, hanswer⟩ | hthread)
  · exact Or.inl ⟨x, hmessages hx, hanswer⟩
  · exact Or.inr (by rw [hsystem]; exact hthread)

theorem begin_takes (settings : Settings) (s : Shared) (client taskId : Nat) (msg : Message)
    (h : answerOf msg = some taskId) :
    ∃ pc ∈ (begin settings s (.onMessage client msg)).2, takes pc = some (client, taskId) := by
  unfold answerOf at h
  split at h
  · rename_i hid
    have hhello : ¬ msg.header.id = LogSearchMsg.workerHello.value := by rw [hid]; decide
    split at h
    · rename_i id rest hpop
      cases h
      simp only [begin, if_neg hhello, if_pos hid, hpop]
      exact ⟨_, rfl, rfl⟩
    · cases h
  · cases h

theorem lostAnswered_run (settings : Settings) (n : Network) (system : System) (thread : Nat) (choice : Choice)
    (h : n.LostAnswered) (hkept : n.Kept (.run thread choice))
    (hsystem : Master.step settings n.system (.run thread choice) = some system) :
    LostAnswered { n with system } := by
  obtain ⟨pc, rest, next, hget, hthreads, hexec, hthreads'⟩ := Threads.step_run hsystem
  have hran := exec_ran settings choice _ _ pc next hexec
  intro client hlost e he
  have hfind := (TwoLevel.mem_row_iff _ _ _ _).mp he
  rcases find_ran hran client e.1 e.2 hfind with ⟨hold, hne⟩ | ⟨hto, hpending, hslots⟩
  · have hmem := (TwoLevel.mem_row_iff _ _ _ _).mpr hold
    rcases h client hlost ⟨e.1, e.2⟩ hmem with hqueued | ⟨pc', hpc', htakes⟩
    · exact Or.inl hqueued
    · rcases List.mem_cons.mp (hthreads.mem_iff.mp hpc') with rfl | hrest
      · exact absurd htakes hne
      · exact Or.inr ⟨pc', hthreads'.mem_iff.mpr (List.mem_append_right _ hrest), htakes⟩
  · rcases hkept.2 client (by simp [hands, hget, hto]) hlost with hempty | hgone
    · rw [hpending] at hempty; cases hempty
    · exact absurd hslots hgone

/-- **A step that keeps its connections leaves every lost one answered.** -/
theorem lostAnswered_step (settings : Settings) (n n' : Network) (e : NetworkEvent) (h : n.LostAnswered)
    (hkept : n.Kept e) (hstep : step settings n e = some n') : n'.LostAnswered := by
  cases e with
  | accept =>
    cases hstep
    intro client hlost
    have hclosed := closed_setConnection n n.nIDCounter client (Connection.readHeader {})
    split at hclosed
    · exact absurd (hlost.symm.trans hclosed) (by decide)
    · exact h client (hclosed.symm.trans hlost)
  | sendPosted =>
    obtain ⟨⟨client, msg⟩, -, hstep⟩ := Option.bind_eq_some_iff.mp hstep
    obtain ⟨c, hc, rfl⟩ := Option.map_eq_some_iff.mp hstep
    refine lostAnswered_setConnection h hc (fun _ => rfl) rfl (List.Subset.refl _) ?_
    intro hopen
    rw [Connection.isOpen_send] at hopen
    exact Or.inl hopen
  | wrote client ok =>
    obtain ⟨c, hc, hstep⟩ := Option.bind_eq_some_iff.mp hstep
    obtain ⟨c', hwrote, rfl⟩ := Option.map_eq_some_iff.mp hstep
    refine lostAnswered_setConnection h hc (fun _ => rfl) rfl (List.Subset.refl _) ?_
    intro hopen
    simp only [writerStep] at hwrote
    split at hwrote
    · cases hwrote
    · rename_i hwriting
      cases hwrote
      cases ok with
      | true => exact Or.inl (by simpa using hopen)
      | false =>
        refine Or.inr (hkept.1 client ?_)
        simp [closes, hc, hwriting]
    · cases hwrote
      exact Or.inl (by simpa using hopen)
  | read client ok bytes =>
    obtain ⟨c, hc, hstep⟩ := Option.bind_eq_some_iff.mp hstep
    obtain ⟨part, -, hstep⟩ := Option.bind_eq_some_iff.mp hstep
    split at hstep
    · cases hstep
    · cases hstep
      refine lostAnswered_setConnection h hc (fun _ => rfl) rfl (List.subset_append_left _ _) ?_
      intro hopen
      cases ok with
      | true => cases part <;> exact Or.inl (by simpa [readCompletion] using hopen)
      | false => exact Or.inr (hkept.1 client rfl)
  | update =>
    simp only [step] at hstep
    split at hstep
    · split at hstep
      · cases hstep
      · rename_i client msg messagesIn hmessages
        obtain ⟨system, hsystem, rfl⟩ := Option.map_eq_some_iff.mp hstep
        obtain ⟨hshared, hthreads⟩ := Threads.step_call hsystem
        intro client' hlost
        refine (h client' hlost).congr (by rw [hshared, begin_server]) ?_
        rintro taskId (⟨x, hx, hclient, hanswer⟩ | ⟨pc, hpc, htakes⟩)
        · rw [hmessages] at hx
          rcases List.mem_cons.mp hx with rfl | hx
          · -- The answer is the message that is handled now.
            obtain ⟨pc, hpc, htakes⟩ := begin_takes settings n.system.shared client taskId msg hanswer
            exact Or.inr ⟨pc, hthreads ▸ List.mem_append_left _ (Option.mem_toList.mpr hpc), hclient ▸ htakes⟩
          · exact Or.inl ⟨x, hx, hclient, hanswer⟩
        · exact Or.inr ⟨pc, hthreads ▸ List.mem_append_right _ hpc, htakes⟩
    · cases hstep
  | startSearch request =>
    simp only [step] at hstep
    obtain ⟨system, hsystem, rfl⟩ := Option.map_eq_some_iff.mp hstep
    obtain ⟨hshared, hthreads⟩ := Threads.step_call hsystem
    intro client hlost
    refine (h client hlost).congr (by rw [hshared, begin_server]) ?_
    rintro taskId (hqueued | ⟨pc, hpc, htakes⟩)
    · exact Or.inl hqueued
    · exact Or.inr ⟨pc, hthreads ▸ List.mem_append_right _ hpc, htakes⟩
  | run thread choice =>
    simp only [step] at hstep
    obtain ⟨system, hsystem, rfl⟩ := Option.map_eq_some_iff.mp hstep
    exact lostAnswered_run settings n system thread choice h hkept hsystem

/-! ## The result -/

/-- **No work is stranded** in a run in which connections are lost only once all their tasks are answered,
and no task is handed to a lost one. -/
theorem none_stranded (settings : Settings) (n : Network) (h : Reaches (step settings) Kept {} n)
    (hquiet : n.Quiet) : n.NoneStranded := by
  have hlost : n.LostAnswered := by
    refine h.invariant LostAnswered ?_ ?_
    · intro client hlost
      cases hlost
    · intro n e n' _ hinv hkept hstep
      exact lostAnswered_step settings n n' e hinv hkept hstep
  intro client hclosed
  have hrow : (n.system.shared.server.inFlightTasks.row client).entries = [] := by
    rw [List.eq_nil_iff_forall_not_mem]
    intro e he
    rcases hlost client hclosed e he with ⟨x, hx, -⟩ | ⟨pc, hpc, -⟩
    · rw [hquiet.messagesIn] at hx; cases hx
    · rw [hquiet.threads] at hpc; cases hpc
  rw [MasterServer.tasksOf, hrow, List.map_nil]

/-- A message arrives on a connection: the completions of `ReadHeader` and of `ReadBody`. -/
def arrives (client : Nat) (msg : Message) : List NetworkEvent :=
  [.read client true (toBytes msg.header), .read client true msg.body]

/-- A worker connects and gets the one chunk of a search. -/
def assigned : List NetworkEvent :=
  .accept :: arrives 10000 (helloMessage 1) ++
    [.update, .run 0 {}, .run 0 {}, .startSearch (searchRequest oneChunkSize), .run 0 {}, .run 0 {},
      .run 0 {}, .run 0 {}, .run 0 {}, .sendPosted, .wrote 10000 true, .wrote 10000 true]

/-- The worker answers, and its connection is lost before the answer is handled. -/
def answeredAndLost : List NetworkEvent :=
  assigned ++ arrives 10000 (BatchCodec.taskDoneMessage { taskId := 1 }) ++
    [.read 10000 false [], .update, .run 0 {}, .run 0 {}, .run 0 {}, .run 0 {}]

def afterAnswer : Network := Runs.after (step {}) Kept {} answeredAndLost

theorem none_stranded_after_answer :
    afterAnswer.closed 10000 = true ∧ afterAnswer.system.shared.server.tasksOf 10000 = [] := by
  have hclosed : afterAnswer.closed 10000 = true := by decide +kernel
  have hquiet : afterAnswer.Quiet :=
    ⟨List.length_eq_zero_iff.mp (by decide +kernel), List.length_eq_zero_iff.mp (by decide +kernel),
      by decide +kernel, by decide +kernel⟩
  exact ⟨hclosed, none_stranded {} afterAnswer
    (Runs.reaches_after answeredAndLost .start (by decide +kernel)) hquiet 10000 hclosed⟩

/-- The worker's connection is lost while it has the chunk. -/
def afterLoss : Network := Runs.after (step {}) Runs.Any {} (assigned ++ [.read 10000 false []])

/-- **A lost worker keeps its task.** Everything is at rest, and the task is still in flight. -/
theorem stranded :
    ∃ n, Reaches (step {}) Runs.Any {} n ∧ n.Quiet ∧ ¬ n.NoneStranded := by
  refine ⟨afterLoss, Runs.reaches_after _ .start (by decide +kernel), ?_, ?_⟩
  · exact ⟨List.length_eq_zero_iff.mp (by decide +kernel), List.length_eq_zero_iff.mp (by decide +kernel),
      by decide +kernel, by decide +kernel⟩
  · intro hnone
    have htasks : (afterLoss.system.shared.server.tasksOf 10000).length = 1 := by decide +kernel
    rw [hnone 10000 (by decide +kernel)] at htasks
    cases htasks

end Network

end LogGrid.Master
