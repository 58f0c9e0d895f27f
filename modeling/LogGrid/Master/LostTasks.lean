import LogGrid.Master.Dispatches
import LogGrid.Master.Network
import LogGrid.Net.Link

/-!
# Lost tasks

A task whose answer can no longer come stays where it is. Nothing takes it back
from the worker that had it, so the search that it belongs to goes on forever.
-/

open LogGrid.StandardLayout LogGrid.Runs LogGrid.Net LogGrid.Net.Framing

namespace LogGrid.Master

theorem running_of_stock {settings : Settings} {guard : System → Event → Prop} {p : System}
    (h : Reaches (step settings) guard System.initial p) (search : Search)
    (hsearch : search ∈ p.shared.history.searches) (hlt : search.newTasks.length < 2 ^ 31) (task : TaskPayload)
    (htask : task ∈ p.shared.server.stock) (hid : task.searchId = search.session.searchId) :
    (p.shared.server.getStatus search.session.searchId).map (·.state) = some .running := by
  obtain ⟨session, hsession, -⟩ := session_of_search h search hsearch
  have hrunning : session.chunksDone ≠ session.chunksTotal := fun hdone =>
    done_not_held h search hsearch hlt session hsession hdone task (List.mem_append_right _ htask) hid
  rw [MasterServer.getStatus, hsession, Option.map_some, Option.map_some, if_neg hrunning]

namespace Network

/-! ## What a step can do -/

inductive Stepped (settings : Settings) (n : Network) : NetworkEvent → Network → Prop
  | accept : Stepped settings n .accept n.accept
  | sendPosted (client : Nat) (msg : Message) (conn : Connection) (hposted : n.posted.head? = some (client, msg))
      (hconn : n.connections.lookup client = some conn) :
      Stepped settings n .sendPosted { n.setConnection client (conn.send msg) with handled := n.handled + 1 }
  | wrote (client : Nat) (ok : Bool) (conn conn' : Connection) (hconn : n.connections.lookup client = some conn)
      (hwrote : writerStep conn (.wrote ok) = some conn') :
      Stepped settings n (.wrote client ok) (n.setConnection client conn')
  | read (client : Nat) (ok : Bool) (bytes : Bytes) (conn : Connection) (part : Part)
      (hconn : n.connections.lookup client = some conn) (hpart : conn.reading = some part)
      (hsize : ok = true → bytes.length = bufferSize conn part) :
      Stepped settings n (.read client ok bytes)
        { n.setConnection client (conn.onRead .server ok bytes part).1 with
          messagesIn := n.messagesIn ++
            (conn.onRead .server ok bytes part).2.toList.map fun msg => (client, msg) }
  | update (client : Nat) (msg : Message) (messagesIn : List (Nat × Message)) (system : System)
      (hupdating : ∀ pc ∈ n.system.threads, updating pc = false)
      (hmessages : n.messagesIn = (client, msg) :: messagesIn)
      (hstep : Master.step settings n.system (.call (.onMessage client msg)) = some system) :
      Stepped settings n .update { n with system, messagesIn }
  | startSearch (request : Request) (system : System)
      (hstep : Master.step settings n.system (.call (.startSearch request)) = some system) :
      Stepped settings n (.startSearch request) { n with system }
  | run (thread : Nat) (choice : Choice) (system : System)
      (hstep : Master.step settings n.system (.run thread choice) = some system) :
      Stepped settings n (.run thread choice) { n with system }

theorem readCompletion_eq (conn : Connection) (ok : Bool) (bytes : Bytes) (part : Part) :
    readCompletion conn ok bytes part = conn.onRead .server ok bytes part := by
  cases part <;> rfl

theorem step_stepped {settings : Settings} {n n' : Network} {e : NetworkEvent} (h : step settings n e = some n') :
    Stepped settings n e n' := by
  cases e with
  | accept =>
    cases h
    exact .accept
  | sendPosted =>
    obtain ⟨⟨client, msg⟩, hposted, h⟩ := Option.bind_eq_some_iff.mp h
    obtain ⟨conn, hconn, rfl⟩ := Option.map_eq_some_iff.mp h
    exact .sendPosted client msg conn hposted hconn
  | wrote client ok =>
    obtain ⟨conn, hconn, h⟩ := Option.bind_eq_some_iff.mp h
    obtain ⟨conn', hwrote, rfl⟩ := Option.map_eq_some_iff.mp h
    exact .wrote client ok conn conn' hconn hwrote
  | read client ok bytes =>
    obtain ⟨conn, hconn, h⟩ := Option.bind_eq_some_iff.mp h
    obtain ⟨part, hpart, h⟩ := Option.bind_eq_some_iff.mp h
    split at h
    · cases h
    · rename_i hsize
      rw [not_and, ne_eq, not_not] at hsize
      simp only [readCompletion_eq] at h
      cases h
      exact .read client ok bytes conn part hconn hpart hsize
  | update =>
    simp only [step] at h
    split at h
    · rename_i hupdating
      split at h
      · cases h
      · rename_i client msg messagesIn hmessages
        obtain ⟨system, hsystem, rfl⟩ := Option.map_eq_some_iff.mp h
        exact .update client msg messagesIn system hupdating hmessages hsystem
    · cases h
  | startSearch request =>
    simp only [step] at h
    obtain ⟨system, hsystem, rfl⟩ := Option.map_eq_some_iff.mp h
    exact .startSearch request system hsystem
  | run thread choice =>
    simp only [step] at h
    obtain ⟨system, hsystem, rfl⟩ := Option.map_eq_some_iff.mp h
    exact .run thread choice system hsystem

section

variable {settings : Settings} {guard : Network → NetworkEvent → Prop} {n n' : Network}

theorem system_reaches (h : Reaches (step settings) guard {} n) :
    Reaches (Master.step settings) NoDisconnect System.initial n.system := by
  refine h.invariant (fun n => Reaches (Master.step settings) NoDisconnect System.initial n.system) .start ?_
  intro n e n' _ hreach _ hstep
  cases step_stepped hstep with
  | update client msg messagesIn system hupdating hmessages hsystem =>
    exact hreach.step (.call (.onMessage client msg)) trivial hsystem
  | startSearch request system hsystem => exact hreach.step (.call (.startSearch request)) trivial hsystem
  | run thread choice system hsystem => exact hreach.step (.run thread choice) trivial hsystem
  | _ => exact hreach

theorem connections_lt (h : Reaches (step settings) guard {} n) : ∀ client ∈ n.connections, client < n.nIDCounter := by
  refine h.invariant (fun n => ∀ client ∈ n.connections, client < n.nIDCounter) ?_ ?_
  · intro client hclient
    cases hclient
  · intro n e n' _ hinv _ hstep client hclient
    have hset : ∀ {client' : Nat} {conn conn' : Connection}, n.connections.lookup client' = some conn →
        client ∈ n.connections.insert client' conn' → client < n.nIDCounter := by
      intro client' conn conn' hconn hmem
      rcases (AList.mem_insert _).mp hmem with rfl | hmem
      · exact hinv _ (AList.lookup_isSome.mp (by rw [hconn]; rfl))
      · exact hinv _ hmem
    cases step_stepped hstep with
    | accept =>
      rcases (AList.mem_insert _).mp hclient with rfl | hmem
      · exact Nat.lt_succ_self _
      · exact Nat.lt_succ_of_lt (hinv _ hmem)
    | sendPosted client' msg conn hposted hconn => exact hset hconn hclient
    | wrote client' ok conn conn' hconn hwrote => exact hset hconn hclient
    | read client' ok bytes conn part hconn hpart hsize => exact hset hconn hclient
    | _ => exact hinv client hclient

end

/-! ## Threads that take tasks up -/

section

variable {settings : Settings} {choice : Choice} {s s' : Shared} {pc : Pc} {next : Option Pc}

theorem takes_helloLoop (client left : Nat) : ∀ pc ∈ helloLoop client left, takes pc = none := by
  intro pc hpc
  rw [mem_helloLoop hpc]
  rfl

theorem takes_assignLoop (client left : Nat) : takes (assignLoop client left) = none := by
  rcases assignLoop_cases client left with h | h <;> rw [h] <;> rfl

theorem takes_next (h : Ran settings choice s pc s' next) : ∀ pc' ∈ next, takes pc' = none := by
  intro pc' hpc'
  cases h with
  | helloRegister client threadsCount => exact takes_helloLoop _ _ pc' hpc'
  | helloDispatch client left =>
    split at hpc'
    · exact takes_helloLoop _ _ pc' hpc'
    · cases hpc'
  | doneAggregate task msg batch server linesToWrite hdecode hadd =>
    cases hpc'
    split <;> rfl
  | assignWake server client threadsCount hpop =>
    cases hpc'
    exact takes_assignLoop _ _
  | assignDispatch client left =>
    cases hpc'
    split
    · exact takes_assignLoop _ _
    · rfl
  | _ => cases hpc' <;> rfl

theorem begin_taken (settings : Settings) (s : Shared) (client : Nat) (msg : Message) :
    ∀ pc ∈ (begin settings s (.onMessage client msg)).2, ∀ x ∈ takes pc,
      x.1 = client ∧ answerOf msg = some x.2 := by
  intro pc hpc x hx
  cases begin_begun settings s _ pc hpc with
  | hello _ _ rest result hid hpop => cases hx
  | taskDone _ _ rest taskId hid hpop =>
    cases hx
    refine ⟨rfl, ?_⟩
    rw [answerOf, if_pos hid, hpop]

theorem inFlight_kept (h : Ran settings choice s pc s' next) (hids : s.server.TaskIds) (hkept : reclaiming pc = false)
    {x : Nat × Nat × TaskPayload} (hx : x ∈ s.server.inFlightTasks.items) (hother : takes pc ≠ some (x.1, x.2.1)) :
    x ∈ s'.server.inFlightTasks.items := by
  have hdispatch : ∀ client, x ∈ (dispatch s client).1.server.inFlightTasks.items := by
    intro client
    rw [dispatch_server]
    have hspec := s.server.dispatchNextTask_spec client
    generalize s.server.dispatchNextTask client = r at hspec
    cases hspec with
    | sent slots task pendingTasks hslots hpending =>
      exact (s.server.inFlightTasks.items_put client _ _ (hids.fresh client)).mem_iff.mpr (List.mem_cons_of_mem _ hx)
    | _ => exact hx
  cases h with
  | helloDispatch client left => exact hdispatch client
  | doneTake client taskId msg server task htake =>
    obtain ⟨hfind, rfl⟩ := MasterServer.takeTask_eq_some _ _ _ _ _ htake
    rcases List.mem_cons.mp ((s.server.inFlightTasks.items_remove client taskId task hfind).mem_iff.mp hx) with rfl | hx
    · exact absurd rfl hother
    · exact hx
  | doneDispatch client task msg => exact hdispatch client
  | doneAggregate task msg batch server linesToWrite hdecode hadd =>
    obtain ⟨_, _, _, rfl⟩ := MasterServer.addBatch_eq_ok _ _ _ _ _ hadd
    exact hx
  | doneWrite task fullPath lines => cases choice.opens <;> exact hx
  | doneCount task =>
    unfold MasterServer.countChunk
    split <;> exact hx
  | assignSkip server hpop =>
    have hspec := hpop ▸ s.server.popIdleWorker_spec
    cases hspec with
    | skip _ _ _ _ => exact hx
  | assignWake server client threadsCount hpop =>
    have hspec := hpop ▸ s.server.popIdleWorker_spec
    cases hspec with
    | wake _ _ _ _ _ => exact hx
  | assignDispatch client left => exact hdispatch client
  | disconnect client horder => cases hkept
  | _ => exact hx

end

/-! ## A task that is lost -/

/-- The task is in flight, and its answer is not here. -/
structure Lost (n : Network) (client taskId : Nat) (task : TaskPayload) : Prop where
  inFlight : (client, taskId, task) ∈ n.system.shared.server.inFlightTasks.items
  unanswered : ¬ n.AnswerQueued client taskId

/-- Nothing more is read from the client. -/
structure Unread (n : Network) (client : Nat) : Prop where
  accepted : client < n.nIDCounter
  unread : ∀ conn, n.connections.lookup client = some conn → conn.reading = none

section

variable {settings : Settings} {n n' : Network} {client taskId : Nat} {task : TaskPayload}

/-- Only an answer of the client would take the task up. -/
theorem Lost.step (h : Lost n client taskId task) (hids : n.system.shared.server.TaskIds)
    (hkept : ∀ pc ∈ n.system.threads, reclaiming pc = false) {e : NetworkEvent} (hstep : Stepped settings n e n')
    (hsilent : ∀ x ∈ n'.messagesIn, x.1 = client → answerOf x.2 ≠ some taskId) : Lost n' client taskId task := by
  have hqueued : ¬ ∃ x ∈ n'.messagesIn, x.1 = client ∧ answerOf x.2 = some taskId := by
    rintro ⟨x, hx, hclient, hanswer⟩
    exact hsilent x hx hclient hanswer
  cases hstep with
  | update client' msg messagesIn system hupdating hmessages hsystem =>
    obtain ⟨hshared, hthreads⟩ := Threads.step_call hsystem
    refine ⟨?_, ?_⟩
    · simp only [hshared, begin_server]
      exact h.inFlight
    · rintro (hmessage | ⟨pc, hpc, htakes⟩)
      · exact hqueued hmessage
      · rw [hthreads] at hpc
        rcases List.mem_append.mp hpc with hpc | hpc
        · obtain ⟨hclient, hanswer⟩ := begin_taken settings _ client' msg pc (Option.mem_toList.mp hpc) _ htakes
          exact h.unanswered (Or.inl ⟨_, hmessages ▸ List.mem_cons_self, hclient.symm, hanswer⟩)
        · exact h.unanswered (Or.inr ⟨pc, hpc, htakes⟩)
  | startSearch request system hsystem =>
    obtain ⟨hshared, hthreads⟩ := Threads.step_call hsystem
    refine ⟨?_, ?_⟩
    · simp only [hshared, begin_server]
      exact h.inFlight
    · rintro (hmessage | ⟨pc, hpc, htakes⟩)
      · exact hqueued hmessage
      · rw [hthreads] at hpc
        rcases List.mem_append.mp hpc with hpc | hpc
        · cases begin_begun settings n.system.shared _ pc (Option.mem_toList.mp hpc) with
          | startSearch _ target htarget => cases htakes
        · exact h.unanswered (Or.inr ⟨pc, hpc, htakes⟩)
  | run thread choice system hsystem =>
    obtain ⟨pc, rest, next, -, hthreads, hexec, hthreads'⟩ := Threads.step_run hsystem
    have hran := exec_ran settings choice _ _ pc next hexec
    have hpc : pc ∈ n.system.threads := hthreads.mem_iff.mpr List.mem_cons_self
    refine ⟨?_, ?_⟩
    · exact inFlight_kept hran hids (hkept pc hpc) h.inFlight fun htakes => h.unanswered (Or.inr ⟨pc, hpc, htakes⟩)
    · rintro (hmessage | ⟨pc', hpc', htakes⟩)
      · exact hqueued hmessage
      · rcases List.mem_append.mp (hthreads'.mem_iff.mp hpc') with hnew | hold
        · rw [takes_next hran pc' (Option.mem_toList.mp hnew)] at htakes
          cases htakes
        · exact h.unanswered (Or.inr ⟨pc', hthreads.mem_iff.mpr (List.mem_cons_of_mem _ hold), htakes⟩)
  | _ => exact ⟨h.inFlight, fun hanswer => hanswer.elim hqueued fun hthread => h.unanswered (Or.inr hthread)⟩

theorem Unread.setConnection (h : Unread n client) {client' : Nat} {conn conn' : Connection}
    (hconn : n.connections.lookup client' = some conn) (hreading : conn'.reading = conn.reading) (handled : Nat) :
    Unread { n.setConnection client' conn' with handled } client := by
  refine ⟨h.accepted, ?_⟩
  intro c hc
  by_cases heq : client = client'
  · subst heq
    cases (AList.lookup_insert _).symm.trans hc
    rw [hreading]
    exact h.unread conn hconn
  · exact h.unread c ((AList.lookup_insert_ne heq).symm.trans hc)

theorem Unread.step (h : Unread n client) {e : NetworkEvent} (hstep : Stepped settings n e n') :
    Unread n' client ∧ ∀ x ∈ n'.messagesIn, x.1 = client → x ∈ n.messagesIn := by
  cases hstep with
  | accept =>
    have hne : client ≠ n.nIDCounter := Nat.ne_of_lt h.accepted
    refine ⟨⟨Nat.lt_succ_of_lt h.accepted, ?_⟩, fun x hx _ => hx⟩
    exact fun conn hconn => h.unread conn ((AList.lookup_insert_ne hne).symm.trans hconn)
  | sendPosted client' msg conn hposted hconn =>
    exact ⟨h.setConnection hconn (conn.writeOnly_send msg).reading _, fun x hx _ => hx⟩
  | wrote client' ok conn conn' hconn hwrote =>
    exact ⟨h.setConnection hconn (Connection.writeOnly_wrote hwrote).reading n.handled, fun x hx _ => hx⟩
  | read client' ok bytes conn part hconn hpart hsize =>
    have hne : client ≠ client' := by
      rintro rfl
      rw [h.unread conn hconn] at hpart
      cases hpart
    refine ⟨⟨h.accepted, fun c hc => h.unread c ((AList.lookup_insert_ne hne).symm.trans hc)⟩, ?_⟩
    intro x hx hclient
    rcases List.mem_append.mp hx with hx | hx
    · exact hx
    · obtain ⟨msg, -, rfl⟩ := List.mem_map.mp hx
      exact absurd hclient.symm hne
  | update client' msg messagesIn system hupdating hmessages hsystem =>
    exact ⟨⟨h.accepted, h.unread⟩, fun x hx _ => hmessages ▸ List.mem_cons_of_mem _ hx⟩
  | startSearch request system hsystem => exact ⟨⟨h.accepted, h.unread⟩, fun x hx _ => hx⟩
  | run thread choice system hsystem => exact ⟨⟨h.accepted, h.unread⟩, fun x hx _ => hx⟩

theorem Lost.run (h : Lost n client taskId task) (hunread : Unread n client)
    {guard guard' : Network → NetworkEvent → Prop} (hreach : Reaches (Network.step settings) guard {} n)
    (hrun : Reaches (Network.step settings) guard' n n') : Lost n' client taskId task := by
  refine (hrun.invariant (fun n => Lost n client taskId task ∧ Unread n client) ⟨h, hunread⟩ ?_).1
  rintro n₁ e n₂ hrun₁ ⟨hlost, hunread⟩ - hstep
  have hsystem := system_reaches (hreach.any.trans hrun₁.any)
  obtain ⟨tasks, hlog⟩ := dispatchLog (fun _ _ => id) hsystem
  obtain ⟨hunread', hold⟩ := hunread.step (step_stepped hstep)
  refine ⟨hlost.step (taskIds hsystem) hlog.kept (step_stepped hstep) ?_, hunread'⟩
  exact fun x hx hclient hanswer => hlost.unanswered (Or.inl ⟨x, hold x hx hclient, hclient, hanswer⟩)

end

/-! ## The result -/

/-- **A lost task is lost for good.** When the master has stopped reading from a worker that has a task, and the
answer is not among the messages it has read, the task stays in flight whatever happens from then on, and each poll
of its search says `Running`. -/
theorem lost_for_good (settings : Settings) (n n' : Network) (h : Reaches (step settings) Any {} n)
    (client taskId : Nat) (task : TaskPayload) (conn : Connection) (hconn : n.connections.lookup client = some conn)
    (hreading : conn.reading = none) (hfind : n.system.shared.server.inFlightTasks.find client taskId = some task)
    (hanswer : ¬ n.AnswerQueued client taskId) (hrun : Reaches (step settings) Any n n') :
    n'.system.shared.server.inFlightTasks.find client taskId = some task ∧
      ∃ search ∈ n'.system.shared.history.searches, search.session.searchId = task.searchId ∧
        (search.newTasks.length < 2 ^ 31 →
          (n'.system.shared.server.getStatus task.searchId).map (·.state) = some .running) := by
  have hlost : Lost n client taskId task := ⟨(TwoLevel.mem_items_iff _ _ _ _).mpr hfind, hanswer⟩
  have hunread : Unread n client := by
    refine ⟨connections_lt h client (AList.lookup_isSome.mp (by rw [hconn]; rfl)), ?_⟩
    intro conn' hconn'
    cases hconn.symm.trans hconn'
    exact hreading
  have hrun' := hlost.run hunread h hrun
  have hfind' := (TwoLevel.mem_items_iff _ _ _ _).mp hrun'.inFlight
  refine ⟨hfind', ?_⟩
  have hsystem := system_reaches (h.trans hrun)
  have hstock : task ∈ n'.system.shared.server.stock :=
    List.mem_append_right _ (List.mem_map_of_mem (f := fun x => x.2.2) hrun'.inFlight)
  obtain ⟨search, hsearch, hmem⟩ := ledger_task hsystem task
    (List.mem_append_right _ (List.mem_append_right _ hstock))
  have hid : task.searchId = search.session.searchId :=
    (((allPrepared hsystem).searches search hsearch).task_searchId _ hmem).1
  refine ⟨search, hsearch, hid.symm, fun hlt => ?_⟩
  rw [hid]
  exact running_of_stock hsystem search hsearch hlt task hstock hid

/-- Another worker connects, and waits for a task. -/
def another : List NetworkEvent :=
  .accept :: arrives 10001 (helloMessage 1) ++ [.update, .run 0 {}, .run 0 {}]

def afterAnother : Network := Runs.after (step {}) Runs.Any afterLoss another

theorem lost_for_good_another : afterAnother.system.shared.server.idleWorkers = [10001] ∧
    ∃ search ∈ afterAnother.system.shared.history.searches, search.session.searchId = 0 ∧
      (search.newTasks.length < 2 ^ 31 →
        (afterAnother.system.shared.server.getStatus 0).map (·.state) = some .running) := by
  refine ⟨by decide +kernel, ?_⟩
  have hreach : Reaches (step {}) Any {} afterLoss := Runs.reaches_after _ .start (by decide +kernel)
  obtain ⟨conn, hconn⟩ := Option.isSome_iff_exists.mp (show (afterLoss.connections.lookup 10000).isSome = true by
    decide +kernel)
  have hreading : ∀ conn ∈ afterLoss.connections.lookup 10000, conn.reading = none := by decide +kernel
  obtain ⟨task, htask⟩ := Option.isSome_iff_exists.mp
    (show (afterLoss.system.shared.server.inFlightTasks.find 10000 1).isSome = true by decide +kernel)
  have hid : ∀ task ∈ afterLoss.system.shared.server.inFlightTasks.find 10000 1, task.searchId = 0 := by
    decide +kernel
  have hlost := lost_for_good {} afterLoss afterAnother hreach 10000 1 task conn hconn (hreading conn hconn) htask
    (by decide +kernel) (Runs.reaches_after another .start (by decide +kernel))
  rw [hid task htask] at hlost
  exact hlost.2

end Network

end LogGrid.Master
