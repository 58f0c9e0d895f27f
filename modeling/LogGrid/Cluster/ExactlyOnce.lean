import LogGrid.Cluster.Honest

/-!
# Every answer once

The ids that the master has given out are those of the tasks in flight and
those in the answers it has handled, each once. An answer that comes to its
critical section finds its task in flight.
-/

open LogGrid.StandardLayout LogGrid.Runs LogGrid.Net LogGrid.Net.Link LogGrid.Master LogGrid.FileProcessor

namespace LogGrid.Cluster

/-! ## Ids -/

/-- The ids in the answers among some messages. -/
def answerIds (l : List (Nat × Message)) : List Nat := l.filterMap fun x => Network.answerOf x.2

def takenId (pc : Pc) : Option Nat := (Network.takes pc).map Prod.snd

theorem answerOf_answer (host : Host) (task : TaskPayload) :
    Network.answerOf (WorkerClient.answer host task) = some (task.taskId % 2 ^ 64) := by
  obtain ⟨rest, hrest⟩ := WorkerClient.answer_pop host task
  have hid : (WorkerClient.answer host task).header.id = LogSearchMsg.workerTaskDone.value := rfl
  rw [Network.answerOf, if_pos hid, hrest]
  simp only [UInt64.toNat_ofNat']

theorem answerIds_toSay (host : Host) (n : WorkerNode) :
    (n.toSay host).filterMap Network.answerOf = n.threadPool.ran.map fun x => x.2.taskId % 2 ^ 64 := by
  have hanswers : (n.threadPool.ran.map fun x => WorkerClient.answer host x.2).filterMap Network.answerOf =
      n.threadPool.ran.map fun x => x.2.taskId % 2 ^ 64 := by
    have hid : (Network.answerOf ∘ fun x : Nat × TaskPayload => WorkerClient.answer host x.2) =
        fun x => some (x.2.taskId % 2 ^ 64) := funext fun x => answerOf_answer host x.2
    rw [List.filterMap_map, hid, List.filterMap_eq_map']
  unfold WorkerNode.toSay
  split
  · exact hanswers
  · rw [List.filterMap_append, hanswers]
    rfl

section

variable {settings : Settings} {host : Host} {guard : Cluster → Event → Prop} {c : Cluster}
  {tasks : List (Nat × TaskPayload)} {client : Nat} {peer : Peer}

/-! ## Answers and tasks -/

theorem ofClient_sent (hlog : DispatchLog tasks c.network.system.shared c.network.system.threads) (client : Nat) :
    ofClient client c.network.system.shared.sent.reverse =
      (tasks.filter fun x => x.1 = client).map fun x => taskMessage x.2 := by
  rw [hlog.sent, ofClient, List.filter_map, List.map_map]
  rfl

theorem filterMap_taskIn (tasks : List (Nat × TaskPayload)) :
    (tasks.map fun x => taskMessage x.2).filterMap WorkerNode.taskIn = tasks.map fun x => wireTask x.2 := by
  induction tasks with
  | nil => rfl
  | cons x tasks ih => rw [List.map_cons, List.filterMap_cons_some (taskIn_taskMessage x.2), ih, List.map_cons]

theorem ran_task (h : Reaches (step settings host) guard {} c) (hwired : Wired (fun _ => Linked host) c)
    (hlog : DispatchLog tasks c.network.system.shared c.network.system.threads)
    (hpeer : c.peers.lookup client = some peer) :
    ∀ x ∈ peer.node.threadPool.ran, ∃ t, (client, t) ∈ tasks ∧ x.2 = wireTask t := by
  intro x hx
  have htask := (hwired.links client peer hpeer).node.ran.subset (List.mem_map_of_mem hx)
  obtain ⟨msg, hmsg, hin⟩ := List.mem_filterMap.mp htask
  obtain ⟨hsent, -⟩ := received_tasks h hwired hpeer msg hmsg
  rw [← List.mem_reverse, hlog.sent] at hsent
  obtain ⟨⟨client', t⟩, ht, heq⟩ := List.mem_map.mp hsent
  cases heq
  rw [taskIn_taskMessage, Option.some.injEq] at hin
  exact ⟨t, ht, hin.symm⟩

theorem ran_nodup (hwired : Wired (fun _ => Linked host) c)
    (hlog : DispatchLog tasks c.network.system.shared c.network.system.threads)
    (hfit : IdsFit c.network.system.shared.server) (hpeer : c.peers.lookup client = some peer) :
    (peer.node.threadPool.ran.map fun x => x.2.taskId % 2 ^ 64).Nodup := by
  have hlink := hwired.links client peer hpeer
  have hreceived := hlink.received_isPrefix.trans (sentTo_isPrefix c client)
  rw [ofClient_sent hlog] at hreceived
  have htasks := hreceived.filterMap WorkerNode.taskIn
  rw [filterMap_taskIn] at htasks
  have hids : ((tasks.filter fun x => x.1 = client).map fun x => (wireTask x.2).taskId % 2 ^ 64).Nodup := by
    have hsame : (tasks.filter fun x => x.1 = client).map (fun x => (wireTask x.2).taskId % 2 ^ 64) =
        (tasks.filter fun x => x.1 = client).map fun x => x.2.taskId := by
      apply List.map_congr_left
      intro x hx
      have hsmall := hlog.task_fits hfit x (List.mem_of_mem_filter hx)
      simp only [wireTask, hsmall]
    rw [hsame]
    exact List.Nodup.sublist (List.filter_sublist.map _) (hlog.ids ▸ List.nodup_range')
  obtain ⟨ran, hperm, hsub⟩ := hlink.node.ran
  have hran := (hsub.trans htasks.sublist).map fun t => t.taskId % 2 ^ 64
  rw [List.map_map] at hran
  have hnodup := List.Nodup.sublist hran hids
  rw [(hperm.map _).nodup_iff, List.map_map] at hnodup
  exact hnodup

theorem answered_task (h : Reaches (step settings host) guard {} c) (hwired : Wired (fun _ => Linked host) c)
    (hlog : DispatchLog tasks c.network.system.shared c.network.system.threads)
    (hfit : IdsFit c.network.system.shared.server) {msg : Message} {taskId : Nat}
    (hmem : (client, msg) ∈ c.heard ++ c.network.messagesIn) (hanswer : Network.answerOf msg = some taskId) :
    ∃ t, (client, t) ∈ tasks ∧ t.taskId = taskId := by
  obtain ⟨peer, hpeer⟩ := hwired.peer (hwired.received _ hmem)
  have hsaid := (hwired.received_said hpeer).subset (mem_ofClient.mpr hmem)
  have hid : taskId ∈ (peer.node.toSay host).filterMap Network.answerOf :=
    List.mem_filterMap.mpr ⟨msg, hsaid, hanswer⟩
  rw [answerIds_toSay] at hid
  obtain ⟨x, hx, rfl⟩ := List.mem_map.mp hid
  obtain ⟨t, ht, hwire⟩ := ran_task h hwired hlog hpeer x hx
  have hsmall := hlog.task_fits hfit _ ht
  refine ⟨t, ht, ?_⟩
  calc
    t.taskId = t.taskId % 2 ^ 64 % 2 ^ 64 := by rw [Nat.mod_mod, hsmall]
    _ = x.2.taskId % 2 ^ 64 := by rw [hwire]; rfl

theorem next_answer_new (h : Reaches (step settings host) guard {} c) (hwired : Wired (fun _ => Linked host) c)
    (hlog : DispatchLog tasks c.network.system.shared c.network.system.threads)
    (hfit : IdsFit c.network.system.shared.server) {msg : Message} {messagesIn : List (Nat × Message)} {taskId : Nat}
    (hmessages : c.network.messagesIn = (client, msg) :: messagesIn)
    (hanswer : Network.answerOf msg = some taskId) : taskId ∉ answerIds c.heard := by
  intro hmem
  obtain ⟨⟨other, msg'⟩, hheard, hanswer'⟩ := List.mem_filterMap.mp hmem
  obtain ⟨t, ht, hid⟩ := answered_task h hwired hlog hfit
    (List.mem_append_right _ (hmessages ▸ List.mem_cons_self)) hanswer
  obtain ⟨t', ht', hid'⟩ := answered_task h hwired hlog hfit (List.mem_append_left _ hheard) hanswer'
  -- Both are from the worker that the task was sent to.
  have hsame := hlog.task_inj ht ht' (hid.trans hid'.symm)
  cases hsame
  obtain ⟨peer, hpeer, hsaid⟩ := hwired.next_said hmessages
  have hids := hsaid.filterMap Network.answerOf
  rw [answerIds_toSay, List.filterMap_append] at hids
  have hnodup := List.Nodup.sublist hids.sublist (ran_nodup hwired hlog hfit hpeer)
  have hbefore : taskId ∈ (ofClient client c.heard).filterMap Network.answerOf :=
    List.mem_filterMap.mpr ⟨msg', mem_ofClient.mpr hheard, hanswer'⟩
  have hnow : taskId ∈ [msg].filterMap Network.answerOf :=
    List.mem_filterMap.mpr ⟨msg, List.mem_singleton_self _, hanswer⟩
  exact (List.nodup_append.mp hnodup).2.2 taskId hbefore taskId hnow rfl

end

/-! ## The account -/

/-- The answers that were handled are those of the tasks that were taken out, and those of threads that are
about to take theirs. -/
structure Accounted (heard : List (Nat × Message)) (s : Shared) (threads : List Pc) : Prop where
  answers : (threads.filterMap takenId ++ (threads.flatMap held ++ s.history.counted).map (·.taskId)).Perm
    (answerIds heard)
  once : (answerIds heard).Nodup
  asked : ∀ pc ∈ threads, ∀ x ∈ Network.takes pc, ∃ msg, (x.1, msg) ∈ heard ∧ Network.answerOf msg = some x.2

section

variable {settings : Settings} {choice : Choice} {heard : List (Nat × Message)} {s s' : Shared} {pc : Pc}
  {next : Option Pc} {rest : List Pc}

theorem Accounted.perm {threads threads' : List Pc} (h : Accounted heard s threads) (hperm : threads.Perm threads') :
    Accounted heard s threads' := by
  refine ⟨?_, h.once, fun pc hpc => h.asked pc (hperm.mem_iff.mpr hpc)⟩
  refine (((hperm.filterMap takenId).append ?_).symm).trans h.answers
  exact ((hperm.flatMap_right held).append_right _).map _

theorem ran_taken (h : Ran settings choice s pc s' next) (hids : s.server.TaskIds) :
    (∃ x, Network.takes pc = some x ∧ s.server.takeTask x.1 x.2 = none) ∨
      ((next.toList.flatMap held ++ s'.history.counted).map (·.taskId)).Perm
        ((takenId pc).toList ++ (held pc ++ s.history.counted).map (·.taskId)) := by
  cases h with
  | helloRegister client threadsCount =>
    right
    rw [held_helloLoop]
    exact List.Perm.refl _
  | helloDispatch client left =>
    right
    split
    · rw [held_helloLoop]
      exact List.Perm.refl _
    · exact List.Perm.refl _
  | unknownTask client taskId msg hnone => exact Or.inl ⟨(client, taskId), rfl, hnone⟩
  | doneTake client taskId msg server task htake =>
    right
    obtain ⟨hfind, rfl⟩ := MasterServer.takeTask_eq_some _ _ _ _ _ htake
    have hid : task.taskId = taskId := (hids.own _ ((TwoLevel.mem_items_iff _ _ _ _).mpr hfind)).1
    show (task.taskId :: s.history.counted.map (·.taskId)).Perm (taskId :: s.history.counted.map (·.taskId))
    rw [hid]
  | doneAggregate task msg batch server linesToWrite hdecode hadd =>
    right
    split <;> exact List.Perm.refl _
  | doneWrite task fullPath lines =>
    right
    cases choice.opens <;> exact List.Perm.refl _
  | assignWake server client threadsCount hpop =>
    right
    rw [Option.toList_some, List.flatMap_singleton, held_assignLoop]
    exact List.Perm.refl _
  | assignDispatch client left =>
    right
    rw [Option.toList_some, List.flatMap_singleton]
    split
    · rw [held_assignLoop]
      exact List.Perm.refl _
    · exact List.Perm.refl _
  | _ => exact Or.inr (List.Perm.refl _)

theorem Accounted.ran (h : Accounted heard s (pc :: rest)) (hran : Ran settings choice s pc s' next)
    (hids : s.server.TaskIds) (hknown : ∀ x ∈ Network.takes pc, s.server.takeTask x.1 x.2 ≠ none) :
    Accounted heard s' (next.toList ++ rest) := by
  have hnone : next.toList.filterMap takenId = [] := by
    rw [List.filterMap_eq_nil_iff]
    intro pc' hpc'
    rw [takenId, Network.takes_next hran pc' (Option.mem_toList.mp hpc')]
    rfl
  refine ⟨?_, h.once, ?_⟩
  · rcases ran_taken hran hids with ⟨x, htakes, hunknown⟩ | hmove
    · exact absurd hunknown (hknown x htakes)
    · have hold := h.answers
      have hfirst : (pc :: rest).filterMap takenId = (takenId pc).toList ++ rest.filterMap takenId := by
        cases htaken : takenId pc <;> simp [htaken]
      rw [hfirst] at hold
      rw [List.filterMap_append, hnone]
      rw [List.perm_iff_count] at hold hmove ⊢
      intro taskId
      specialize hold taskId
      specialize hmove taskId
      simp only [List.flatMap_append, List.flatMap_cons, List.map_append, List.count_append,
        List.nil_append] at hold hmove ⊢
      omega
  · intro pc' hpc' x hx
    rcases List.mem_append.mp hpc' with hpc' | hpc'
    · rw [Network.takes_next hran pc' (Option.mem_toList.mp hpc')] at hx
      cases hx
    · exact h.asked pc' (List.mem_cons_of_mem _ hpc') x hx

end

section

variable {settings : Settings} {host : Host} {guard : Cluster → Event → Prop} {c : Cluster}
  {tasks : List (Nat × TaskPayload)}

theorem Accounted.known (h : Accounted c.heard c.network.system.shared c.network.system.threads)
    (hreach : Reaches (step settings host) guard {} c) (hwired : Wired (fun _ => Linked host) c)
    (hlog : DispatchLog tasks c.network.system.shared c.network.system.threads)
    (hfit : IdsFit c.network.system.shared.server) :
    ∀ pc ∈ c.network.system.threads, ∀ x ∈ Network.takes pc,
      c.network.system.shared.server.takeTask x.1 x.2 ≠ none := by
  rintro pc hpc ⟨client, taskId⟩ htakes hnone
  obtain ⟨msg, hheard, hanswer⟩ := h.asked pc hpc _ htakes
  obtain ⟨t, ht, hid⟩ := answered_task hreach hwired hlog hfit (List.mem_append_left _ hheard) hanswer
  have hplace := hlog.places.mem_iff.mpr (List.mem_map_of_mem ht)
  rcases List.mem_append.mp hplace with hflight | htaken
  · obtain ⟨item, hitem, heq⟩ := List.mem_map.mp hflight
    have hown := ((taskIds (master_reaches hreach)).own item hitem).1
    obtain ⟨other, id, t'⟩ := item
    cases heq
    have hsame := hlog.task_inj (hlog.inFlight _ hitem) ht rfl
    cases hsame
    have hfind := (TwoLevel.mem_items_iff _ _ _ _).mp hitem
    rw [MasterServer.takeTask, Option.map_eq_none_iff] at hnone
    simp only at hid hown hnone
    rw [← hid, hown, hfind] at hnone
    cases hnone
  · -- Its answer would have been handled before.
    have hnodup := h.answers.nodup_iff.mpr h.once
    have hmem : taskId ∈ c.network.system.threads.filterMap takenId :=
      List.mem_filterMap.mpr ⟨pc, hpc, by rw [takenId, htakes]; rfl⟩
    have htaken := List.mem_map_of_mem (f := fun t => t.taskId) htaken
    exact (List.nodup_append.mp hnodup).2.2 taskId hmem _ htaken hid.symm

theorem begin_takenIds (s : Shared) (client : Nat) (msg : Message) :
    (begin settings s (.onMessage client msg)).2.toList.filterMap takenId = (Network.answerOf msg).toList := by
  cases hanswer : Network.answerOf msg with
  | some taskId =>
    obtain ⟨pc, hpc, htakes⟩ := Network.begin_takes settings s client taskId msg hanswer
    rw [Option.mem_def.mp hpc]
    simp [takenId, htakes]
  | none =>
    rw [Option.toList_none, List.filterMap_eq_nil_iff]
    intro pc hpc
    cases htakes : Network.takes pc with
    | none => rw [takenId, htakes]; rfl
    | some x =>
      have := (Network.begin_taken settings s client msg pc (Option.mem_toList.mp hpc) x htakes).2
      rw [hanswer] at this
      cases this

theorem Accounted.call {heard heard' : List (Nat × Message)} {p system : System} {op : Op}
    (h : Accounted heard p.shared p.threads) (hsystem : Master.step settings p (.call op) = some system)
    (hids : answerIds heard' = answerIds heard ++ (begin settings p.shared op).2.toList.filterMap takenId)
    (honce : (answerIds heard').Nodup) (hmem : heard ⊆ heard')
    (hasked : ∀ pc ∈ (begin settings p.shared op).2, ∀ x ∈ Network.takes pc,
      ∃ msg, (x.1, msg) ∈ heard' ∧ Network.answerOf msg = some x.2) :
    Accounted heard' system.shared system.threads := by
  obtain ⟨hshared, hthreads⟩ := Threads.step_call hsystem
  obtain ⟨hellos, hbegin⟩ := begin_shared settings p.shared op
  rw [hthreads, hshared]
  refine ⟨?_, honce, ?_⟩
  · rw [hids, List.filterMap_append, List.flatMap_append, begin_held, hbegin, List.append_assoc]
    exact (h.answers.append_left _).trans List.perm_append_comm
  · intro pc hpc x hx
    rcases List.mem_append.mp hpc with hpc | hpc
    · exact hasked pc (Option.mem_toList.mp hpc) x hx
    · obtain ⟨msg, hheard, hanswer⟩ := h.asked pc hpc x hx
      exact ⟨msg, hmem hheard, hanswer⟩

theorem Accounted.update {heard : List (Nat × Message)} {p system : System} {client : Nat} {msg : Message}
    (h : Accounted heard p.shared p.threads)
    (hsystem : Master.step settings p (.call (.onMessage client msg)) = some system)
    (hnew : ∀ taskId ∈ Network.answerOf msg, taskId ∉ answerIds heard) :
    Accounted (heard ++ [(client, msg)]) system.shared system.threads := by
  have hids : answerIds (heard ++ [(client, msg)]) = answerIds heard ++ (Network.answerOf msg).toList := by
    rw [answerIds, List.filterMap_append]
    cases hanswer : Network.answerOf msg <;> simp [answerIds, hanswer]
  refine h.call hsystem ?_ ?_ (List.subset_append_left _ _) ?_
  · rw [hids, begin_takenIds]
  · rw [hids]
    refine h.once.append ?_ ?_
    · cases Network.answerOf msg <;> simp
    · intro taskId hold hmem
      exact hnew taskId (Option.mem_toList.mp hmem) hold
  · intro pc hpc x hx
    obtain ⟨hclient, hanswer⟩ := Network.begin_taken _ _ client msg pc hpc x hx
    exact ⟨msg, by simp [hclient], hanswer⟩

theorem Accounted.startSearch {heard : List (Nat × Message)} {p system : System} {request : Request}
    (h : Accounted heard p.shared p.threads)
    (hsystem : Master.step settings p (.call (.startSearch request)) = some system) :
    Accounted heard system.shared system.threads := by
  have hnone : ∀ pc ∈ (begin settings p.shared (.startSearch request)).2, Network.takes pc = none := by
    intro pc hpc
    cases begin_begun settings p.shared _ pc hpc with
    | startSearch _ target htarget => rfl
  refine h.call hsystem ?_ h.once (List.Subset.refl _) ?_
  · rw [List.filterMap_eq_nil_iff.mpr, List.append_nil]
    intro pc hpc
    rw [takenId, hnone pc (Option.mem_toList.mp hpc)]
    rfl
  · intro pc hpc x hx
    rw [hnone pc hpc] at hx
    cases hx

theorem accounted (hguard : ∀ q e, guard q e → BatchesFit host q e) (h : Reaches (step settings host) guard {} c) :
    IdsFit c.network.system.shared.server →
      Accounted c.heard c.network.system.shared c.network.system.threads := by
  refine h.invariant (fun c => IdsFit c.network.system.shared.server →
    Accounted c.heard c.network.system.shared c.network.system.threads) ?_ ?_
  · intro _
    exact ⟨List.Perm.refl _, List.nodup_nil, fun pc hpc => by cases hpc⟩
  · intro c e c' hreach hinv hg hstep hfit
    have hwired := wired hguard hreach
    obtain ⟨tasks, hlog⟩ := dispatchLog (fun _ _ => id) (master_reaches hreach)
    cases step_stepped hstep with
    | update client msg messagesIn system hupdating hmessages hsystem =>
      obtain ⟨hshared, -⟩ := Threads.step_call hsystem
      simp only [hshared, begin_server] at hfit
      refine (hinv hfit).update hsystem fun taskId hanswer => ?_
      exact next_answer_new hreach hwired hlog hfit hmessages hanswer
    | startSearch request system hsystem =>
      obtain ⟨hshared, -⟩ := Threads.step_call hsystem
      simp only [hshared, begin_server] at hfit
      exact (hinv hfit).startSearch hsystem
    | run thread choice system hsystem =>
      obtain ⟨pc, rest, next, -, hthreads, hexec, hthreads'⟩ := Threads.step_run hsystem
      have hran := exec_ran settings choice _ _ pc next hexec
      have hfit' := hfit.of_ran hran
      have hknown := (hinv hfit').known hreach hwired hlog hfit' pc (hthreads.mem_iff.mpr List.mem_cons_self)
      exact (((hinv hfit').perm hthreads).ran hran (taskIds (master_reaches hreach)) hknown).perm hthreads'.symm
    | _ => exact hinv hfit

end

/-! ## The result -/

/-- **Every answer is used once.** An answer that comes to its critical section finds its task in flight, no two
answers are about one task, and the ids that were given out are those in flight and those answered, each once. -/
theorem answers_used_once (settings : Settings) (host : Host) (c : Cluster)
    (h : Reaches (step settings host) (BatchesFit host) {} c) (hfit : IdsFit c.network.system.shared.server) :
    (∀ pc ∈ c.network.system.threads, ∀ x ∈ Network.takes pc,
      (c.network.system.shared.server.takeTask x.1 x.2).isSome = true) ∧
    (answerIds c.heard).Nodup ∧
    (c.network.system.shared.server.inFlight.map (·.taskId) ++ answerIds c.heard).Perm
      (c.network.system.threads.filterMap takenId ++ List.range' 1 c.network.system.shared.server.nextTaskId) := by
  have haccounted := accounted (fun _ _ => id) h hfit
  obtain ⟨tasks, hlog⟩ := dispatchLog (fun _ _ => id) (master_reaches h)
  refine ⟨?_, haccounted.once, ?_⟩
  · intro pc hpc x hx
    exact Option.isSome_iff_ne_none.mpr (haccounted.known h (wired (fun _ _ => id) h) hlog hfit pc hpc x hx)
  · have hplaces := hlog.places.map fun t => t.taskId
    have hanswers := haccounted.answers
    rw [← hlog.ids, show tasks.map (·.2.taskId) = (tasks.map Prod.snd).map (·.taskId) by simp]
    rw [List.perm_iff_count] at hplaces hanswers ⊢
    intro taskId
    specialize hplaces taskId
    specialize hanswers taskId
    simp only [List.map_append, List.count_append] at hplaces hanswers ⊢
    omega

/-- The task of a second search, which goes to the same worker. -/
def secondTask : TaskPayload := { smallTask with searchId := 1, taskId := 2 }

def secondSearch : List Event :=
  [.master (.startSearch (searchRequest ⟨8, smallSize_lt⟩))] ++ turns 5 ++
    [.master .sendPosted, .master (.wrote 10000 true), .master (.wrote 10000 true),
      .worker 10000 (.read true (toBytes (taskMessage secondTask).header)),
      .worker 10000 (.read true (taskMessage secondTask).body),
      .worker 10000 (.notifyOne 0), .worker 10000 (.turn 0), .worker 10000 (.turn 0)] ++ tells 10000 ++
    hears 10000 (WorkerClient.answer smallHost secondTask) ++ turns 6

def afterSecondSearch : Cluster := Runs.after (step {} smallHost) (BatchesFit smallHost) afterSearch secondSearch

/-- Both answers are handled, and nothing is in flight. -/
theorem answers_used_once_small : (answerIds afterSecondSearch.heard).length = 2 ∧
    (answerIds afterSecondSearch.heard).Nodup ∧ (answerIds afterSecondSearch.heard).Perm [1, 2] := by
  have hreach : Reaches (step {} smallHost) (BatchesFit smallHost) {} afterSecondSearch :=
    Runs.reaches_after secondSearch (afterSearch_reached.mono fun _ _ h => h.1) (by decide +kernel)
  have hfit : IdsFit afterSecondSearch.network.system.shared.server := ⟨by decide +kernel, by decide +kernel⟩
  obtain ⟨-, hnodup, hids⟩ := answers_used_once {} smallHost afterSecondSearch hreach hfit
  have hinFlight : afterSecondSearch.network.system.shared.server.inFlight = [] := by decide +kernel
  have hthreads : afterSecondSearch.network.system.threads.length = 0 := by decide +kernel
  have hnext : afterSecondSearch.network.system.shared.server.nextTaskId = 2 := by decide +kernel
  rw [hinFlight, List.length_eq_zero_iff.mp hthreads, hnext, List.map_nil, List.filterMap_nil, List.nil_append,
    List.nil_append, show List.range' 1 2 = [1, 2] from rfl] at hids
  exact ⟨hids.length_eq, hnodup, hids⟩

end LogGrid.Cluster
