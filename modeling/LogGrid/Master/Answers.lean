import LogGrid.Master.Ledger
import LogGrid.Worker.WorkerClient

/-!
# Honest workers

A worker that answers a task it was sent, with the batch that `SearchTask`
makes of it. The task id of an answer names the task it is about, so the batch
that is added for a task is the worker's batch for that task.
-/

open LogGrid.StandardLayout LogGrid.Runs LogGrid.WorkerClient

namespace LogGrid.Master

/-- Workers answer the tasks they were sent, and a result file opens. -/
def Honest (host : Host) (p : System) : Event → Prop
  | .call (.onMessage client msg) => msg.header.id = LogSearchMsg.workerTaskDone.value →
      ∃ x ∈ p.shared.sent, x.1 = client ∧ WorkerClient.onMessage host x.2 = some msg
  | .call _ => True
  | .run _ choice => choice.opens = true

instance (host : Host) (p : System) (e : Event) : Decidable (Honest host p e) :=
  match e with
  | .call (.onMessage _ _) => inferInstanceAs (Decidable (_ → _))
  | .call (.onClientDisconnect _) => .isTrue trivial
  | .call (.startSearch _) => .isTrue trivial
  | .run _ _ => inferInstanceAs (Decidable (_ = _))

/-- The two counters have not used up their 64 bits. -/
def IdsFit (m : MasterServer) : Prop := m.nextTaskId < 2 ^ 64 ∧ m.nextSearchId ≤ 2 ^ 64

/-! ## What was sent -/

/-- `tasks` are the tasks in the messages that were sent, under ids of their own. -/
structure SentAs (s : Shared) (tasks : List (Nat × TaskPayload)) : Prop where
  sent : s.sent = tasks.map fun x => (x.1, taskMessage x.2)
  ids : (tasks.map (·.2.taskId)).Nodup
  bound : ∀ x ∈ tasks, x.2.taskId ≤ s.server.nextTaskId ∧ x.2.searchId < s.server.nextSearchId
  inFlight : ∀ x ∈ s.server.inFlightTasks.items, (x.1, x.2.2) ∈ tasks

theorem SentAs.congr {s s' : Shared} {tasks : List (Nat × TaskPayload)} (h : SentAs s tasks)
    (hsent : s'.sent = s.sent) (htask : s.server.nextTaskId ≤ s'.server.nextTaskId)
    (hsearch : s.server.nextSearchId ≤ s'.server.nextSearchId)
    (hitems : s'.server.inFlightTasks.items ⊆ s.server.inFlightTasks.items) : SentAs s' tasks := by
  refine ⟨hsent.trans h.sent, h.ids, ?_, fun x hx => h.inFlight x (hitems hx)⟩
  intro x hx
  obtain ⟨h₁, h₂⟩ := h.bound x hx
  exact ⟨Nat.le_trans h₁ htask, Nat.lt_of_lt_of_le h₂ hsearch⟩

theorem SentAs.dispatch {s : Shared} {tasks : List (Nat × TaskPayload)} (h : SentAs s tasks) (client : Nat)
    (hids : s.server.TaskIds) (hpending : ∀ t ∈ s.server.pendingTasks, t.searchId < s.server.nextSearchId) :
    ∃ tasks', SentAs (dispatch s client).1 tasks' ∧ tasks ⊆ tasks' := by
  unfold Master.dispatch
  have hspec := s.server.dispatchNextTask_spec client
  generalize s.server.dispatchNextTask client = r at hspec
  cases hspec with
  | gone _ => exact ⟨tasks, h, List.Subset.refl _⟩
  | waiting _ _ _ _ => exact ⟨tasks, h, List.Subset.refl _⟩
  | queued _ _ _ _ => exact ⟨tasks, ⟨h.sent, h.ids, h.bound, h.inFlight⟩, List.Subset.refl _⟩
  | sent slots task pendingTasks _ hcons =>
    refine ⟨(client, { task with taskId := s.server.nextTaskId + 1 }) :: tasks, ⟨?_, ?_, ?_, ?_⟩,
      List.subset_cons_self _ _⟩
    · simp [h.sent]
    · refine List.nodup_cons.mpr ⟨fun hmem => ?_, h.ids⟩
      obtain ⟨x, hx, hid⟩ := List.mem_map.mp hmem
      have := (h.bound x hx).1
      simp only at hid
      omega
    · intro x hx
      rcases List.mem_cons.mp hx with rfl | hx
      · exact ⟨Nat.le_refl _, hpending task (by rw [hcons]; exact List.mem_cons_self)⟩
      · exact ⟨Nat.le_succ_of_le (h.bound x hx).1, (h.bound x hx).2⟩
    · intro x hx
      have hitems := s.server.inFlightTasks.items_put client (s.server.nextTaskId + 1)
        { task with taskId := s.server.nextTaskId + 1 } (hids.fresh client)
      rcases List.mem_cons.mp (hitems.mem_iff.mp hx) with rfl | hx
      · exact List.mem_cons_self
      · exact List.mem_cons_of_mem _ (h.inFlight x hx)

theorem Ran.sent {settings : Settings} {choice : Choice} {s s' : Shared} {pc : Pc} {next : Option Pc}
    (h : Ran settings choice s pc s' next) :
    (∃ client, s' = (dispatch s client).1) ∨
      s'.sent = s.sent ∧ s.server.nextTaskId ≤ s'.server.nextTaskId ∧
        s.server.nextSearchId ≤ s'.server.nextSearchId ∧
        s'.server.inFlightTasks.items ⊆ s.server.inFlightTasks.items := by
  cases h with
  | helloDispatch client left => exact Or.inl ⟨client, rfl⟩
  | doneDispatch client task msg => exact Or.inl ⟨client, rfl⟩
  | assignDispatch client left => exact Or.inl ⟨client, rfl⟩
  | doneTake client taskId msg server task htake =>
    obtain ⟨hfind, rfl⟩ := MasterServer.takeTask_eq_some _ _ _ _ _ htake
    refine Or.inr ⟨rfl, Nat.le_refl _, Nat.le_refl _, fun x hx => ?_⟩
    exact (TwoLevel.items_remove _ _ _ _ hfind).mem_iff.mpr (List.mem_cons_of_mem _ hx)
  | doneAggregate task msg batch server linesToWrite hdecode hadd =>
    obtain ⟨_, _, _, rfl⟩ := MasterServer.addBatch_eq_ok _ _ _ _ _ hadd
    exact Or.inr ⟨rfl, Nat.le_refl _, Nat.le_refl _, List.Subset.refl _⟩
  | doneWrite task fullPath lines =>
    cases choice.opens <;> exact Or.inr ⟨rfl, Nat.le_refl _, Nat.le_refl _, List.Subset.refl _⟩
  | doneCount task =>
    unfold MasterServer.countChunk
    split <;> exact Or.inr ⟨rfl, Nat.le_refl _, Nat.le_refl _, List.Subset.refl _⟩
  | searchFailed request target => exact Or.inr ⟨rfl, Nat.le_refl _, Nat.le_succ _, List.Subset.refl _⟩
  | searchAllocate request target session newTasks hprepare =>
    exact Or.inr ⟨rfl, Nat.le_refl _, Nat.le_succ _, List.Subset.refl _⟩
  | assignSkip server hpop =>
    have hspec := hpop ▸ s.server.popIdleWorker_spec
    cases hspec with
    | skip _ _ _ _ => exact Or.inr ⟨rfl, Nat.le_refl _, Nat.le_refl _, List.Subset.refl _⟩
  | assignWake server client threadsCount hpop =>
    have hspec := hpop ▸ s.server.popIdleWorker_spec
    cases hspec with
    | wake _ _ _ _ _ => exact Or.inr ⟨rfl, Nat.le_refl _, Nat.le_refl _, List.Subset.refl _⟩
  | disconnect client horder =>
    refine Or.inr ⟨rfl, Nat.le_refl _, Nat.le_refl _, fun x hx => ?_⟩
    exact (s.server.inFlightTasks.items_perm_dropRow client).mem_iff.mpr (List.mem_append_right _ hx)
  | _ => exact Or.inr ⟨rfl, Nat.le_refl _, Nat.le_refl _, List.Subset.refl _⟩

theorem IdsFit.of_ran {settings : Settings} {choice : Choice} {s s' : Shared} {pc : Pc} {next : Option Pc}
    (h : Ran settings choice s pc s' next) (hfit : IdsFit s'.server) : IdsFit s.server := by
  rcases h.sent with ⟨client, rfl⟩ | ⟨-, htask, hsearch, -⟩
  · have hsearch := (s.server.dispatchNextTask_sessions client).2
    have htask : s.server.nextTaskId ≤ (s.server.dispatchNextTask client).1.nextTaskId := by
      have hspec := s.server.dispatchNextTask_spec client
      generalize s.server.dispatchNextTask client = r at hspec
      cases hspec with
      | sent _ _ _ _ _ => exact Nat.le_succ _
      | _ => exact Nat.le_refl _
    exact ⟨Nat.lt_of_le_of_lt htask hfit.1, hsearch ▸ hfit.2⟩
  · exact ⟨Nat.lt_of_le_of_lt htask hfit.1, Nat.le_trans hsearch hfit.2⟩

/-! ## What is answered -/

/-- `batch` is what the master decodes of the answer for a task. -/
def AnsweredBy (host : Host) (task : TaskPayload) (batch : ChunkResult) : Prop :=
  ∃ choice msg, AnswerRest host task msg ∧ decodeBatch choice msg = some batch

/-- A thread that handles an answer has the answer for the task it is about. -/
def PcHonest (host : Host) (tasks : List (Nat × TaskPayload)) : Pc → Prop
  | .doneTake client taskId msg => ∃ t, (client, t) ∈ tasks ∧ t.taskId = taskId ∧ AnswerRest host t msg
  | .doneDispatch _ task msg => AnswerRest host task msg
  | .doneAggregate task msg => AnswerRest host task msg
  | _ => True

structure AllHonest (host : Host) (tasks : List (Nat × TaskPayload)) (s : Shared) (threads : List Pc) : Prop where
  threads : ∀ pc ∈ threads, PcHonest host tasks pc
  aggregated : ∀ x ∈ s.history.aggregated, AnsweredBy host x.1 x.2

section

variable {settings : Settings} {host : Host} {guard : System → Event → Prop} {p : System}

theorem PcHonest.mono {tasks tasks' : List (Nat × TaskPayload)} (hsub : tasks ⊆ tasks') {pc : Pc}
    (h : PcHonest host tasks pc) : PcHonest host tasks' pc := by
  cases pc with
  | doneTake client taskId msg =>
    obtain ⟨t, ht, hid, hrest⟩ := h
    exact ⟨t, hsub ht, hid, hrest⟩
  | _ => exact h

theorem onMessage_taskMessage (task : TaskPayload) (h : Holds task) :
    WorkerClient.onMessage host (taskMessage task) = some (answer host task) := by
  have hpop := Message.pop_of_body (taskMessage task) [] task rfl h
  have hid : (taskMessage task).header.id = LogSearchMsg.serverSearchTask.value := rfl
  simp only [WorkerClient.onMessage, if_pos hid, hpop]

theorem begin_honest {tasks : List (Nat × TaskPayload)} (op : Op) (hone : Honest host p (.call op))
    (hsent : SentAs p.shared tasks) (hfit : IdsFit p.shared.server) :
    ∀ pc ∈ (begin settings p.shared op).2, PcHonest host tasks pc := by
  intro pc hpc
  cases begin_begun settings p.shared op pc hpc with
  | taskDone client msg rest taskId hid hpop =>
    obtain ⟨x, hx, hclient, hanswer⟩ := hone hid
    rw [hsent.sent] at hx
    obtain ⟨⟨worker, t⟩, ht, rfl⟩ := List.mem_map.mp hx
    obtain ⟨hbound, hsearch⟩ := hsent.bound _ ht
    have hholds : Holds t := ⟨Nat.lt_of_lt_of_le hsearch hfit.2, Nat.lt_of_le_of_lt hbound hfit.1⟩
    rw [onMessage_taskMessage t hholds, Option.some.injEq] at hanswer
    subst hanswer
    obtain ⟨rest', hrest⟩ := answer_pop host t
    rw [hrest] at hpop
    cases hpop
    refine ⟨t, hclient ▸ ht, ?_, hrest⟩
    rw [UInt64.toNat_ofNat']
    exact (Nat.mod_eq_of_lt (Nat.lt_of_le_of_lt hbound hfit.1)).symm
  | _ => trivial

theorem Ran.honest {choice : Choice} {s s' : Shared} {pc : Pc} {next : Option Pc}
    {tasks : List (Nat × TaskPayload)} (h : Ran settings choice s pc s' next) (hids : s.server.TaskIds)
    (hsent : SentAs s tasks) (hpc : PcHonest host tasks pc) :
    (∀ pc' ∈ next, PcHonest host tasks pc') ∧
      ∀ x ∈ s'.history.aggregated, x ∈ s.history.aggregated ∨ AnsweredBy host x.1 x.2 := by
  have hold : ∀ x ∈ s.history.aggregated, x ∈ s.history.aggregated ∨ AnsweredBy host x.1 x.2 :=
    fun x hx => Or.inl hx
  cases h with
  | helloRegister client threadsCount =>
    refine ⟨fun pc' hnext => ?_, hold⟩
    rw [mem_helloLoop hnext]
    trivial
  | helloDispatch client left =>
    refine ⟨fun pc' hnext => ?_, hold⟩
    split at hnext
    · rw [mem_helloLoop hnext]; trivial
    · cases hnext
  | doneTake client taskId msg server task htake =>
    refine ⟨?_, hold⟩
    rintro _ ⟨⟩
    obtain ⟨t, ht, hid, hrest⟩ := hpc
    obtain ⟨hfind, -⟩ := MasterServer.takeTask_eq_some _ _ _ _ _ htake
    have hitem := (TwoLevel.mem_items_iff _ _ _ _).mpr hfind
    -- Both tasks were sent under the same id.
    have heq := List.inj_on_of_nodup_map hsent.ids (hsent.inFlight _ hitem) ht
      ((hids.own _ hitem).1.trans hid.symm)
    cases heq
    exact hrest
  | doneDispatch client task msg =>
    refine ⟨?_, hold⟩
    rintro _ ⟨⟩
    exact hpc
  | doneAggregate task msg batch server linesToWrite hdecode hadd =>
    constructor
    · intro pc' hnext
      split at hnext <;> cases hnext <;> trivial
    · intro x hx
      rcases List.mem_cons.mp hx with rfl | hx
      · exact Or.inr ⟨choice, msg, hpc, hdecode⟩
      · exact Or.inl hx
  | doneWrite task fullPath lines =>
    refine ⟨?_, ?_⟩
    · rintro _ ⟨⟩
      trivial
    · cases choice.opens <;> exact hold
  | assignWake server client threadsCount hpop =>
    refine ⟨?_, hold⟩
    rintro _ ⟨⟩
    rcases assignLoop_cases client threadsCount.toNat with h | h <;> rw [h] <;> trivial
  | assignDispatch client left =>
    refine ⟨?_, hold⟩
    rintro _ ⟨⟩
    split
    · rcases assignLoop_cases client (left - 1) with h | h <;> rw [h] <;> trivial
    · trivial
  | _ =>
    refine ⟨?_, hold⟩
    rintro _ ⟨⟩ <;> trivial

/-- **Every batch in the history is the worker's batch for its task**, and so is every batch to come. -/
theorem allHonest (hguard : ∀ q e, guard q e → Honest host q e)
    (h : Reaches (step settings) guard System.initial p) :
    ∃ tasks, SentAs p.shared tasks ∧ (IdsFit p.shared.server → AllHonest host tasks p.shared p.threads) := by
  apply system_invariant (fun s threads => ∃ tasks, SentAs s tasks ∧
    (IdsFit s.server → AllHonest host tasks s threads)) _ _ _ _ h
  · exact ⟨[], ⟨rfl, by simp, by simp, by simp⟩, fun _ => ⟨by simp, by simp⟩⟩
  · rintro s l l' hperm ⟨tasks, hsent, hhonest⟩
    exact ⟨tasks, hsent, fun hfit => ⟨fun pc hpc => (hhonest hfit).threads pc (hperm.mem_iff.mpr hpc),
      (hhonest hfit).aggregated⟩⟩
  · rintro p op hreach hg ⟨tasks, hsent, hhonest⟩
    have hnew : IdsFit p.shared.server → ∀ pc ∈ (begin settings p.shared op).2, PcHonest host tasks pc :=
      begin_honest op (hguard _ _ hg) hsent
    obtain ⟨hellos, hshared⟩ := begin_shared settings p.shared op
    rw [hshared]
    refine ⟨tasks, ⟨hsent.sent, hsent.ids, hsent.bound, hsent.inFlight⟩,
      fun hfit => ⟨?_, (hhonest hfit).aggregated⟩⟩
    intro pc hpc
    rcases List.mem_append.mp hpc with hpc | hpc
    · exact hnew hfit pc (Option.mem_toList.mp hpc)
    · exact (hhonest hfit).threads pc hpc
  · rintro p thread choice pc rest s' next hreach hg - hthreads ⟨tasks, hsent, hhonest⟩ hran
    have hids := taskIds hreach
    obtain ⟨tasks', hsent', hsub⟩ : ∃ tasks', SentAs s' tasks' ∧ tasks ⊆ tasks' := by
      rcases hran.sent with ⟨client, rfl⟩ | ⟨hsame, htask, hsearch, hitems⟩
      · refine hsent.dispatch client hids fun t ht => ?_
        have hknown := ledger_known hreach t (List.mem_append_right _ (List.mem_append_right _
          (List.mem_append_left _ ht)))
        exact (sessionsInv hreach).bound _ (List.mem_append_right _ (AList.mem_keys.mp hknown))
      · exact ⟨tasks, hsent.congr hsame htask hsearch hitems, List.Subset.refl _⟩
    refine ⟨tasks', hsent', fun hfit' => ?_⟩
    obtain ⟨hpcs, haggregated⟩ := hhonest (hfit'.of_ran hran)
    obtain ⟨hpc, hrest⟩ := List.forall_mem_cons.mp hpcs
    obtain ⟨hnext, hbatches⟩ := hran.honest hids hsent hpc
    constructor
    · intro pc' hpc'
      rcases List.mem_append.mp hpc' with hpc' | hpc'
      · exact (hnext pc' (Option.mem_toList.mp hpc')).mono hsub
      · exact (hrest pc' hpc').mono hsub
    · intro x hx
      exact (hbatches x hx).elim (haggregated x) id

end

end LogGrid.Master
