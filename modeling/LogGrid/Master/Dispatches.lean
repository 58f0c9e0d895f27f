import LogGrid.Master.Answers
import LogGrid.Master.EndToEnd
import LogGrid.Master.IdleSync

/-!
# The order of dispatch

`m_pendingTasks` is a queue as long as `OnClientDisconnect` puts nothing back.
The tasks go out in the order in which their searches were published, each
once, and their ids count up from 1.
-/

open LogGrid.Runs

namespace LogGrid.Master

/-- Nobody calls `OnClientDisconnect`. -/
def NoDisconnect (_ : System) : Event → Prop
  | .call (.onClientDisconnect _) => False
  | _ => True

instance (p : System) (e : Event) : Decidable (NoDisconnect p e) :=
  match e with
  | .call (.onClientDisconnect _) => .isFalse id
  | .call (.onMessage _ _) | .call (.startSearch _) | .run _ _ => .isTrue trivial

def reclaiming : Pc → Bool
  | .disconnect _ => true
  | _ => false

/-- The published tasks, those of the first search first. -/
def publishedInOrder (history : History) : List TaskPayload := history.searches.reverse.flatMap (·.newTasks)

/-- `tasks` were dispatched, in this order, each to its client. -/
structure DispatchLog (tasks : List (Nat × TaskPayload)) (s : Shared) (threads : List Pc) : Prop where
  sent : s.sent.reverse = tasks.map fun x => (x.1, taskMessage x.2)
  ids : tasks.map (·.2.taskId) = List.range' 1 s.server.nextTaskId
  order : tasks.map (fun x => anonymous x.2) ++ s.server.pendingTasks = publishedInOrder s.history
  inFlight : ∀ x ∈ s.server.inFlightTasks.items, (x.1, x.2.2) ∈ tasks
  places : (s.server.inFlight ++ (threads.flatMap held ++ s.history.counted)).Perm (tasks.map Prod.snd)
  kept : ∀ pc ∈ threads, reclaiming pc = false

section

variable {settings : Settings} {s s' : Shared} {pc : Pc} {next : Option Pc} {rest : List Pc}
  {tasks : List (Nat × TaskPayload)}

theorem DispatchLog.move (h : DispatchLog tasks s (pc :: rest)) (hsent : s'.sent = s.sent)
    (hnext : s'.server.nextTaskId = s.server.nextTaskId)
    (horder : s'.server.pendingTasks = s.server.pendingTasks ∧ s'.history.searches = s.history.searches)
    (hitems : s'.server.inFlightTasks.items ⊆ s.server.inFlightTasks.items)
    (hplaces : (s'.server.inFlight ++ (next.toList.flatMap held ++ s'.history.counted)).Perm
      (s.server.inFlight ++ (held pc ++ s.history.counted)))
    (hkept : ∀ pc' ∈ next, reclaiming pc' = false) : DispatchLog tasks s' (next.toList ++ rest) := by
  refine ⟨hsent ▸ h.sent, hnext ▸ h.ids, ?_, fun x hx => h.inFlight x (hitems hx), ?_, ?_⟩
  · unfold publishedInOrder
    rw [horder.1, horder.2]
    exact h.order
  · have hold := h.places
    rw [List.perm_iff_count] at hplaces hold ⊢
    intro t
    specialize hplaces t
    specialize hold t
    simp only [List.flatMap_append, List.flatMap_cons, List.count_append] at hplaces hold ⊢
    omega
  · intro pc' hpc'
    rcases List.mem_append.mp hpc' with hpc' | hpc'
    · exact hkept pc' (Option.mem_toList.mp hpc')
    · exact h.kept pc' (List.mem_cons_of_mem _ hpc')

theorem DispatchLog.dispatch (h : DispatchLog tasks s (pc :: rest)) (client : Nat) (hids : s.server.TaskIds)
    (hnew : ∀ t ∈ s.server.pendingTasks, t.taskId = 0) (hheld : next.toList.flatMap held = held pc)
    (hkept : ∀ pc' ∈ next, reclaiming pc' = false) :
    ∃ tasks', DispatchLog tasks' (dispatch s client).1 (next.toList ++ rest) := by
  unfold Master.dispatch
  have hspec := s.server.dispatchNextTask_spec client
  generalize s.server.dispatchNextTask client = r at hspec
  cases hspec with
  | gone _ => exact ⟨tasks, h.move rfl rfl ⟨rfl, rfl⟩ (List.Subset.refl _) (by rw [hheld]) hkept⟩
  | waiting _ _ _ _ => exact ⟨tasks, h.move rfl rfl ⟨rfl, rfl⟩ (List.Subset.refl _) (by rw [hheld]) hkept⟩
  | queued _ _ _ _ =>
    exact ⟨tasks, h.move rfl rfl ⟨rfl, rfl⟩ (List.Subset.refl _) (by rw [hheld]; exact List.Perm.refl _) hkept⟩
  | sent slots task pendingTasks hslots hpending =>
    have hitems := s.server.inFlightTasks.items_put client (s.server.nextTaskId + 1)
      { task with taskId := s.server.nextTaskId + 1 } (hids.fresh client)
    have hsame : anonymous { task with taskId := s.server.nextTaskId + 1 } = task := by
      have := hnew task (by rw [hpending]; exact List.mem_cons_self)
      obtain ⟨_, _, _, _, _, _, _⟩ := task
      cases this
      rfl
    refine ⟨tasks ++ [(client, { task with taskId := s.server.nextTaskId + 1 })], ?_, ?_, ?_, ?_, ?_, ?_⟩
    · simp [h.sent]
    · rw [List.map_append, h.ids, List.range'_concat]
      simp [Nat.add_comm]
    · rw [← h.order, hpending, List.map_append, List.map_singleton, hsame, List.append_assoc]
      rfl
    · intro x hx
      rcases List.mem_cons.mp (hitems.mem_iff.mp hx) with rfl | hx
      · exact List.mem_append_right _ (List.mem_singleton_self _)
      · exact List.mem_append_left _ (h.inFlight x hx)
    · have hold := h.places
      have hflight := hitems.map fun x => x.2.2
      unfold MasterServer.inFlight at hold ⊢
      rw [List.perm_iff_count] at hold hflight ⊢
      intro t
      specialize hold t
      specialize hflight t
      simp only [List.map_cons, List.map_append, List.map_nil, List.flatMap_append, List.flatMap_cons, hheld,
        List.count_append, List.count_cons, List.count_nil] at hold hflight ⊢
      omega
    · intro pc' hpc'
      rcases List.mem_append.mp hpc' with hpc' | hpc'
      · exact hkept pc' (Option.mem_toList.mp hpc')
      · exact h.kept pc' (List.mem_cons_of_mem _ hpc')

theorem kept_helloLoop (client left : Nat) : ∀ pc ∈ helloLoop client left, reclaiming pc = false := by
  intro pc hpc
  rw [mem_helloLoop hpc]
  rfl

theorem kept_assignLoop (client left : Nat) : reclaiming (assignLoop client left) = false := by
  rcases assignLoop_cases client left with h | h <;> rw [h] <;> rfl

theorem DispatchLog.publish {search : Search} (h : DispatchLog tasks s (.searchPublish search :: rest)) :
    DispatchLog tasks { s with
      server := s.server.addPendingTasks search.session search.newTasks
      history := { s.history with searches := search :: s.history.searches } } (.assign :: rest) := by
  refine ⟨h.sent, h.ids, ?_, h.inFlight, h.places, ?_⟩
  · have horder := h.order
    unfold publishedInOrder at horder ⊢
    simp only [MasterServer.addPendingTasks, List.reverse_cons, List.flatMap_append, List.flatMap_singleton]
    rw [← List.append_assoc, horder]
  · exact List.forall_mem_cons.mpr ⟨rfl, fun pc hpc => h.kept pc (List.mem_cons_of_mem _ hpc)⟩

theorem Ran.dispatchLog {choice : Choice} (h : Ran settings choice s pc s' next)
    (hlog : DispatchLog tasks s (pc :: rest)) (hids : s.server.TaskIds)
    (hnew : ∀ t ∈ s.server.pendingTasks, t.taskId = 0) : ∃ tasks', DispatchLog tasks' s' (next.toList ++ rest) := by
  cases h with
  | helloRegister client threadsCount =>
    refine ⟨tasks, hlog.move rfl rfl ⟨rfl, rfl⟩ (List.Subset.refl _) ?_ (kept_helloLoop client _)⟩
    rw [held_helloLoop]
    exact List.Perm.refl _
  | helloDispatch client left =>
    refine hlog.dispatch client hids hnew ?_ ?_
    · split
      · exact held_helloLoop client _
      · rfl
    · split
      · exact kept_helloLoop client _
      · simp
  | doneTake client taskId msg server task htake =>
    obtain ⟨hfind, rfl⟩ := MasterServer.takeTask_eq_some _ _ _ _ _ htake
    have hitems := s.server.inFlightTasks.items_remove client taskId task hfind
    refine ⟨tasks, hlog.move rfl rfl ⟨rfl, rfl⟩ ?_ ?_ (by simp [reclaiming])⟩
    · intro x hx
      exact hitems.mem_iff.mpr (List.mem_cons_of_mem _ hx)
    · have := hitems.map fun x => x.2.2
      exact List.perm_middle.trans ((this.symm.append_right _))
  | doneDispatch client task msg => exact hlog.dispatch client hids hnew rfl (by simp [reclaiming])
  | doneAggregate task msg batch server linesToWrite hdecode hadd =>
    obtain ⟨_, _, _, rfl⟩ := MasterServer.addBatch_eq_ok _ _ _ _ _ hadd
    refine ⟨tasks, ?_⟩
    split <;> exact hlog.move rfl rfl ⟨rfl, rfl⟩ (List.Subset.refl _) (List.Perm.refl _) (by simp [reclaiming])
  | doneWrite task fullPath lines =>
    refine ⟨tasks, ?_⟩
    cases choice.opens <;>
      exact hlog.move rfl rfl ⟨rfl, rfl⟩ (List.Subset.refl _) (List.Perm.refl _) (by simp [reclaiming])
  | doneCount task =>
    refine ⟨tasks, ?_⟩
    unfold MasterServer.countChunk
    split <;> exact hlog.move rfl rfl ⟨rfl, rfl⟩ (List.Subset.refl _) (List.Perm.refl _) (by simp)
  | searchPublish search => exact ⟨tasks, hlog.publish⟩
  | assignSkip server hpop =>
    have hspec := hpop ▸ s.server.popIdleWorker_spec
    cases hspec with
    | skip _ _ _ _ =>
      exact ⟨tasks, hlog.move rfl rfl ⟨rfl, rfl⟩ (List.Subset.refl _) (List.Perm.refl _) (by simp [reclaiming])⟩
  | assignWake server client threadsCount hpop =>
    have hspec := hpop ▸ s.server.popIdleWorker_spec
    cases hspec with
    | wake _ _ _ _ _ =>
      refine ⟨tasks, hlog.move rfl rfl ⟨rfl, rfl⟩ (List.Subset.refl _) ?_ (by simp [kept_assignLoop])⟩
      rw [Option.toList_some, List.flatMap_singleton, held_assignLoop]
      exact List.Perm.refl _
  | assignDispatch client left =>
    refine hlog.dispatch client hids hnew ?_ ?_
    · rw [Option.toList_some, List.flatMap_singleton]
      split
      · exact held_assignLoop client _
      · rfl
    · rintro _ ⟨⟩
      split
      · exact kept_assignLoop client _
      · rfl
  | disconnect client horder => exact absurd (hlog.kept _ List.mem_cons_self) (by simp [reclaiming])
  | _ => exact ⟨tasks, hlog.move rfl rfl ⟨rfl, rfl⟩ (List.Subset.refl _) (List.Perm.refl _) (by simp [reclaiming])⟩

variable {guard : System → Event → Prop} {p : System}

theorem DispatchLog.pending_new (h : DispatchLog tasks s rest) (hprepared : AllPrepared settings s rest) :
    ∀ t ∈ s.server.pendingTasks, t.taskId = 0 := by
  intro t ht
  have hmem : t ∈ publishedInOrder s.history := h.order ▸ List.mem_append_right _ ht
  obtain ⟨search, hsearch, ht⟩ := List.mem_flatMap.mp hmem
  exact ((hprepared.searches search (List.mem_reverse.mp hsearch)).task_searchId t ht).2

theorem DispatchLog.task_fits (h : DispatchLog tasks s rest) (hfit : IdsFit s.server) :
    ∀ x ∈ tasks, x.2.taskId % 2 ^ 64 = x.2.taskId := by
  intro x hx
  have hmem : x.2.taskId ∈ List.range' 1 s.server.nextTaskId := h.ids ▸ List.mem_map_of_mem hx
  have hrange := List.mem_range'_1.mp hmem
  have := hfit.1
  exact Nat.mod_eq_of_lt (by omega)

theorem DispatchLog.task_inj (h : DispatchLog tasks s rest) {x y : Nat × TaskPayload} (hx : x ∈ tasks) (hy : y ∈ tasks)
    (hid : x.2.taskId = y.2.taskId) : x = y :=
  List.inj_on_of_nodup_map (h.ids ▸ List.nodup_range') hx hy hid

theorem dispatchLog (hguard : ∀ q e, guard q e → NoDisconnect q e)
    (h : Reaches (step settings) guard System.initial p) : ∃ tasks, DispatchLog tasks p.shared p.threads := by
  apply system_invariant (fun s threads => ∃ tasks, DispatchLog tasks s threads) _ _ _ _ h
  · exact ⟨[], rfl, rfl, rfl, by simp, List.Perm.refl _, by simp⟩
  · rintro s l l' hperm ⟨tasks, hlog⟩
    refine ⟨tasks, hlog.sent, hlog.ids, hlog.order, hlog.inFlight, ?_, ?_⟩
    · exact (((hperm.flatMap_right held).append_right _).append_left _).symm.trans hlog.places
    · exact fun pc hpc => hlog.kept pc (hperm.mem_iff.mpr hpc)
  · rintro p op - hg ⟨tasks, hlog⟩
    obtain ⟨hellos, hshared⟩ := begin_shared settings p.shared op
    rw [hshared]
    refine ⟨tasks, hlog.sent, hlog.ids, hlog.order, hlog.inFlight, ?_, ?_⟩
    · rw [List.flatMap_append, begin_held]
      exact hlog.places
    · intro pc hpc
      rcases List.mem_append.mp hpc with hpc | hpc
      · cases begin_begun settings p.shared op pc (Option.mem_toList.mp hpc) with
        | disconnect client => exact absurd (hguard _ _ hg) id
        | _ => rfl
      · exact hlog.kept pc hpc
  · rintro p thread choice pc rest s' next hreach - - hthreads ⟨tasks, hlog⟩ hran
    have hprepared := allPrepared hreach
    exact hran.dispatchLog hlog (taskIds hreach) (hlog.pending_new ⟨fun pc hpc => hprepared.threads pc
      (hthreads.mem_iff.mpr hpc), hprepared.searches⟩)

/-! ## Registered workers -/

theorem Ran.slots {choice : Choice} (h : Ran settings choice s pc s' next) (hkept : reclaiming pc = false) :
    ∀ worker ∈ s.server.workersFreeSlots, worker ∈ s'.server.workersFreeSlots := by
  intro worker hworker
  have hdispatch : ∀ client, worker ∈ (dispatch s client).1.server.workersFreeSlots := by
    intro client
    rw [dispatch_server]
    have hspec := s.server.dispatchNextTask_spec client
    generalize s.server.dispatchNextTask client = r at hspec
    cases hspec with
    | sent _ _ _ _ _ => exact (AList.mem_insert _).mpr (Or.inr hworker)
    | _ => exact hworker
  cases h with
  | helloRegister client threadsCount => exact (AList.mem_insert _).mpr (Or.inr hworker)
  | helloDispatch client left => exact hdispatch client
  | doneTake client taskId msg server task htake =>
    obtain ⟨-, rfl⟩ := MasterServer.takeTask_eq_some _ _ _ _ _ htake
    exact (AList.mem_insert _).mpr (Or.inr hworker)
  | doneDispatch client task msg => exact hdispatch client
  | doneAggregate task msg batch server linesToWrite hdecode hadd =>
    obtain ⟨_, _, _, rfl⟩ := MasterServer.addBatch_eq_ok _ _ _ _ _ hadd
    exact hworker
  | doneWrite task fullPath lines => cases choice.opens <;> exact hworker
  | doneCount task =>
    unfold MasterServer.countChunk
    split <;> exact hworker
  | assignSkip server hpop =>
    have hspec := hpop ▸ s.server.popIdleWorker_spec
    cases hspec with
    | skip _ _ _ _ => exact hworker
  | assignWake server client threadsCount hpop =>
    have hspec := hpop ▸ s.server.popIdleWorker_spec
    cases hspec with
    | wake _ _ _ _ _ => exact hworker
  | assignDispatch client left => exact hdispatch client
  | disconnect client horder => cases hkept
  | _ => exact hworker

theorem registered (hguard : ∀ q e, guard q e → NoDisconnect q e) (h : Reaches (step settings) guard System.initial p) :
    ∀ x ∈ p.shared.history.hellos, x.1 ∈ p.shared.server.workersFreeSlots ∨ x ∈ p.threads.flatMap registering := by
  apply system_invariant (fun s threads => ∀ x ∈ s.history.hellos,
    x.1 ∈ s.server.workersFreeSlots ∨ x ∈ threads.flatMap registering) _ _ _ _ h
  · intro x hx
    cases hx
  · intro s l l' hperm hinv x hx
    exact (hinv x hx).imp_right (hperm.flatMap_right registering).mem_iff.mp
  · intro p op _ _ hinv x hx
    rw [begin_server, List.flatMap_append]
    rcases begin_hello settings p.shared op with ⟨client, _, n, -, -, hhellos, hnext⟩ | ⟨hhellos, -⟩
    · rw [hhellos] at hx
      rcases List.mem_cons.mp hx with rfl | hx
      · right
        rw [hnext]
        exact List.mem_append_left _ (List.mem_singleton_self _)
      · exact (hinv x hx).imp_right (List.mem_append_right _)
    · rw [hhellos] at hx
      exact (hinv x hx).imp_right (List.mem_append_right _)
  · intro p thread choice pc rest s' next hreach _ _ hthreads hinv hran x hx
    obtain ⟨tasks, hlog⟩ := dispatchLog hguard hreach
    rw [hran.history.2.2] at hx
    rcases hinv x hx with hslots | hcoming
    · exact Or.inl (hran.slots (hlog.kept pc (hthreads.mem_iff.mpr List.mem_cons_self)) x.1 hslots)
    · rcases List.mem_append.mp hcoming with hnow | hlater
      · -- Its section registers it.
        left
        cases hran with
        | helloRegister client threadsCount =>
          rw [List.mem_singleton.mp hnow]
          exact (AList.mem_insert _).mpr (Or.inl rfl)
        | _ => cases hnow
      · right
        rw [List.flatMap_append]
        exact List.mem_append_right _ hlater

theorem sent_hellos (hguard : ∀ q e, guard q e → OneHello q e) (h : Reaches (step settings) guard System.initial p) :
    ∀ x ∈ p.shared.sent, x.1 ∈ p.shared.history.hellos.map (·.1) := by
  apply system_invariant (fun s _ => ∀ x ∈ s.sent, x.1 ∈ s.history.hellos.map (·.1)) _ _ _ _ h
  · intro x hx
    cases hx
  · intro s l l' _ hinv
    exact hinv
  · intro p op _ _ hinv x hx
    obtain ⟨hellos, hbegin⟩ := begin_shared settings p.shared op
    have hmem := hinv x (by rw [hbegin] at hx; exact hx)
    rcases begin_hello settings p.shared op with ⟨client, _, n, -, -, hhellos, -⟩ | ⟨hhellos, -⟩
    · rw [hhellos]
      exact List.mem_cons_of_mem _ hmem
    · rw [hhellos]
      exact hmem
  · intro p thread choice pc rest s' next hreach _ _ _ hinv hran x hx
    rw [hran.history.2.2]
    rcases hran.sent with ⟨client, rfl⟩ | ⟨hsent, -⟩
    · unfold Master.dispatch at hx
      have hspec := p.shared.server.dispatchNextTask_spec client
      generalize p.shared.server.dispatchNextTask client = r at hspec hx
      cases hspec with
      | sent slots task pendingTasks hslots hpending =>
        rcases List.mem_append.mp hx with hx | hx
        · obtain rfl := List.mem_singleton.mp hx
          exact ((roll hguard hreach).arrived client (AList.lookup_isSome.mp (by rw [hslots]; rfl))).1
        · exact hinv x hx
      | _ => exact hinv x hx
    · rw [hsent] at hx
      exact hinv x hx

end

/-! ## The result -/

/-- **Tasks go out in the order they were published**, each once and with the next task id: the messages sent
so far carry the first of the published tasks, and the others are pending. -/
theorem dispatched_in_order (settings : Settings) (p : System)
    (h : Reaches (step settings) NoDisconnect System.initial p) :
    ∃ tasks : List (Nat × TaskPayload), p.shared.sent.reverse = tasks.map (fun x => (x.1, taskMessage x.2)) ∧
      tasks.map (·.2.taskId) = List.range' 1 p.shared.server.nextTaskId ∧
      tasks.map (fun x => anonymous x.2) ++ p.shared.server.pendingTasks = publishedInOrder p.shared.history := by
  obtain ⟨tasks, hlog⟩ := dispatchLog (fun _ _ => id) h
  exact ⟨tasks, hlog.sent, hlog.ids, hlog.order⟩

/-- The worker with one thread gets the second chunk after its answer for the first. -/
theorem dispatched_in_order_two :
    let p := Runs.after (step {}) NoDisconnect System.initial twoChunks
    ∃ tasks : List (Nat × TaskPayload), tasks.map (·.2.taskId) = [1, 2] ∧
      tasks.map (fun x => anonymous x.2) = publishedInOrder p.shared.history := by
  intro p
  obtain ⟨tasks, -, hids, horder⟩ :=
    dispatched_in_order {} p (Runs.reaches_after twoChunks .start (by decide +kernel))
  refine ⟨tasks, hids.trans (by decide +kernel), ?_⟩
  rw [← horder, show p.shared.server.pendingTasks = [] by decide +kernel, List.append_nil]

end LogGrid.Master
