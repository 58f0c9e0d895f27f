import LogGrid.Master.ResultsSoFar

/-!
# The master as a search service

Every critical section is a step of the search service or none: the section of
`AddPendingTasks` publishes a search, and the one that adds a batch answers a
chunk. All others, and all calls, leave the service as it is.
-/

open LogGrid.Runs LogGrid.FileProcessor LogGrid.BatchSize

namespace LogGrid.Master

/-- The service has the searches that were published, with what was answered of them. -/
structure Implements (s : Shared) (service : SearchService Nat TaskPayload) : Prop where
  unpublished : ∀ id, (∀ search ∈ s.history.searches, search.session.searchId ≠ id) → service id = none
  published : ∀ search ∈ s.history.searches,
    ∃ job, service search.session.searchId = some job ∧ JobOf s.history search job

section

variable {settings : Settings} {host : Host} {guard : System → Event → Prop} {p p' : System} {s s' : Shared}
  {service : SearchService Nat TaskPayload}

theorem Implements.congr (h : Implements s service) (hsearches : s'.history.searches = s.history.searches)
    (haggregated : s'.history.aggregated = s.history.aggregated) : Implements s' service := by
  refine ⟨?_, ?_⟩
  · rw [hsearches]
    exact h.unpublished
  · rw [hsearches]
    intro search hsearch
    obtain ⟨job, hjob, hlimit, hchunks, hanswered⟩ := h.published search hsearch
    refine ⟨job, hjob, hlimit, hchunks, ?_⟩
    rw [hanswered, answeredTasks, answeredTasks, haggregated]

theorem answeredTasks_cons (history : History) (task : TaskPayload) (batch : ChunkResult) (id : Nat) :
    answeredTasks { history with aggregated := (task, batch) :: history.aggregated } id =
      if task.searchId = id then anonymous task :: answeredTasks history id else answeredTasks history id := by
  unfold answeredTasks
  simp only [List.filter_cons, decide_eq_true_eq]
  split <;> rfl

theorem Implements.publish (h : Implements s service) (search : Search)
    (hnew : ∀ other ∈ s.history.searches, other.session.searchId ≠ search.session.searchId)
    (hnone : answeredTasks s.history search.session.searchId = [])
    (hsearches : s'.history.searches = search :: s.history.searches)
    (haggregated : s'.history.aggregated = s.history.aggregated) :
    ∃ e service', SearchService.step service e = some service' ∧ Implements s' service' := by
  have hid := h.unpublished search.session.searchId hnew
  have hsame : ∀ id, answeredTasks s'.history id = answeredTasks s.history id := by
    intro id
    unfold answeredTasks
    rw [haggregated]
  refine ⟨.publish search.session.searchId search.request.config.maxResults.toNat search.newTasks, _,
    by rw [SearchService.step, hid], ?_, ?_⟩
  · rw [hsearches]
    intro id hother
    rw [Function.update_of_ne (hother search List.mem_cons_self).symm]
    exact h.unpublished id fun other hmem => hother other (List.mem_cons_of_mem _ hmem)
  · rw [hsearches]
    intro other hother
    rcases List.mem_cons.mp hother with rfl | hother
    · exact ⟨_, Function.update_self .., rfl, rfl, ((hsame _).trans hnone).symm⟩
    · obtain ⟨job, hjob, hlimit, hchunks, hanswered⟩ := h.published other hother
      refine ⟨job, ?_, hlimit, hchunks, hanswered.trans (hsame _).symm⟩
      rw [Function.update_of_ne (hnew other hother)]
      exact hjob

theorem Implements.answer (h : Implements s service) (search : Search) (hsearch : search ∈ s.history.searches)
    (task : TaskPayload) (batch : ChunkResult) (hid : task.searchId = search.session.searchId)
    (hunique : ∀ other ∈ s.history.searches, other.session.searchId = task.searchId → other = search)
    (honce : (anonymous task :: answeredTasks s.history task.searchId).Subperm search.newTasks)
    (hsearches : s'.history.searches = s.history.searches)
    (haggregated : s'.history.aggregated = (task, batch) :: s.history.aggregated) :
    ∃ e service', SearchService.step service e = some service' ∧ Implements s' service' := by
  obtain ⟨job, hjob, hlimit, hchunks, hanswered⟩ := h.published search hsearch
  have hcount : job.answered.count (anonymous task) < job.chunks.count (anonymous task) := by
    have hle := honce.count_le (anonymous task)
    rw [List.count_cons_self] at hle
    rw [hanswered, hchunks, ← hid]
    exact hle
  have hadded : ∀ id, answeredTasks s'.history id =
      if task.searchId = id then anonymous task :: answeredTasks s.history id else answeredTasks s.history id := by
    intro id
    rw [← answeredTasks_cons s.history task batch id]
    unfold answeredTasks
    rw [haggregated]
  refine ⟨.answer search.session.searchId (anonymous task), _, by rw [SearchService.step, hjob]; exact dif_pos hcount,
    ?_, ?_⟩
  · rw [hsearches]
    intro id hother
    rw [Function.update_of_ne (hother search hsearch).symm]
    exact h.unpublished id hother
  · rw [hsearches]
    intro other hother
    by_cases heq : other.session.searchId = task.searchId
    · obtain rfl := hunique other hother heq
      refine ⟨_, Function.update_self .., hlimit, hchunks, ?_⟩
      rw [hadded, if_pos hid, ← hanswered]
      rfl
    · obtain ⟨job', hjob', hlimit', hchunks', hanswered'⟩ := h.published other hother
      refine ⟨job', ?_, hlimit', hchunks', ?_⟩
      · rw [Function.update_of_ne (hid ▸ heq)]
        exact hjob'
      · rw [hadded, if_neg (Ne.symm heq)]
        exact hanswered'

/-! ## Runs -/

theorem not_answered (hguard : ∀ q e, guard q e → Honest host q e)
    (h : Reaches (step settings) guard System.initial p) (hfit : IdsFit p.shared.server) (id : Nat)
    (hnew : ∀ search ∈ p.shared.history.searches, search.session.searchId ≠ id) :
    answeredTasks p.shared.history id = [] := by
  unfold answeredTasks
  rw [List.map_eq_nil_iff, List.filter_eq_nil_iff]
  intro x hx hid
  have hledger := (added_subperm (addedOnce hguard h hfit)).subset (List.mem_map_of_mem hx)
  obtain ⟨search, hsearch, hmem⟩ := ledger_task h x.1 hledger
  have hsame : x.1.searchId = search.session.searchId :=
    (((allPrepared h).searches search hsearch).task_searchId _ hmem).1
  exact hnew search hsearch (hsame.symm.trans (of_decide_eq_true hid))

/-- **Every step of the master is a step of the service, or none.** -/
theorem implements_step (hguard : ∀ q e, guard q e → Honest host q e)
    (h : Reaches (step settings) guard System.initial p) (e : Event) (hg : guard p e)
    (hstep : step settings p e = some p') (hfit : IdsFit p'.shared.server) (himplements : Implements p.shared service) :
    Implements p'.shared service ∨
      ∃ e service', SearchService.step service e = some service' ∧ Implements p'.shared service' := by
  have h' := h.step e hg hstep
  cases e with
  | call op =>
    obtain ⟨hshared, -⟩ := Threads.step_call hstep
    obtain ⟨hsearches, -, haggregated⟩ := begin_history settings p.shared op
    rw [hshared]
    exact Or.inl (himplements.congr hsearches haggregated)
  | run thread choice =>
    obtain ⟨pc, rest, next, -, hthreads, hexec, hthreads'⟩ := Threads.step_run hstep
    have hran := exec_ran settings choice _ _ pc next hexec
    have hfit₀ := hfit.of_ran hran
    have hpc : pc ∈ p.threads := hthreads.mem_iff.mpr List.mem_cons_self
    generalize hs' : p'.shared = s' at hran
    cases hran with
    | doneAggregate task msg batch server linesToWrite hdecode hadd =>
      right
      have hledger : task ∈ ledger p.shared p.threads :=
        List.mem_append_left _ (List.mem_flatMap.mpr ⟨_, hpc, List.mem_cons_self⟩)
      obtain ⟨search, hsearch, hmem⟩ := ledger_task h task hledger
      have hid : task.searchId = search.session.searchId :=
        (((allPrepared h).searches search hsearch).task_searchId _ hmem).1
      have honce := answered_once hguard h' hfit search (by rw [hs']; exact hsearch)
      rw [hs', answeredTasks_cons, if_pos hid, ← hid] at honce
      exact himplements.answer search hsearch task batch hid
        (fun other hother heq => search_unique h hother hsearch (heq.trans hid)) honce rfl rfl
    | searchPublish search =>
      right
      have hnodup := searches_nodup h'
      rw [hs', List.map_cons, List.nodup_cons] at hnodup
      have hnew : ∀ other ∈ p.shared.history.searches, other.session.searchId ≠ search.session.searchId :=
        fun other hother heq => hnodup.1 (heq ▸ List.mem_map_of_mem hother)
      exact himplements.publish search hnew (not_answered hguard h hfit₀ _ hnew) rfl rfl
    | doneWrite task fullPath lines => cases choice.opens <;> exact Or.inl (himplements.congr rfl rfl)
    | _ => exact Or.inl (himplements.congr rfl rfl)

theorem implements (hguard : ∀ q e, guard q e → Honest host q e)
    (h : Reaches (step settings) guard System.initial p) (hfit : IdsFit p.shared.server) :
    ∃ service, Reaches SearchService.step Any SearchService.empty service ∧ Implements p.shared service := by
  revert hfit
  refine h.invariant (fun p => IdsFit p.shared.server →
    ∃ service, Reaches SearchService.step Any SearchService.empty service ∧ Implements p.shared service) ?_ ?_
  · intro _
    exact ⟨_, .start, fun _ _ => rfl, fun search hsearch => by cases hsearch⟩
  · intro p e p' hreach hinv hg hstep hfit
    have hfit₀ : IdsFit p.shared.server := by
      cases e with
      | call op =>
        obtain ⟨hshared, -⟩ := Threads.step_call hstep
        rw [hshared, begin_server] at hfit
        exact hfit
      | run thread choice =>
        obtain ⟨pc, rest, next, -, -, hexec, -⟩ := Threads.step_run hstep
        exact hfit.of_ran (exec_ran settings choice _ _ pc next hexec)
    obtain ⟨service, hservice, himplements⟩ := hinv hfit₀
    rcases implements_step hguard hreach e hg hstep hfit himplements with hsame | ⟨e', service', hstep', himplements'⟩
    · exact ⟨service, hservice, hsame⟩
    · exact ⟨service', hservice.step e' trivial hstep', himplements'⟩

/-! ## Polls -/

/-- What a poll says is what the job has found so far, and `Done` says that all chunks are answered. -/
structure ShowsJob (host : Host) (job : Job TaskPayload) (status : SearchStatus) : Prop where
  total : status.totalMatches = UInt64.ofNat (job.total (hits host))
  lines : status.linesFound.toNat = min job.limit (job.lines (hits host)).length
  done : job.chunks.length < 2 ^ 31 → status.state = .done → job.answered.length = job.chunks.length

theorem JobOf.shows {search : Search} {job : Job TaskPayload} (hjob : JobOf p.shared.history search job)
    (hguard : ∀ q e, guard q e → Honest host q e) (h : Reaches (step settings) guard System.initial p)
    (hfit : IdsFit p.shared.server) (hsearch : search ∈ p.shared.history.searches)
    (hsound : ∀ t ∈ search.newTasks, Sound host t) (status : SearchStatus)
    (hstatus : p.shared.server.getStatus search.session.searchId = some status) : ShowsJob host job status := by
  obtain ⟨session, hsession, htallied, -⟩ := session_of_search h search hsearch
  have hmax := ((allPrepared h).searches search hsearch).maxResults.1
  obtain ⟨htotal, hlines⟩ := hjob.found hguard h hfit hsearch hsound
  unfold MasterServer.getStatus at hstatus
  rw [hsession, Option.map_some, Option.some.injEq] at hstatus
  subst hstatus
  refine ⟨by rw [← htotal]; exact htallied.totalMatches, ?_, ?_⟩
  · rw [← hlines, List.length_flatMap, hjob.limit, ← hmax, ← htallied.maxResults]
    exact htallied.lineCount
  · intro hlt hdone
    have hfinished : session.chunksDone = session.chunksTotal := by
      by_contra hne
      simp [hne] at hdone
    rw [hjob.chunks] at hlt ⊢
    rw [hjob.answered]
    exact (done_added hguard h hfit search hsearch hlt hsound session hsession hfinished).length_eq

end

end LogGrid.Master
