import LogGrid.Master.EndToEnd
import LogGrid.SearchService

/-!
# The results of a search so far

Before a search is done, the batches that were added are those of some of its
tasks, each of them once. What a poll says is at most what the files have.
-/

open LogGrid.Runs LogGrid.FileProcessor LogGrid.BatchSize

namespace LogGrid.Master

theorem handled_sublist_held (pc : Pc) : (handled pc).Sublist (held pc) := by
  cases pc with
  | doneLookup task lines => exact List.Sublist.refl _
  | doneWrite task fullPath lines => exact List.Sublist.refl _
  | doneCount task => exact List.Sublist.refl _
  | _ => exact List.nil_sublist _

/-- The tasks of a search whose batches were added, as they were published. -/
def answeredTasks (history : History) (id : Nat) : List TaskPayload :=
  (history.aggregated.filter (·.1.searchId = id)).map fun x => anonymous x.1

/-- The search as its user sees it. -/
structure JobOf (history : History) (search : Search) (job : Job TaskPayload) : Prop where
  limit : job.limit = search.request.config.maxResults.toNat
  chunks : job.chunks = search.newTasks
  answered : job.answered = answeredTasks history search.session.searchId

section

variable {settings : Settings} {host : Host} {guard : System → Event → Prop} {p : System}

theorem added_subperm {sound : TaskPayload → Prop} (h : AddedOnce sound p.shared p.threads) :
    (p.shared.history.aggregated.map Prod.fst).Subperm (ledger p.shared p.threads) := by
  obtain ⟨lost, -, hperm⟩ := h
  have hhandled : (p.threads.flatMap handled).Sublist (p.threads.flatMap held) :=
    List.Sublist.flatMap_right _ fun pc _ => handled_sublist_held pc
  have hledger : (p.threads.flatMap handled ++ p.shared.history.counted).Sublist (ledger p.shared p.threads) :=
    hhandled.append (List.sublist_append_left _ _)
  exact (List.sublist_append_left _ lost).subperm.trans
    ((hperm.trans List.perm_append_comm).subperm.trans hledger.subperm)

theorem answered_once (hguard : ∀ q e, guard q e → Honest host q e)
    (h : Reaches (step settings) guard System.initial p) (hfit : IdsFit p.shared.server) (search : Search)
    (hsearch : search ∈ p.shared.history.searches) :
    (answeredTasks p.shared.history search.session.searchId).Subperm search.newTasks := by
  obtain ⟨l, hperm, hsub⟩ := added_subperm (addedOnce hguard h hfit)
  have hadded : ((p.shared.history.aggregated.map Prod.fst).map anonymous).Subperm
      ((ledger p.shared p.threads).map anonymous) := ⟨l.map anonymous, hperm.map anonymous, hsub.map anonymous⟩
  have hfilter := (hadded.trans (conserved h).subperm).filter (·.searchId = search.session.searchId)
  rw [List.filter_map, List.filter_map, List.filter_map, List.map_map] at hfilter
  have hpublished :
      (published p.shared.history).filter ((fun t => decide (t.searchId = search.session.searchId)) ∘ anonymous) =
      search.newTasks := published_filter h search hsearch
  rw [hpublished, ((allPrepared h).searches search hsearch).map_anonymous] at hfilter
  exact hfilter

theorem exists_job (hguard : ∀ q e, guard q e → Honest host q e)
    (h : Reaches (step settings) guard System.initial p) (hfit : IdsFit p.shared.server) (search : Search)
    (hsearch : search ∈ p.shared.history.searches) : ∃ job, JobOf p.shared.history search job :=
  ⟨⟨_, _, _, answered_once hguard h hfit search hsearch⟩, rfl, rfl, rfl⟩

theorem JobOf.batches {search : Search} {job : Job TaskPayload} (hjob : JobOf p.shared.history search job)
    (hguard : ∀ q e, guard q e → Honest host q e) (h : Reaches (step settings) guard System.initial p)
    (hfit : IdsFit p.shared.server) (hsearch : search ∈ p.shared.history.searches)
    (hsound : ∀ t ∈ search.newTasks, Sound host t) :
    (batches p.shared.history search.session.searchId).map (fun batch => (batch.lines, batch.totalMatches.toNat)) =
      job.answered.map fun t => ((hits host t).take job.limit, (hits host t).length) := by
  have hprepared := (allPrepared h).searches search hsearch
  have honce := answered_once hguard h hfit search hsearch
  obtain ⟨tasks, -, hhonest⟩ := allHonest hguard h
  rw [hjob.answered, hjob.limit, answeredTasks, Master.batches, List.map_map, List.map_map]
  refine List.map_congr_left fun x hx => ?_
  have hmem : anonymous x.1 ∈ search.newTasks := honce.subset (List.mem_map_of_mem (f := fun x => anonymous x.1) hx)
  obtain ⟨choice, msg, hrest, hdecode⟩ := (hhonest hfit).aggregated x (List.mem_filter.mp hx).1
  obtain ⟨batch, hbatch, hlines, htotal⟩ := decodeBatch_answer choice x.1 msg
    (hprepared.inChunk (anonymous x.1) hmem) (hsound (anonymous x.1) hmem) hrest
  rw [hdecode, Option.some.injEq] at hbatch
  have hlimit := hprepared.maxResults.2 _ hmem
  simp only [Function.comp_apply, hbatch, hlines, htotal, ← hlimit]
  rfl

theorem JobOf.found {search : Search} {job : Job TaskPayload} (hjob : JobOf p.shared.history search job)
    (hguard : ∀ q e, guard q e → Honest host q e) (h : Reaches (step settings) guard System.initial p)
    (hfit : IdsFit p.shared.server) (hsearch : search ∈ p.shared.history.searches)
    (hsound : ∀ t ∈ search.newTasks, Sound host t) :
    Master.answered p.shared.history search.session.searchId = job.total (hits host) ∧
      (Master.batches p.shared.history search.session.searchId).flatMap (·.lines) = job.lines (hits host) := by
  have hbatches := hjob.batches hguard h hfit hsearch hsound
  have htotals := congrArg (List.map Prod.snd) hbatches
  have hlines := congrArg (List.map Prod.fst) hbatches
  rw [List.map_map, List.map_map] at htotals hlines
  exact ⟨congrArg List.sum htotals, congrArg List.flatten hlines⟩

theorem JobOf.all {search : Search} {job : Job TaskPayload} (hjob : JobOf p.shared.history search job)
    (hprepared : Prepared settings search) (hunchanged : Unchanged host search) :
    job.all (hits host) = allMatches host search := by
  rw [← hprepared.hits_eq hunchanged, Job.all, hjob.chunks]

/-! ## What a poll says -/

/-- What a poll and the result file say is true of the files: less than all at first, and all at `Done`. -/
structure Truthful (host : Host) (s : Shared) (search : Search) (status : SearchStatus) : Prop where
  total : status.totalMatches.toNat ≤ (allMatches host search).length
  lines : status.linesFound.toNat ≤ min search.request.config.maxResults.toNat (allMatches host search).length
  file : ∃ written, s.files search.session.path = fileOf written ∧ written.length ≤ status.linesFound.toNat ∧
    written.Subperm (allMatches host search) ∧ (status.state = .done → written.length = status.linesFound.toNat)
  done : status.state = .done → status.totalMatches.toNat = (allMatches host search).length ∧
    status.linesFound.toNat = min search.request.config.maxResults.toNat (allMatches host search).length

theorem done_written (h : Reaches (step settings) guard System.initial p) (search : Search)
    (hsearch : search ∈ p.shared.history.searches) (hlt : search.newTasks.length < 2 ^ 31) (session : SearchSession)
    (hsession : p.shared.server.sessions.lookup search.session.searchId = some session)
    (hdone : session.chunksDone = session.chunksTotal) :
    p.threads.flatMap (unwritten search.session.searchId) = [] := by
  have hheld := done_not_held h search hsearch hlt session hsession hdone
  refine List.flatMap_eq_nil_iff.mpr fun pc hpc => List.eq_nil_iff_forall_not_mem.mpr fun line hline => ?_
  obtain ⟨t, ht, hid⟩ := held_of_unwritten _ pc line hline
  exact hheld t (List.mem_append_left _ (List.mem_flatMap.mpr ⟨pc, hpc, ht⟩)) hid

theorem truthful (hguard : ∀ q e, guard q e → Honest host q e)
    (h : Reaches (step settings) guard System.initial p) (hfit : IdsFit p.shared.server) (search : Search)
    (hsearch : search ∈ p.shared.history.searches) (hunchanged : Unchanged host search)
    (hlt : search.newTasks.length < 2 ^ 31) (hsound : ∀ t ∈ search.newTasks, Sound host t) (status : SearchStatus)
    (hstatus : p.shared.server.getStatus search.session.searchId = some status) :
    Truthful host p.shared search status := by
  obtain ⟨session, hsession, htallied, -⟩ := session_of_search h search hsearch
  have hprepared := (allPrepared h).searches search hsearch
  have hmax := hprepared.maxResults.1
  have hsmall := hprepared.allMatches_lt hunchanged hlt
  obtain ⟨job, hjob⟩ := exists_job hguard h hfit search hsearch
  obtain ⟨hanswered, hbatches⟩ := hjob.found hguard h hfit hsearch hsound
  have htotal := job.total_le (hits host)
  have hlines := job.lines_subperm (hits host)
  rw [← hanswered, hjob.all hprepared hunchanged] at htotal
  rw [← hbatches, hjob.all hprepared hunchanged] at hlines
  have hcount := hlines.length_le
  rw [List.length_flatMap] at hcount
  unfold MasterServer.getStatus at hstatus
  rw [hsession, Option.map_some, Option.some.injEq] at hstatus
  subst hstatus
  have hsame : session.totalMatches.toNat = answered p.shared.history search.session.searchId := by
    rw [htallied.totalMatches, UInt64.toNat_ofNat', Nat.mod_eq_of_lt (by omega)]
  have hfound : session.lineCount.toNat = min search.request.config.maxResults.toNat
      (answeredLines p.shared.history search.session.searchId) := by
    rw [htallied.lineCount, htallied.maxResults, hmax]
  have hfinished : (if session.chunksDone = session.chunksTotal then SearchState.done else .running) = .done →
      session.chunksDone = session.chunksTotal := by
    intro hdone
    by_contra hne
    rw [if_neg hne] at hdone
    cases hdone
  obtain ⟨written, hfile, hlength, hwritten⟩ :=
    (resultFiles (fun q thread choice hg => hguard q _ hg) h).accounted search hsearch
  rw [List.length_append, hmax, ← hfound] at hlength
  refine ⟨hsame ▸ htotal, ?_, ⟨written, hfile, by simp only; omega, ?_, ?_⟩, ?_⟩
  · simp only [hfound]
    exact min_le_min_left _ hcount
  · exact (List.sublist_append_left _ _).subperm.trans (hwritten.trans hlines)
  · intro hdone
    rw [done_written h search hsearch hlt session hsession (hfinished hdone), List.length_nil, Nat.add_zero] at hlength
    exact hlength
  · intro hdone
    have hadded := done_added hguard h hfit search hsearch hlt hsound session hsession (hfinished hdone)
    have hall : job.answered.length = job.chunks.length := by
      rw [hjob.answered, hjob.chunks]
      exact hadded.length_eq
    obtain ⟨-, hlines', -⟩ :=
      done_answered hguard h hfit search hsearch hunchanged hlt hsound session hsession (hfinished hdone)
    refine ⟨?_, hfound.trans hlines'⟩
    calc session.totalMatches.toNat = job.total (hits host) := hsame.trans hanswered
      _ = (job.all (hits host)).length := job.total_of_done _ hall
      _ = (allMatches host search).length := by rw [hjob.all hprepared hunchanged]

end

end LogGrid.Master
