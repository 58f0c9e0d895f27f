import LogGrid.Master.Ledger
import Mathlib.Algebra.BigOperators.Group.List.Basic

/-!
# Status polling

What `GetStatus` returns is a function of the history of a search, and the
history only grows. A search that is done has no task left anywhere, so nothing
touches its session again.
-/

open LogGrid.Runs

namespace LogGrid.Master

/-! ## Totals -/

def batches (history : History) (id : Nat) : List ChunkResult :=
  (history.aggregated.filter (·.1.searchId = id)).map (·.2)

/-- The sum of the `total_matches` that were answered for a search. -/
def answered (history : History) (id : Nat) : Nat :=
  ((batches history id).map (·.totalMatches.toNat)).sum

def answeredLines (history : History) (id : Nat) : Nat :=
  ((batches history id).map (·.lines.length)).sum

/-- `session` is the session of `search`, with the batches of the history added to it. -/
structure Tallied (history : History) (search : Search) (session : SearchSession) : Prop where
  path : session.path = search.session.path
  maxResults : session.maxResults = search.session.maxResults
  scanErrors : session.scanErrors = search.session.scanErrors
  totalMatches : session.totalMatches = UInt64.ofNat (answered history search.session.searchId)
  lineCount : session.lineCount.toNat =
    min session.maxResults.toNat (answeredLines history search.session.searchId)

structure Tally (s : Shared) : Prop where
  sessions : ∀ id session, s.server.sessions.lookup id = some session →
    ∃ search ∈ s.history.searches, search.session.searchId = id ∧ Tallied s.history search session
  known : ∀ x ∈ s.history.aggregated, x.1.searchId ∈ s.server.sessions

section

variable {settings : Settings} {guard : System → Event → Prop} {p : System}

theorem Tally.congr {s s' : Shared} (h : Tally s) (hsessions : s'.server.sessions = s.server.sessions)
    (hsearches : s'.history.searches = s.history.searches)
    (haggregated : s'.history.aggregated = s.history.aggregated) : Tally s' := by
  have hbatches : ∀ id, batches s'.history id = batches s.history id := by
    intro id
    unfold batches
    rw [haggregated]
  constructor
  · intro id session hsession
    rw [hsessions] at hsession
    obtain ⟨search, hsearch, hid, htallied⟩ := h.sessions id session hsession
    refine ⟨search, by rw [hsearches]; exact hsearch, hid, htallied.path, htallied.maxResults,
      htallied.scanErrors, ?_, ?_⟩
    · unfold answered; rw [hbatches]; exact htallied.totalMatches
    · unfold answeredLines; rw [hbatches]; exact htallied.lineCount
  · rw [haggregated, hsessions]
    exact h.known

theorem batches_cons (history : History) (task : TaskPayload) (batch : ChunkResult) (id : Nat) :
    batches { history with aggregated := (task, batch) :: history.aggregated } id =
      if task.searchId = id then batch :: batches history id else batches history id := by
  unfold batches
  by_cases h : task.searchId = id <;> simp [h]

theorem Tally.add {s s' : Shared} (h : Tally s) (task : TaskPayload) (batch : ChunkResult)
    (server : MasterServer) (linesToWrite : Nat)
    (hadd : s.server.addBatch task.searchId batch = .ok (server, linesToWrite))
    (hserver : s'.server = server)
    (hhistory : s'.history = { s.history with aggregated := (task, batch) :: s.history.aggregated }) :
    Tally s' := by
  obtain ⟨old, hold, hlines, rfl⟩ := MasterServer.addBatch_eq_ok _ _ _ _ _ hadd
  have hmem : task.searchId ∈ s.server.sessions := AList.lookup_isSome.mp (by rw [hold]; rfl)
  constructor
  · intro id session hsession
    rw [hserver] at hsession
    rw [hhistory]
    by_cases hid : id = task.searchId
    · subst hid
      have := (AList.lookup_insert _).symm.trans hsession
      rw [Option.some.injEq] at this
      subst this
      obtain ⟨search, hsearch, hid, htallied⟩ := h.sessions task.searchId old hold
      have hle : old.lineCount.toNat ≤ old.maxResults.toNat := by
        rw [htallied.lineCount]; exact Nat.min_le_left _ _
      have hmax := old.maxResults.toNat_lt
      refine ⟨search, hsearch, hid, htallied.path, htallied.maxResults, htallied.scanErrors, ?_, ?_⟩
      · have htotal := htallied.totalMatches
        unfold answered at htotal ⊢
        rw [batches_cons, if_pos hid.symm, List.map_cons, List.sum_cons, UInt64.ofNat_add,
          UInt64.ofNat_toNat, ← htotal, UInt64.add_comm]
      · have hcount := htallied.lineCount
        unfold answeredLines at hcount ⊢
        rw [batches_cons, if_pos hid.symm, List.map_cons, List.sum_cons, UInt64.toNat_add,
          UInt64.toNat_ofNat', Nat.mod_eq_of_lt (by omega), Nat.mod_eq_of_lt (by omega)]
        simp only
        omega
    · obtain ⟨search, hsearch, hid', htallied⟩ := h.sessions id session
        ((AList.lookup_insert_ne hid).symm.trans hsession)
      have hother : task.searchId ≠ search.session.searchId := fun he => hid (hid'.symm.trans he.symm)
      refine ⟨search, hsearch, hid', htallied.path, htallied.maxResults, htallied.scanErrors, ?_, ?_⟩
      · unfold answered; rw [batches_cons, if_neg hother]; exact htallied.totalMatches
      · unfold answeredLines; rw [batches_cons, if_neg hother]; exact htallied.lineCount
  · rw [hserver, hhistory]
    intro x hx
    rw [AList.mem_insert]
    rcases List.mem_cons.mp hx with rfl | hx
    · exact Or.inl rfl
    · exact Or.inr (h.known x hx)

theorem Tally.publish {s s' : Shared} (h : Tally s) (search : Search)
    (hnew : search.session.searchId ∉ s.server.sessions)
    (hsession : search.session.chunksDone = 0 ∧ search.session.totalMatches = 0 ∧ search.session.lineCount = 0)
    (hserver : s'.server = s.server.addPendingTasks search.session search.newTasks)
    (hhistory : s'.history = { s.history with searches := search :: s.history.searches }) : Tally s' := by
  obtain ⟨-, htotal, hcount⟩ := hsession
  constructor
  · intro id session hlookup
    rw [hserver] at hlookup
    rw [hhistory]
    by_cases hid : id = search.session.searchId
    · subst hid
      have := (AList.lookup_insert _).symm.trans hlookup
      rw [Option.some.injEq] at this
      subst this
      -- No batch can have been added to a session that was not there.
      have hnone : batches s.history search.session.searchId = [] := by
        unfold batches
        rw [List.filter_eq_nil_iff.mpr, List.map_nil]
        intro x hx
        simp only [decide_eq_true_eq]
        rintro heq
        exact hnew (heq ▸ h.known x hx)
      refine ⟨search, List.mem_cons_self, rfl, rfl, rfl, rfl, ?_, ?_⟩
      · show search.session.totalMatches = UInt64.ofNat ((batches s.history _).map _).sum
        rw [hnone, htotal]
        rfl
      · show search.session.lineCount.toNat = min _ ((batches s.history _).map _).sum
        rw [hnone, hcount, List.map_nil, List.sum_nil, Nat.min_zero]
        rfl
    · obtain ⟨search', hsearch', hid', htallied⟩ := h.sessions id session
        ((AList.lookup_insert_ne hid).symm.trans hlookup)
      exact ⟨search', List.mem_cons_of_mem _ hsearch', hid', htallied.path, htallied.maxResults,
        htallied.scanErrors, htallied.totalMatches, htallied.lineCount⟩
  · rw [hserver, hhistory]
    intro x hx
    exact (AList.mem_insert _).mpr (Or.inr (h.known x hx))

theorem tally (h : Reaches (step settings) guard System.initial p) : Tally p.shared := by
  apply system_invariant (fun s _ => Tally s) _ _ _ _ h
  · exact ⟨by simp, by simp⟩
  · intro s l l' _ hinv
    exact hinv
  · intro p op _ _ hinv
    obtain ⟨hsearches, -, haggregated⟩ := begin_history settings p.shared op
    exact hinv.congr (by rw [begin_server]) hsearches haggregated
  · intro p thread choice pc rest s' next hreach _ _ hthreads hinv hran
    cases hran with
    | helloDispatch client left =>
      exact hinv.congr (p.shared.server.dispatchNextTask_sessions client).1 rfl rfl
    | doneTake client taskId msg server task h =>
      exact hinv.congr (p.shared.server.takeTask_sessions server client taskId task h).1 rfl rfl
    | doneDispatch client task msg =>
      exact hinv.congr (p.shared.server.dispatchNextTask_sessions client).1 rfl rfl
    | doneAggregate task msg batch server linesToWrite hdecode hadd =>
      exact hinv.add task batch server linesToWrite hadd rfl rfl
    | doneWrite task fullPath lines => cases choice.opens <;> exact hinv.congr rfl rfl rfl
    | doneCount task =>
      constructor
      · intro id session hsession
        obtain ⟨old, hold, heq⟩ := p.shared.server.countChunk_lookup task.searchId id session hsession
        obtain ⟨search, hsearch, hid, htallied⟩ := hinv.sessions id old hold
        rw [heq]
        exact ⟨search, hsearch, hid, htallied.path, htallied.maxResults, htallied.scanErrors,
          htallied.totalMatches, htallied.lineCount⟩
      · intro x hx
        exact (p.shared.server.mem_countChunk task.searchId _).mpr (hinv.known x hx)
    | searchPublish search =>
      have hthread : .searchPublish search ∈ p.threads := hthreads.mem_iff.mpr List.mem_cons_self
      exact hinv.publish search (publish_fresh hreach search hthread)
        ((allPrepared hreach).threads _ hthread).session_eq rfl rfl
    | assignSkip server h => exact hinv.congr (p.shared.server.popIdleWorker_sessions server none h).1 rfl rfl
    | assignWake server client threadsCount h =>
      exact hinv.congr (p.shared.server.popIdleWorker_sessions server _ h).1 rfl rfl
    | assignDispatch client left =>
      exact hinv.congr (p.shared.server.dispatchNextTask_sessions client).1 rfl rfl
    | _ => exact hinv.congr rfl rfl rfl

theorem answered_mono {earlier later : History} (h : Grows earlier later) (id : Nat) :
    answered earlier id ≤ answered later id ∧ answeredLines earlier id ≤ answeredLines later id := by
  obtain ⟨new, hnew⟩ := h.aggregated
  have hbatches : batches later id = batches { later with aggregated := new } id ++ batches earlier id := by
    unfold batches
    rw [← hnew, List.filter_append, List.map_append]
  unfold answered answeredLines
  rw [hbatches, List.map_append, List.map_append, List.sum_append, List.sum_append]
  exact ⟨Nat.le_add_left _ _, Nat.le_add_left _ _⟩

/-! ## The counters of a session -/

theorem session_of_search (h : Reaches (step settings) guard System.initial p) (search : Search)
    (hsearch : search ∈ p.shared.history.searches) :
    ∃ session, p.shared.server.sessions.lookup search.session.searchId = some session ∧
      Tallied p.shared.history search session ∧
      session.chunksTotal = Int32.ofNat search.newTasks.length ∧
      session.chunksDone =
        Int32.ofNat (p.shared.history.counted.countP (·.searchId = search.session.searchId)) ∧
      p.shared.history.counted.countP (·.searchId = search.session.searchId) ≤ search.newTasks.length := by
  have hkeys := (sessionsInv h).keys
  obtain ⟨session, hsession⟩ := Option.isSome_iff_exists.mp (AList.lookup_isSome.mpr
    (AList.mem_keys.mpr (hkeys.mem_iff.mpr (List.mem_map_of_mem hsearch))))
  obtain ⟨htotal, hdone⟩ := (sessionsInv h).counts _ session hsession
  obtain ⟨search', hsearch', hid, htallied⟩ := (tally h).sessions _ session hsession
  obtain rfl := search_unique h hsearch' hsearch hid
  have hcount := countP_published h search' hsearch
  have hsum := countP_ledger h search'.session.searchId
  rw [ledger, List.countP_append, List.countP_append, hcount] at hsum
  exact ⟨session, hsession, htallied, hcount ▸ htotal, hdone, by omega⟩

/-! ## Done is final -/

theorem done_countP (h : Reaches (step settings) guard System.initial p) (search : Search)
    (hsearch : search ∈ p.shared.history.searches) (hlt : search.newTasks.length < 2 ^ 31)
    (session : SearchSession)
    (hsession : p.shared.server.sessions.lookup search.session.searchId = some session)
    (hdone : session.chunksDone = session.chunksTotal) :
    p.shared.history.counted.countP (·.searchId = search.session.searchId) = search.newTasks.length := by
  obtain ⟨session', hsession', -, htotal, hcounted, hle⟩ := session_of_search h search hsearch
  obtain rfl : session' = session := Option.some.inj (hsession'.symm.trans hsession)
  have heq := congrArg Int32.toInt (hcounted.symm.trans (hdone.trans htotal))
  rw [Int32.toInt_ofNat_of_lt (by omega), Int32.toInt_ofNat_of_lt hlt] at heq
  omega

theorem done_not_held (h : Reaches (step settings) guard System.initial p) (search : Search)
    (hsearch : search ∈ p.shared.history.searches) (hlt : search.newTasks.length < 2 ^ 31)
    (session : SearchSession)
    (hsession : p.shared.server.sessions.lookup search.session.searchId = some session)
    (hdone : session.chunksDone = session.chunksTotal) :
    ∀ t ∈ p.threads.flatMap held ++ p.shared.server.stock, t.searchId ≠ search.session.searchId := by
  have hcount := done_countP h search hsearch hlt session hsession hdone
  have hsum := countP_ledger h search.session.searchId
  rw [ledger, List.countP_append, List.countP_append, countP_published h search hsearch] at hsum
  have hnone : (p.threads.flatMap held ++ p.shared.server.stock).countP
      (·.searchId = search.session.searchId) = 0 := by
    rw [List.countP_append]
    omega
  intro t ht
  simpa using List.countP_eq_zero.mp hnone t ht

/-- **A step leaves a finished session as it is.** -/
theorem done_frozen (h : Reaches (step settings) guard System.initial p) {p' : System} {e : Event}
    (hstep : step settings p e = some p') (search : Search)
    (hsearch : search ∈ p.shared.history.searches) (hlt : search.newTasks.length < 2 ^ 31)
    (session : SearchSession)
    (hsession : p.shared.server.sessions.lookup search.session.searchId = some session)
    (hdone : session.chunksDone = session.chunksTotal) :
    p'.shared.server.sessions.lookup search.session.searchId = some session := by
  have hheld := done_not_held h search hsearch hlt session hsession hdone
  rcases step_cases hstep with ⟨op, -, hshared, -⟩ | ⟨_, choice, pc, rest, next, -, hthreads, hran, -⟩
  · rw [hshared, begin_server]
    exact hsession
  · have hpc : ∀ t ∈ held pc, t.searchId ≠ search.session.searchId := fun t ht =>
      hheld t (List.mem_append_left _ ((hthreads.flatMap_right held).mem_iff.mpr (List.mem_append_left _ ht)))
    generalize hs' : p'.shared = s' at hran
    cases hran with
    | helloDispatch client left =>
      rw [dispatch_server, (p.shared.server.dispatchNextTask_sessions client).1]
      exact hsession
    | doneTake client taskId msg server task h =>
      rw [(p.shared.server.takeTask_sessions server client taskId task h).1]
      exact hsession
    | doneDispatch client task msg =>
      rw [dispatch_server, (p.shared.server.dispatchNextTask_sessions client).1]
      exact hsession
    | doneAggregate task msg batch server linesToWrite hdecode hadd =>
      obtain ⟨old, -, -, rfl⟩ := MasterServer.addBatch_eq_ok _ _ _ _ _ hadd
      exact (AList.lookup_insert_ne (hpc task (by simp [held])).symm).trans hsession
    | doneWrite task fullPath lines => cases choice.opens <;> exact hsession
    | doneCount task =>
      unfold MasterServer.countChunk
      split
      · exact hsession
      · exact (AList.lookup_insert_ne (hpc task (by simp [held])).symm).trans hsession
    | searchPublish published =>
      -- The id of a search that is published now is not that of an earlier one.
      have hfresh := publish_fresh h published (hthreads.mem_iff.mpr List.mem_cons_self)
      have hne : search.session.searchId ≠ published.session.searchId := by
        intro heq
        exact hfresh (AList.lookup_isSome.mp (by rw [← heq, hsession]; rfl))
      exact (AList.lookup_insert_ne hne).trans hsession
    | assignSkip server h =>
      rw [(p.shared.server.popIdleWorker_sessions server none h).1]
      exact hsession
    | assignWake server client threadsCount h =>
      rw [(p.shared.server.popIdleWorker_sessions server _ h).1]
      exact hsession
    | assignDispatch client left =>
      rw [dispatch_server, (p.shared.server.dispatchNextTask_sessions client).1]
      exact hsession
    | _ => exact hsession

theorem done_final (h : Reaches (step settings) guard System.initial p) {p' : System}
    (hrun : Reaches (step settings) guard p p') (search : Search)
    (hsearch : search ∈ p.shared.history.searches) (hlt : search.newTasks.length < 2 ^ 31)
    (session : SearchSession)
    (hsession : p.shared.server.sessions.lookup search.session.searchId = some session)
    (hdone : session.chunksDone = session.chunksTotal) :
    p'.shared.server.sessions.lookup search.session.searchId = some session := by
  refine hrun.invariant
    (fun q => q.shared.server.sessions.lookup search.session.searchId = some session) hsession ?_
  intro q e q' hreach hq _ hstep
  exact done_frozen (h.trans hreach) hstep search ((history_grows hreach).searches.subset hsearch) hlt
    session hq hdone

end

/-! ## The result -/

/-- **Polls go forward and `Done` is final.** Two polls of a published search, the second at any later
time. -/
theorem polls_monotone (settings : Settings) (p p' : System) (search : Search) (h : Reachable settings p)
    (hsearch : search ∈ p.shared.history.searches) (hrun : Reaches (step settings) Any p p')
    (hchunks : search.newTasks.length < 2 ^ 31)
    (htotals : answered p'.shared.history search.session.searchId < 2 ^ 64) :
    ∃ status status', p.shared.server.getStatus search.session.searchId = some status ∧
      p'.shared.server.getStatus search.session.searchId = some status' ∧
      status'.chunksTotal = status.chunksTotal ∧ status'.scanErrors = status.scanErrors ∧
      status.chunksDone ≤ status'.chunksDone ∧ status.totalMatches ≤ status'.totalMatches ∧
      status.linesFound ≤ status'.linesFound ∧ status'.chunksDone ≤ status'.chunksTotal ∧
      status'.linesFound ≤ search.request.config.maxResults ∧
      (status.state = .done → status' = status) := by
  have hgrows := history_grows hrun
  have hsearch' := hgrows.searches.subset hsearch
  have hreach' : Reachable settings p' := h.trans hrun
  obtain ⟨session, hsession, htallied, htotal, hdone, hle⟩ := session_of_search h search hsearch
  obtain ⟨session', hsession', htallied', htotal', hdone', hle'⟩ := session_of_search hreach' search hsearch'
  have hcounted : p.shared.history.counted.countP (·.searchId = search.session.searchId) ≤
      p'.shared.history.counted.countP (·.searchId = search.session.searchId) :=
    hgrows.counted.sublist.countP_le
  obtain ⟨hanswered, hlines⟩ := answered_mono hgrows search.session.searchId
  have hmax : session'.maxResults = session.maxResults := htallied'.maxResults.trans htallied.maxResults.symm
  have hconfig : session'.maxResults = search.request.config.maxResults := by
    have hprepared := (allPrepared h).searches search hsearch
    obtain ⟨⟨path, scanErrors, heq, -⟩, -⟩ := prepareSearch_spec settings _ _ _ _ _ hprepared.1 hprepared.2
    rw [htallied'.maxResults, heq]
  unfold MasterServer.getStatus
  rw [hsession, hsession']
  refine ⟨_, _, rfl, rfl, ?_, ?_, ?_, ?_, ?_, ?_, ?_, ?_⟩
  · exact htotal'.trans htotal.symm
  · exact htallied'.scanErrors.trans htallied.scanErrors.symm
  · show session.chunksDone ≤ session'.chunksDone
    rw [hdone, hdone', Int32.le_iff_toInt_le, Int32.toInt_ofNat_of_lt (by omega),
      Int32.toInt_ofNat_of_lt (by omega)]
    omega
  · show session.totalMatches ≤ session'.totalMatches
    rw [htallied.totalMatches, htallied'.totalMatches, UInt64.le_iff_toNat_le, UInt64.toNat_ofNat',
      UInt64.toNat_ofNat', Nat.mod_eq_of_lt (by omega), Nat.mod_eq_of_lt htotals]
    exact hanswered
  · show session.lineCount ≤ session'.lineCount
    rw [UInt64.le_iff_toNat_le, htallied.lineCount, htallied'.lineCount, hmax]
    exact min_le_min_left _ hlines
  · show session'.chunksDone ≤ session'.chunksTotal
    rw [hdone', htotal', Int32.le_iff_toInt_le, Int32.toInt_ofNat_of_lt (by omega),
      Int32.toInt_ofNat_of_lt hchunks]
    omega
  · show session'.lineCount ≤ search.request.config.maxResults
    rw [UInt64.le_iff_toNat_le, htallied'.lineCount, ← hconfig]
    exact Nat.min_le_left _ _
  · intro hstate
    have hfinished : session.chunksDone = session.chunksTotal := by
      by_contra hne
      simp [hne] at hstate
    have := done_final h hrun search hsearch hchunks session hsession hfinished
    obtain rfl : session' = session := Option.some.inj (hsession'.symm.trans this)
    rfl

/-- The two answers of the small run, the second with a match, and both chunks counted. -/
def bothAnswers : List Event :=
  [.run 0 {}, .run 0 {},
    .call (.onMessage 10000 (BatchCodec.taskDoneMessage
      { lines := [ascii "a.log: E"], taskId := 2, totalMatches := 1, linesFound := 1 })),
    .run 0 {}, .run 0 {}, .run 0 {}, .run 0 {}, .run 0 {}, .run 0 {}]

def afterBothAnswers : System := Runs.after (step {}) Any afterTwoChunks bothAnswers

theorem afterBothAnswers_later : Reaches (step {}) Any afterTwoChunks afterBothAnswers :=
  Runs.reaches_after bothAnswers .start (by decide +kernel)

theorem polls_monotone_two_chunks :
    ∃ search ∈ afterTwoChunks.shared.history.searches, ∃ status status',
      afterTwoChunks.shared.server.getStatus search.session.searchId = some status ∧
      afterBothAnswers.shared.server.getStatus search.session.searchId = some status' ∧
      status.chunksDone ≤ status'.chunksDone ∧ status.totalMatches ≤ status'.totalMatches := by
  obtain ⟨search, hsearch⟩ : ∃ search, search ∈ afterTwoChunks.shared.history.searches :=
    List.exists_mem_of_length_pos (by decide +kernel)
  have hchunks : ∀ search ∈ afterTwoChunks.shared.history.searches, search.newTasks.length < 2 ^ 31 := by
    decide +kernel
  have htotals : ∀ search ∈ afterTwoChunks.shared.history.searches,
      answered afterBothAnswers.shared.history search.session.searchId < 2 ^ 64 := by decide +kernel
  obtain ⟨status, status', h₁, h₂, -, -, h₃, h₄, -⟩ := polls_monotone {} afterTwoChunks afterBothAnswers
    search afterTwoChunks_reachable hsearch afterBothAnswers_later (hchunks search hsearch)
    (htotals search hsearch)
  exact ⟨search, hsearch, status, status', h₁, h₂, h₃, h₄⟩

/-- The small run ends with the search done. -/
example : (afterBothAnswers.shared.server.getStatus 0).map (fun status => (status.state, status.totalMatches)) =
    some (.done, 1) := by decide +kernel

end LogGrid.Master
