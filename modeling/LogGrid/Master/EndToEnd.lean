import LogGrid.BatchSize
import LogGrid.Master.ResultFile
import LogGrid.Master.TaskFidelity
import Mathlib.Algebra.Order.BigOperators.Group.List
import Mathlib.Data.List.Flatten

/-!
# A search from end to end

With workers that answer what they were asked, a search that is done has the
matching lines of its files: each chunk was answered once, and its answer was
added once.
-/

open LogGrid.Runs LogGrid.Ifstream LogGrid.FileProcessor LogGrid.BatchSize LogGrid.WorkerClient

namespace LogGrid.Master

/-! ## Each counted task was added, or its answer was lost -/

def handled : Pc → List TaskPayload
  | .doneLookup task _ | .doneWrite task _ _ | .doneCount task => [task]
  | _ => []

/-- The tasks whose batches were added, and those whose answers were not decoded, are those that threads
are done with. -/
def AddedOnce (sound : TaskPayload → Prop) (s : Shared) (threads : List Pc) : Prop :=
  ∃ lost : List TaskPayload, (∀ t ∈ lost, ¬ sound t) ∧
    (s.history.aggregated.map Prod.fst ++ lost).Perm (s.history.counted ++ threads.flatMap handled)

theorem handled_helloLoop (client left : Nat) : (helloLoop client left).toList.flatMap handled = [] :=
  flatMap_helloLoop handled client left rfl

theorem handled_assignLoop (client left : Nat) : handled (assignLoop client left) = [] := by
  rcases assignLoop_cases client left with h | h <;> rw [h] <;> rfl

theorem begin_handled {settings : Settings} (s : Shared) (op : Op) :
    (begin settings s op).2.toList.flatMap handled = [] := by
  apply begin_flatMap
  intro pc hpc
  cases hpc <;> rfl

/-- A section adds the batches of some tasks, and with the `lost` ones these are what it moves on. -/
def Moves (s s' : Shared) (pc : Pc) (next : Option Pc) (lost : List TaskPayload) : Prop :=
  ∃ added : List TaskPayload, s'.history.aggregated.map Prod.fst = added ++ s.history.aggregated.map Prod.fst ∧
    (added ++ lost ++ (s.history.counted ++ handled pc)).Perm (s'.history.counted ++ next.toList.flatMap handled)

theorem moves_nothing {s s' : Shared} {pc : Pc} {next : Option Pc}
    (haggregated : s'.history.aggregated = s.history.aggregated)
    (hmove : (s.history.counted ++ handled pc).Perm (s'.history.counted ++ next.toList.flatMap handled)) :
    Moves s s' pc next [] :=
  ⟨[], by rw [haggregated]; rfl, hmove⟩

theorem Ran.moves {settings : Settings} {choice : Choice} {s s' : Shared} {pc : Pc} {next : Option Pc}
    (h : Ran settings choice s pc s' next) : Moves s s' pc next [] ∨
      ∃ task msg, pc = .doneAggregate task msg ∧ Moves s s' pc next [task] ∧
        (decodeBatch choice msg = none ∨ task.searchId ∉ s.server.sessions) := by
  cases h with
  | helloRegister client threadsCount =>
    exact Or.inl (moves_nothing rfl (by rw [handled_helloLoop]; exact List.Perm.refl _))
  | helloDispatch client left =>
    refine Or.inl (moves_nothing rfl ?_)
    split
    · rw [handled_helloLoop]; exact List.Perm.refl _
    · exact List.Perm.refl _
  | batchLost task msg hlost =>
    refine Or.inr ⟨task, msg, rfl, ⟨[], rfl, ?_⟩, hlost⟩
    rw [show handled (.doneAggregate task msg) = [] from rfl, List.append_nil]
    exact (List.perm_append_singleton task s.history.counted).symm
  | doneAggregate task msg batch server linesToWrite hdecode hadd =>
    refine Or.inl ⟨[task], rfl, ?_⟩
    have hone : handled (if linesToWrite > 0 then .doneLookup task (batch.lines.take linesToWrite)
        else .doneCount task) = [task] := by
      split <;> rfl
    rw [Option.toList_some, List.flatMap_singleton, hone, show handled (.doneAggregate task msg) = [] from rfl,
      List.append_nil, List.append_nil]
    exact (List.perm_append_singleton task s.history.counted).symm
  | doneWrite task fullPath lines =>
    cases choice.opens <;> exact Or.inl (moves_nothing rfl (List.Perm.refl _))
  | doneCount task =>
    refine Or.inl (moves_nothing rfl ?_)
    rw [Option.toList_none, List.flatMap_nil, List.append_nil]
    exact List.perm_append_singleton task s.history.counted
  | assignWake server client threadsCount hpop =>
    refine Or.inl (moves_nothing rfl ?_)
    rw [Option.toList_some, List.flatMap_singleton, handled_assignLoop]
    exact List.Perm.refl _
  | assignDispatch client left =>
    refine Or.inl (moves_nothing rfl ?_)
    rw [Option.toList_some, List.flatMap_singleton]
    split
    · rw [handled_assignLoop]; exact List.Perm.refl _
    · exact List.Perm.refl _
  | _ => exact Or.inl (moves_nothing rfl (List.Perm.refl _))

theorem AddedOnce.move {sound : TaskPayload → Prop} {s s' : Shared} {pc : Pc} {next : Option Pc} {rest : List Pc}
    (h : AddedOnce sound s (pc :: rest)) (lost : List TaskPayload) (hlost : ∀ t ∈ lost, ¬ sound t)
    (hmoves : Moves s s' pc next lost) : AddedOnce sound s' (next.toList ++ rest) := by
  obtain ⟨old, hold, hperm⟩ := h
  obtain ⟨added, haggregated, hmove⟩ := hmoves
  refine ⟨lost ++ old, ?_, ?_⟩
  · intro t ht
    exact (List.mem_append.mp ht).elim (hlost t) (hold t)
  · rw [haggregated]
    rw [List.perm_iff_count] at hperm hmove ⊢
    intro t
    specialize hperm t
    specialize hmove t
    simp only [List.flatMap_append, List.flatMap_cons, List.count_append] at hperm hmove ⊢
    omega

/-! ## What is known of a task -/

section

variable {settings : Settings} {host : Host} {guard : System → Event → Prop} {p : System}

theorem Prepared.inChunk {search : Search} (h : Prepared settings search) : ∀ t ∈ search.newTasks, InChunk t := by
  obtain ⟨-, -, -, htasks⟩ := prepareSearch_spec settings _ _ _ _ _ h.1 h.2
  intro t ht
  rw [htasks] at ht
  obtain ⟨f, -, ht⟩ := List.mem_flatMap.mp ht
  have hlength := fileTasks_length_le _ _ _ f t ht
  obtain ⟨htile, -⟩ := fileTasks_spec search.request.keyword search.session.searchId search.request.config f
  obtain ⟨-, hstart, hend⟩ := htile.mem_bounds (List.mem_map_of_mem ht)
  have hsize := f.2.2
  unfold range at hstart hend
  exact ⟨by omega, by omega, hlength⟩

theorem ledger_task (h : Reaches (step settings) guard System.initial p) :
    ∀ t ∈ ledger p.shared p.threads, ∃ search ∈ p.shared.history.searches, anonymous t ∈ search.newTasks := by
  intro t ht
  obtain ⟨t', ht', heq⟩ := List.mem_map.mp ((conserved h).mem_iff.mp (List.mem_map_of_mem ht))
  obtain ⟨search, hsearch, hmem⟩ := List.mem_flatMap.mp ht'
  have hid := (((allPrepared h).searches search hsearch).task_searchId t' hmem).2
  have hself : anonymous t' = t' := by
    unfold anonymous
    rw [← hid]
  rw [hself] at heq
  exact ⟨search, hsearch, heq ▸ hmem⟩

theorem ledger_inChunk (h : Reaches (step settings) guard System.initial p) :
    ∀ t ∈ ledger p.shared p.threads, InChunk t := by
  intro t ht
  obtain ⟨search, hsearch, hmem⟩ := ledger_task h t ht
  exact ((allPrepared h).searches search hsearch).inChunk (anonymous t) hmem

theorem decodeBatch_answer (choice : Choice) (task : TaskPayload) (msg : Message) (hchunk : InChunk task)
    (hlines : ∀ line ∈ results host task, line.length < 2 ^ 32) (h : AnswerRest host task msg) :
    ∃ batch, decodeBatch choice msg = some batch ∧ batch.lines = results host task ∧
      batch.totalMatches.toNat = (hits host task).length := by
  obtain ⟨htotal, hresults, hcount⟩ := searchTask_results host task hchunk
  obtain ⟨reads, hdecode⟩ := deserialize_answer host task msg h hcount (by rw [hresults]; exact hlines)
  refine ⟨{ searchTask host task task.maxResults with searchId := UInt64.ofNat task.searchId, taskId := 0 }, ?_,
    hresults, htotal⟩
  simp only [decodeBatch, hdecode]

/-- No result line of a task is too long for its length field. -/
def Sound (host : Host) (task : TaskPayload) : Prop := ∀ line ∈ results host task, line.length < 2 ^ 32

/-- **Every task that is counted was added once**, apart from those with a line that is too long. -/
theorem addedOnce (hguard : ∀ q e, guard q e → Honest host q e)
    (h : Reaches (step settings) guard System.initial p) (hfit : IdsFit p.shared.server) :
    AddedOnce (Sound host) p.shared p.threads := by
  revert hfit
  apply system_invariant (fun s threads => IdsFit s.server → AddedOnce (Sound host) s threads) _ _ _ _ h
  · intro _
    exact ⟨[], by simp, List.Perm.refl _⟩
  · intro s l l' hperm hinv hfit
    obtain ⟨lost, hlost, hadded⟩ := hinv hfit
    exact ⟨lost, hlost, hadded.trans ((hperm.flatMap_right handled).append_left _)⟩
  · intro p op _ _ hinv hfit
    obtain ⟨-, hcounted, haggregated⟩ := begin_history settings p.shared op
    obtain ⟨lost, hlost, hadded⟩ := hinv (by rw [← begin_server settings p.shared op]; exact hfit)
    refine ⟨lost, hlost, ?_⟩
    rw [hcounted, haggregated, List.flatMap_append, begin_handled]
    exact hadded
  · intro p thread choice pc rest s' next hreach _ _ hthreads hinv hran hfit
    have hfit₀ := hfit.of_ran hran
    have hadded := hinv hfit₀
    rcases hran.moves with hmoves | ⟨task, msg, rfl, hmoves, hlost⟩
    · exact hadded.move [] (by simp) hmoves
    · refine hadded.move [task] ?_ hmoves
      intro t ht hsound
      rw [List.mem_singleton.mp ht] at hsound
      have hthread : .doneAggregate task msg ∈ p.threads := hthreads.mem_iff.mpr List.mem_cons_self
      have hledger : task ∈ ledger p.shared p.threads :=
        List.mem_append_left _ (List.mem_flatMap.mpr ⟨_, hthread, List.mem_cons_self⟩)
      obtain ⟨tasks, -, hhonest⟩ := allHonest hguard hreach
      have hrest : AnswerRest host task msg := (hhonest hfit₀).threads _ hthread
      obtain ⟨batch, hdecode, -⟩ :=
        decodeBatch_answer choice task msg (ledger_inChunk hreach task hledger) hsound hrest
      rcases hlost with hnone | hunknown
      · rw [hnone] at hdecode
        cases hdecode
      · exact hunknown (ledger_known hreach task hledger)

/-! ## A search that is done -/

theorem handled_subset_held (pc : Pc) : handled pc ⊆ held pc := by
  cases pc with
  | doneLookup task lines => exact List.Subset.refl _
  | doneWrite task fullPath lines => exact List.Subset.refl _
  | doneCount task => exact List.Subset.refl _
  | _ => exact List.nil_subset _

theorem Prepared.map_anonymous {search : Search} (h : Prepared settings search) :
    search.newTasks.map anonymous = search.newTasks := by
  refine (List.map_congr_left ?_).trans (List.map_id _)
  intro t ht
  unfold anonymous
  rw [← (h.task_searchId t ht).2]
  rfl

theorem filter_none {id : Nat} {tasks : List TaskPayload} (h : ∀ t ∈ tasks, t.searchId ≠ id) :
    tasks.filter (·.searchId = id) = [] :=
  List.filter_eq_nil_iff.mpr fun t ht => by simpa using h t ht

theorem done_counted (h : Reaches (step settings) guard System.initial p) (search : Search)
    (hsearch : search ∈ p.shared.history.searches) (hlt : search.newTasks.length < 2 ^ 31)
    (session : SearchSession)
    (hsession : p.shared.server.sessions.lookup search.session.searchId = some session)
    (hdone : session.chunksDone = session.chunksTotal) :
    ((p.shared.history.counted.filter (·.searchId = search.session.searchId)).map anonymous).Perm
      search.newTasks := by
  have hheld := done_not_held h search hsearch hlt session hsession hdone
  have hperm := (conserved h).filter (·.searchId = search.session.searchId)
  rw [List.filter_map, List.filter_map] at hperm
  have hpublished :
      (published p.shared.history).filter ((fun t => decide (t.searchId = search.session.searchId)) ∘ anonymous) =
      search.newTasks := published_filter h search hsearch
  have hledger :
      (ledger p.shared p.threads).filter ((fun t => decide (t.searchId = search.session.searchId)) ∘ anonymous) =
      p.shared.history.counted.filter (·.searchId = search.session.searchId) := by
    show (ledger p.shared p.threads).filter (·.searchId = search.session.searchId) = _
    unfold ledger
    rw [List.filter_append, List.filter_append,
      filter_none fun t ht => hheld t (List.mem_append_left _ ht),
      filter_none fun t ht => hheld t (List.mem_append_right _ ht), List.nil_append, List.append_nil]
  rw [hpublished, hledger, ((allPrepared h).searches search hsearch).map_anonymous] at hperm
  exact hperm

theorem done_added (hguard : ∀ q e, guard q e → Honest host q e)
    (h : Reaches (step settings) guard System.initial p) (hfit : IdsFit p.shared.server) (search : Search)
    (hsearch : search ∈ p.shared.history.searches) (hlt : search.newTasks.length < 2 ^ 31)
    (hsound : ∀ t ∈ search.newTasks, Sound host t) (session : SearchSession)
    (hsession : p.shared.server.sessions.lookup search.session.searchId = some session)
    (hdone : session.chunksDone = session.chunksTotal) :
    ((p.shared.history.aggregated.filter (·.1.searchId = search.session.searchId)).map
      fun x => anonymous x.1).Perm search.newTasks := by
  have hheld := done_not_held h search hsearch hlt session hsession hdone
  obtain ⟨lost, hlost, hadded⟩ := addedOnce hguard h hfit
  have hledger : ∀ t ∈ p.shared.history.counted ++ p.threads.flatMap handled, t ∈ ledger p.shared p.threads := by
    intro t ht
    unfold ledger
    rcases List.mem_append.mp ht with ht | ht
    · exact List.mem_append_right _ (List.mem_append_left _ ht)
    · obtain ⟨pc, hpc, ht⟩ := List.mem_flatMap.mp ht
      exact List.mem_append_left _ (List.mem_flatMap.mpr ⟨pc, hpc, handled_subset_held pc ht⟩)
  -- A lost answer was for a task with a long line, and the search has none of these.
  have hnone : lost.filter (·.searchId = search.session.searchId) = [] := by
    apply filter_none
    intro t ht hid
    obtain ⟨search', hsearch', hmem⟩ := ledger_task h t
      (hledger t (hadded.mem_iff.mp (List.mem_append_right _ ht)))
    have hid' := (((allPrepared h).searches search' hsearch').task_searchId _ hmem).1
    obtain rfl := search_unique h hsearch' hsearch (hid'.symm.trans hid)
    exact hlost t ht (hsound (anonymous t) hmem)
  have hhandled : (p.threads.flatMap handled).filter (·.searchId = search.session.searchId) = [] := by
    apply filter_none
    intro t ht
    obtain ⟨pc, hpc, ht⟩ := List.mem_flatMap.mp ht
    exact hheld t (List.mem_append_left _ (List.mem_flatMap.mpr ⟨pc, hpc, handled_subset_held pc ht⟩))
  have hperm := hadded.filter (·.searchId = search.session.searchId)
  rw [List.filter_append, List.filter_append, hnone, hhandled, List.append_nil, List.append_nil,
    List.filter_map] at hperm
  have hcounted := done_counted h search hsearch hlt session hsession hdone
  have := (hperm.map anonymous).trans hcounted
  rw [List.map_map] at this
  exact this

/-- **The batches of a search that is done are its tasks' results.** -/
theorem done_batches (hguard : ∀ q e, guard q e → Honest host q e)
    (h : Reaches (step settings) guard System.initial p) (hfit : IdsFit p.shared.server) (search : Search)
    (hsearch : search ∈ p.shared.history.searches) (hlt : search.newTasks.length < 2 ^ 31)
    (hsound : ∀ t ∈ search.newTasks, Sound host t) (session : SearchSession)
    (hsession : p.shared.server.sessions.lookup search.session.searchId = some session)
    (hdone : session.chunksDone = session.chunksTotal) :
    ((batches p.shared.history search.session.searchId).map
      fun batch => (batch.lines, batch.totalMatches.toNat)).Perm
      (search.newTasks.map fun t => (results host t, (hits host t).length)) := by
  have hadded := done_added hguard h hfit search hsearch hlt hsound session hsession hdone
  have hchunk := ((allPrepared h).searches search hsearch).inChunk
  obtain ⟨tasks, -, hhonest⟩ := allHonest hguard h
  have hresult : ∀ x ∈ p.shared.history.aggregated.filter (·.1.searchId = search.session.searchId),
      (x.2.lines, x.2.totalMatches.toNat) =
        (results host (anonymous x.1), (hits host (anonymous x.1)).length) := by
    intro x hx
    have hmem := hadded.mem_iff.mp (List.mem_map_of_mem (f := fun x => anonymous x.1) hx)
    obtain ⟨choice, msg, hrest, hdecode⟩ := (hhonest hfit).aggregated x (List.mem_filter.mp hx).1
    obtain ⟨batch, hbatch, hlines, htotal⟩ := decodeBatch_answer choice x.1 msg (hchunk (anonymous x.1) hmem)
      (hsound (anonymous x.1) hmem) hrest
    rw [hdecode, Option.some.injEq] at hbatch
    rw [hbatch, hlines, htotal]
    rfl
  unfold batches
  rw [List.map_map]
  refine (List.Perm.of_eq (List.map_congr_left hresult)).trans ?_
  have := hadded.map fun t => (results host t, (hits host t).length)
  rwa [List.map_map] at this

/-! ## The files of a search -/

/-- The result lines that the files of a search give, each as often as it occurs. -/
def allMatches (host : Host) (search : Search) : List Bytes :=
  search.files.flatMap fun f =>
    match host.openFile f.1, host.regex (CharArray.strncpy 64 search.request.keyword).cStr with
    | some file, some pattern => matching pattern f.1 file 0 file.bytes.length
    | _, _ => []

/-- The workers read the files that the scan found, in the sizes that it found. -/
def Unchanged (host : Host) (search : Search) : Prop :=
  ∀ f ∈ search.files, ∃ file, host.openFile f.1 = some file ∧ file.bytes.length = f.2.val.toNat

theorem fileTasks_hits (keyword : Bytes) (searchId : Nat) (config : SearchConfig) (f : Bytes × FileSize)
    (hfit : Fits f.1) (file : LogFile) (hopen : host.openFile f.1 = some file)
    (hsize : file.bytes.length = f.2.val.toNat) :
    (fileTasks keyword searchId config f).flatMap (hits host) =
      match host.openFile f.1, host.regex (CharArray.strncpy 64 keyword).cStr with
      | some file, some pattern => matching pattern f.1 file 0 file.bytes.length
      | _, _ => [] := by
  obtain ⟨htile, hsame⟩ := fileTasks_spec keyword searchId config f
  have hname := fileTasks_filename keyword searchId config f hfit
  have hkeyword : ∀ t ∈ fileTasks keyword searchId config f, t.keyword = .strncpy 64 keyword := by
    intro t ht
    rw [hsame t ht]
    rfl
  rw [hopen]
  cases hregex : host.regex (CharArray.strncpy 64 keyword).cStr with
  | none =>
    refine List.flatMap_eq_nil_iff.mpr fun t ht => ?_
    unfold hits
    rw [hname t ht, hkeyword t ht, hopen, hregex]
  | some pattern =>
    simp only
    rw [← hsize] at htile
    rw [← ChunkedSearch.flatMap_matching pattern f.1 file _ _ htile]
    refine List.flatMap_congr fun t ht => ?_
    unfold hits
    rw [hname t ht, hkeyword t ht, hopen, hregex]

theorem Prepared.hits_eq {search : Search} (h : Prepared settings search) (hunchanged : Unchanged host search) :
    search.newTasks.flatMap (hits host) = allMatches host search := by
  obtain ⟨-, -, hfit, htasks⟩ := prepareSearch_spec settings _ _ _ _ _ h.1 h.2
  rw [htasks, List.flatMap_assoc]
  unfold allMatches
  refine List.flatMap_congr fun f hf => ?_
  obtain ⟨file, hopen, hsize⟩ := hunchanged f hf
  exact fileTasks_hits search.request.keyword search.session.searchId search.request.config f (hfit f hf) file
    hopen hsize

theorem hits_length_le (task : TaskPayload) (h : InChunk task) : (hits host task).length ≤ chunkSize.toNat := by
  obtain ⟨-, -, hchunk⟩ := h
  unfold hits
  split
  · rename_i file pattern _ _
    have hle := matching_length_le pattern task.filename.cStr file task.startOffset.toNat task.endOffset.toNat
    have hstarts := Lines.starts_length_le newline file.bytes task.startOffset.toNat task.endOffset.toNat
    omega
  · exact Nat.zero_le _

theorem Prepared.maxResults {search : Search} (h : Prepared settings search) :
    search.session.maxResults = search.request.config.maxResults ∧
      ∀ t ∈ search.newTasks, t.maxResults = search.request.config.maxResults := by
  obtain ⟨⟨path, scanErrors, hsession, -⟩, -⟩ := prepareSearch_spec settings _ _ _ _ _ h.1 h.2
  refine ⟨by rw [hsession], fun t ht => ?_⟩
  obtain ⟨f, -, -, hsame⟩ := h.task_file t ht
  rw [hsame]
  rfl

theorem min_sum_min (limit : Nat) (l : List Nat) : min limit (l.map (min limit)).sum = min limit l.sum := by
  induction l with
  | nil => rfl
  | cons n l ih =>
    rw [List.map_cons, List.sum_cons, List.sum_cons]
    omega

/-! ## A poll that says Done -/

theorem Prepared.allMatches_lt {search : Search} (h : Prepared settings search)
    (hunchanged : Unchanged host search)
    (hlt : search.newTasks.length < 2 ^ 31) : (allMatches host search).length < 2 ^ 64 := by
  have hsum := List.sum_le_card_nsmul (search.newTasks.map fun t => (hits host t).length) chunkSize.toNat
    (List.forall_mem_map.mpr fun t ht => hits_length_le t (h.inChunk t ht))
  have hchunk : chunkSize.toNat < 2 ^ 32 := by decide
  rw [← h.hits_eq hunchanged, List.length_flatMap]
  rw [List.length_map, Nat.nsmul_eq_mul] at hsum
  calc _ ≤ search.newTasks.length * chunkSize.toNat := hsum
    _ ≤ search.newTasks.length * 2 ^ 32 := Nat.mul_le_mul_left _ (by omega)
    _ < 2 ^ 64 := by omega

theorem done_answered (hguard : ∀ q e, guard q e → Honest host q e)
    (h : Reaches (step settings) guard System.initial p) (hfit : IdsFit p.shared.server) (search : Search)
    (hsearch : search ∈ p.shared.history.searches) (hunchanged : Unchanged host search)
    (hlt : search.newTasks.length < 2 ^ 31) (hsound : ∀ t ∈ search.newTasks, Sound host t)
    (session : SearchSession)
    (hsession : p.shared.server.sessions.lookup search.session.searchId = some session)
    (hdone : session.chunksDone = session.chunksTotal) :
    answered p.shared.history search.session.searchId = (allMatches host search).length ∧
      min search.request.config.maxResults.toNat (answeredLines p.shared.history search.session.searchId) =
        min search.request.config.maxResults.toNat (allMatches host search).length ∧
      ((batches p.shared.history search.session.searchId).flatMap (·.lines)).Subperm (allMatches host search) := by
  have hprepared := (allPrepared h).searches search hsearch
  have hbatches := done_batches hguard h hfit search hsearch hlt hsound session hsession hdone
  have hresults : ∀ t ∈ search.newTasks,
      results host t = (hits host t).take search.request.config.maxResults.toNat := by
    intro t ht
    rw [← hprepared.maxResults.2 t ht]
    rfl
  have hlength : (search.newTasks.map fun t => (hits host t).length).sum = (allMatches host search).length := by
    rw [← hprepared.hits_eq hunchanged, List.length_flatMap]
  refine ⟨?_, ?_, ?_⟩
  · have hsum := (hbatches.map Prod.snd).sum_eq
    rw [List.map_map, List.map_map] at hsum
    exact hsum.trans hlength
  · have hsum := (hbatches.map fun x => x.1.length).sum_eq
    rw [List.map_map, List.map_map] at hsum
    have hcut : search.newTasks.map (fun t => (results host t).length) =
        (search.newTasks.map fun t => (hits host t).length).map (min search.request.config.maxResults.toNat) := by
      rw [List.map_map]
      refine List.map_congr_left fun t ht => ?_
      rw [hresults t ht, List.length_take]
      rfl
    rw [← hlength, ← min_sum_min, ← hcut]
    exact congrArg _ hsum
  · have hlines := (hbatches.map Prod.fst).flatten
    rw [List.map_map, List.map_map] at hlines
    rw [← hprepared.hits_eq hunchanged]
    refine (List.Perm.subperm hlines).trans (List.Sublist.subperm ?_)
    show (search.newTasks.flatMap (results host)).Sublist (search.newTasks.flatMap (hits host))
    exact List.Sublist.flatMap_right _ fun t ht => List.take_sublist _ _

end

/-- **End to end, exactly once.** Whatever the workers are told to search, in whatever order the sections
run and wherever connections are lost: a poll that says `Done` has counted every matching line of the
files once, and the result file holds as many of them as the limit allows. -/
theorem end_to_end (settings : Settings) (host : Host) (p : System)
    (h : Reaches (step settings) (Honest host) System.initial p) (hfit : IdsFit p.shared.server)
    (search : Search) (hsearch : search ∈ p.shared.history.searches) (hunchanged : Unchanged host search)
    (hchunks : search.newTasks.length < 2 ^ 31) (hsound : ∀ t ∈ search.newTasks, Sound host t)
    (status : SearchStatus) (hstatus : p.shared.server.getStatus search.session.searchId = some status)
    (hdone : status.state = .done) :
    status.totalMatches.toNat = (allMatches host search).length ∧
      status.linesFound.toNat = min search.request.config.maxResults.toNat (allMatches host search).length ∧
      ∃ written, p.shared.files search.session.path = fileOf written ∧
        written.length = status.linesFound.toNat ∧ written.Subperm (allMatches host search) := by
  obtain ⟨session, hsession, htallied, -⟩ := session_of_search h search hsearch
  have hprepared := (allPrepared h).searches search hsearch
  have hmax := hprepared.maxResults.1
  unfold MasterServer.getStatus at hstatus
  rw [hsession, Option.map_some, Option.some.injEq] at hstatus
  subst hstatus
  have hfinished : session.chunksDone = session.chunksTotal := by
    by_contra hne
    simp [hne] at hdone
  obtain ⟨htotal, hlines, hsub⟩ := done_answered (fun _ _ => id) h hfit search hsearch hunchanged hchunks hsound
    session hsession hfinished
  have hfound : session.lineCount.toNat =
      min search.request.config.maxResults.toNat (allMatches host search).length := by
    rw [htallied.lineCount, htallied.maxResults, hmax, hlines]
  refine ⟨?_, hfound, ?_⟩
  · have hsmall := hprepared.allMatches_lt hunchanged hchunks
    simp only
    rw [htallied.totalMatches, htotal, UInt64.toNat_ofNat', Nat.mod_eq_of_lt hsmall]
  · obtain ⟨written, hfile, hlength, hwritten⟩ :=
      (resultFiles (fun _ _ _ hone => hone) h).accounted search hsearch
    have hheld := done_not_held h search hsearch hchunks session hsession hfinished
    have hnone : p.threads.flatMap (unwritten search.session.searchId) = [] := by
      refine List.flatMap_eq_nil_iff.mpr fun pc hpc => List.eq_nil_iff_forall_not_mem.mpr fun line hline => ?_
      obtain ⟨t, ht, hid⟩ := held_of_unwritten _ pc line hline
      exact hheld t (List.mem_append_left _ (List.mem_flatMap.mpr ⟨pc, hpc, ht⟩)) hid
    rw [hnone, List.append_nil] at hlength hwritten
    refine ⟨written, hfile, ?_, hwritten.trans hsub⟩
    rw [hlength, hmax, hlines]
    exact hfound.symm

/-! ## Two small searches -/

def oneFileHost (file : LogFile) : Host where
  openFile name := if name = smallTarget then some file else none
  regex keyword := if keyword = ascii "E" then some (fun line => decide (ch 'E' ∈ line)) else none
  uninit := 0

/-- A search of a file of eight bytes, a worker with one thread, and its answer. -/
def oneChunk : List Event :=
  [.call (searchFile ⟨8, by decide⟩), .run 0 {}, .run 0 {}, .run 0 {},
    .call (.onMessage 10000 (helloMessage 1)), .run 0 {}, .run 0 {},
    .call (.onMessage 10000 (BatchCodec.taskDoneMessage {
      lines := [ascii "/app/data/a.log: E1", ascii "/app/data/a.log: E2"]
      taskId := 1
      totalMatches := 2
      linesFound := 2 })), .run 0 {}, .run 0 {}, .run 0 {}, .run 0 {}, .run 0 {}, .run 0 {}]

def afterOneChunk : System :=
  Runs.after (step {}) (Honest (oneFileHost ChunkedSearch.smallFile)) System.initial oneChunk

theorem end_to_end_one_chunk : ∃ search ∈ afterOneChunk.shared.history.searches,
    ∃ status, afterOneChunk.shared.server.getStatus search.session.searchId = some status ∧ status.state = .done ∧
      status.totalMatches.toNat = (allMatches (oneFileHost ChunkedSearch.smallFile) search).length := by
  have hreach : Reaches (step {}) (Honest (oneFileHost ChunkedSearch.smallFile)) System.initial afterOneChunk :=
    Runs.reaches_after oneChunk .start (by decide +kernel)
  obtain ⟨search, hsearch⟩ : ∃ search, search ∈ afterOneChunk.shared.history.searches :=
    List.exists_mem_of_length_pos (by decide +kernel)
  have hfiles : ∀ search ∈ afterOneChunk.shared.history.searches,
      search.files = [(smallTarget, ⟨8, by decide⟩)] := by
    decide +kernel
  have hfew : ∀ search ∈ afterOneChunk.shared.history.searches, search.newTasks.length < 2 ^ 31 := by
    decide +kernel
  have hsound : ∀ search ∈ afterOneChunk.shared.history.searches, ∀ t ∈ search.newTasks,
      ∀ line ∈ results (oneFileHost ChunkedSearch.smallFile) t, line.length < 2 ^ 32 := by decide +kernel
  have hdone : ∀ search ∈ afterOneChunk.shared.history.searches,
      (afterOneChunk.shared.server.getStatus search.session.searchId).map (·.state) = some .done := by
    decide +kernel
  obtain ⟨status, hstatus, hstate⟩ := Option.map_eq_some_iff.mp (hdone search hsearch)
  have hunchanged : Unchanged (oneFileHost ChunkedSearch.smallFile) search := by
    intro f hf
    rw [hfiles search hsearch, List.mem_singleton] at hf
    subst hf
    exact ⟨ChunkedSearch.smallFile, rfl, rfl⟩
  obtain ⟨htotal, -, -⟩ := end_to_end {} (oneFileHost ChunkedSearch.smallFile) afterOneChunk hreach
    ⟨by decide +kernel, by decide +kernel⟩ search hsearch hunchanged (hfew search hsearch) (hsound search hsearch)
    status hstatus hstate
  exact ⟨search, hsearch, status, hstatus, hstate, htotal⟩

def endlessSize : FileSize := ⟨22517998136852480, by decide⟩

def endlessFile : LogFile where
  bytes := List.replicate endlessSize.val.toNat (ch 'E')
  length_lt := by rw [List.length_replicate]; exact endlessSize.2

theorem endless_matches (search : Search) (hfiles : search.files = [(smallTarget, endlessSize)])
    (hkeyword : search.request.keyword = ascii "E") :
    (allMatches (oneFileHost endlessFile) search).length = 1 := by
  have hopen : (oneFileHost endlessFile).openFile smallTarget = some endlessFile := by
    unfold oneFileHost
    simp only [if_true]
  have hregex : (oneFileHost endlessFile).regex (CharArray.strncpy 64 (ascii "E")).cStr =
      some (fun line => decide (ch 'E' ∈ line)) := by
    rw [show (CharArray.strncpy 64 (ascii "E")).cStr = ascii "E" by decide]
    unfold oneFileHost
    simp only [if_true]
  have hpos : 0 < endlessSize.val.toNat := by decide
  have hlength : endlessFile.bytes.length = endlessSize.val.toNat := List.length_replicate
  have hbytes : endlessFile.bytes = List.replicate (endlessSize.val.toNat - 1 + 1) (ch 'E') := by
    rw [Nat.sub_add_cancel hpos]
    rfl
  have hone :=
    matching_one_line smallTarget endlessFile _ endlessFile.bytes.length hbytes (by rw [hlength]; exact hpos)
  unfold allMatches
  rw [hfiles, hkeyword, List.flatMap_singleton, hopen, hregex]
  simp only
  rw [hone]
  rfl

theorem lone_publish (host : Host) (size : FileSize) (hsize : size.val ≠ 0) :
    ∃ (p : System) (session : SearchSession),
    Reaches (step {}) (Honest host) System.initial p ∧ session.searchId = 0 ∧
      let newTasks := fileTasks (ascii "E") 0 {} (smallTarget, size)
      p.shared.server = ({} : MasterServer).allocateSearchId.2.addPendingTasks session newTasks ∧
      p.shared.history.searches =
        [{ request := searchRequest size, target := smallTarget, session, newTasks }] := by
  obtain ⟨session, hid, hprepare⟩ := prepareSearch_small size hsize
  have htarget : resolveTarget {} (searchRequest size) = .ok smallTarget := rfl
  generalize fileTasks (ascii "E") 0 {} (smallTarget, size) = newTasks at hprepare ⊢
  let search : Search := { request := searchRequest size, target := smallTarget, session, newTasks }
  let s₁ : Shared := { server := ({} : MasterServer).allocateSearchId.2 }
  let s₂ : Shared := {
    server := s₁.server.addPendingTasks session newTasks
    history := { searches := [search] } }
  have hcall : step {} System.initial (.call (searchFile size)) =
      some ⟨{}, [.searchAllocate (searchRequest size) smallTarget]⟩ := by
    simp only [Threads.step, searchFile, begin, htarget]
    rfl
  have hallocate : exec {} {} {} (.searchAllocate (searchRequest size) smallTarget) =
      some (s₁, some (.searchPublish search)) := by
    simp only [exec, MasterServer.allocateSearchId, hprepare]
    rfl
  have hpublish : exec {} {} s₁ (.searchPublish search) = some (s₂, some .assign) := rfl
  refine ⟨⟨s₂, [.assign]⟩, session, ?_, hid, rfl, rfl⟩
  exact ((Reaches.start.step _ trivial hcall).step (.run 0 {}) rfl (Threads.step_single hallocate)).step (.run 0 {})
    rfl (Threads.step_single hpublish)

/-- The search is done before any chunk of it is, with no match of the one there is. -/
theorem done_uncounted : ∃ p search status, Reaches (step {}) (Honest (oneFileHost endlessFile)) System.initial p ∧
    IdsFit p.shared.server ∧ search ∈ p.shared.history.searches ∧ Unchanged (oneFileHost endlessFile) search ∧
    p.shared.server.getStatus search.session.searchId = some status ∧ status.state = .done ∧
    status.totalMatches.toNat = 0 ∧ (allMatches (oneFileHost endlessFile) search).length = 1 := by
  obtain ⟨p, session, hreach, hid, hserver, hsearches⟩ :=
    lone_publish (oneFileHost endlessFile) endlessSize (by decide)
  have hlength : (fileTasks (ascii "E") 0 {} (smallTarget, endlessSize)).length = 2 ^ 32 := by
    have hchunk : chunkSize.toNat = 5242880 := rfl
    have hsize : endlessSize.val.toNat = 22517998136852480 := rfl
    rw [fileTasks_length, hchunk]
    simp only [hsize]
    omega
  generalize fileTasks (ascii "E") 0 {} (smallTarget, endlessSize) = newTasks at hserver hsearches hlength
  let search : Search := { request := searchRequest endlessSize, target := smallTarget, session, newTasks }
  have hsearch : search ∈ p.shared.history.searches := by
    rw [hsearches]
    exact List.mem_singleton_self _
  obtain ⟨hdone, htotal, -⟩ := ((allPrepared hreach).searches search hsearch).session_eq
  have hfiles : search.files = [(smallTarget, endlessSize)] := rfl
  have hopen : (oneFileHost endlessFile).openFile smallTarget = some endlessFile := by
    unfold oneFileHost
    simp only [if_true]
  -- The number of chunks is zero as an `int`.
  have hzero : Int32.ofNat newTasks.length = 0 := by
    rw [hlength]
    rfl
  have hstatus : p.shared.server.getStatus session.searchId = some {
      state := .done
      linesFound := session.lineCount
      totalMatches := 0
      scanErrors := session.scanErrors
      chunksDone := 0
      chunksTotal := 0 } := by
    unfold MasterServer.getStatus
    rw [hserver]
    unfold MasterServer.addPendingTasks MasterServer.insertSession
    simp only [AList.lookup_insert, Option.map_some, hzero]
    rw [show session.chunksDone = 0 from hdone, show session.totalMatches = 0 from htotal, if_pos rfl]
  refine ⟨p, search, _, hreach, ?_, hsearch, ?_, hstatus, rfl, rfl, endless_matches search hfiles rfl⟩
  · rw [hserver]
    have hids : 0 < 2 ^ 64 ∧ 1 ≤ 2 ^ 64 := by decide
    exact hids
  · intro f hf
    rw [hfiles, List.mem_singleton] at hf
    subst hf
    exact ⟨endlessFile, hopen, List.length_replicate⟩

end LogGrid.Master
