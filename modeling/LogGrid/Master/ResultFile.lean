import LogGrid.Master.Polling

/-!
# The result file of a session

What is in the file, and what threads still have to write, are lines of the
batches that were added, as many as the session's line count says. Sessions
have files of their own.
-/

open LogGrid.Runs

namespace LogGrid.Master

/-- The lines that a thread still has to write for a search. -/
def unwritten (id : Nat) : Pc → List Bytes
  | .doneLookup task lines => if task.searchId = id then lines else []
  | .doneWrite task _ lines => if task.searchId = id then lines else []
  | _ => []

def fileOf (lines : List Bytes) : Bytes := lines.flatMap (· ++ [10])

/-- The lines for a search, in its file or still to be written, are lines of its batches. -/
def Accounted (s : Shared) (threads : List Pc) (search : Search) : Prop :=
  ∃ written, s.files search.session.path = fileOf written ∧
    (written ++ threads.flatMap (unwritten search.session.searchId)).length =
      min search.session.maxResults.toNat (answeredLines s.history search.session.searchId) ∧
    (written ++ threads.flatMap (unwritten search.session.searchId)).Subperm
      ((batches s.history search.session.searchId).flatMap (·.lines))

structure ResultFiles (s : Shared) (threads : List Pc) : Prop where
  accounted : ∀ search ∈ s.history.searches, Accounted s threads search
  elsewhere : ∀ path, (∀ search ∈ s.history.searches, search.session.path ≠ path) → s.files path = []
  writers : ∀ task fullPath lines, Pc.doneWrite task fullPath lines ∈ threads →
    ∃ search ∈ s.history.searches, search.session.searchId = task.searchId ∧ fullPath = search.session.path

section

variable {settings : Settings} {guard : System → Event → Prop} {p : System}

theorem path_unique {search search' : Search} (h : Prepared settings search) (h' : Prepared settings search')
    (hpath : search.session.path = search'.session.path) : search.session.searchId = search'.session.searchId := by
  obtain ⟨⟨path, scanErrors, hsession, hcreate⟩, -⟩ := prepareSearch_spec settings _ _ _ _ _ h.1 h.2
  obtain ⟨⟨path', scanErrors', hsession', hcreate'⟩, -⟩ := prepareSearch_spec settings _ _ _ _ _ h'.1 h'.2
  have hsame : path = path' := by rw [hsession, hsession'] at hpath; exact hpath
  exact createSessionFilePath_id _ _ _ _ _ _ _ _ _ _ path hcreate (hsame ▸ hcreate')

theorem Accounted.congr {s s' : Shared} {threads threads' : List Pc} {search : Search}
    (h : Accounted s threads search) (hfiles : s'.files search.session.path = s.files search.session.path)
    (haggregated : s'.history.aggregated = s.history.aggregated)
    (hthreads : (threads.flatMap (unwritten search.session.searchId)).Perm
      (threads'.flatMap (unwritten search.session.searchId))) : Accounted s' threads' search := by
  obtain ⟨written, hfile, hlength, hsub⟩ := h
  have hperm := hthreads.append_left written
  have hbatches : batches s'.history search.session.searchId = batches s.history search.session.searchId := by
    unfold batches
    rw [haggregated]
  refine ⟨written, hfiles.trans hfile, ?_, ?_⟩
  · unfold answeredLines
    rw [← hperm.length_eq, hlength, hbatches]
    rfl
  · rw [hbatches]
    exact hperm.symm.subperm.trans hsub

theorem ResultFiles.congr {s s' : Shared} {threads threads' : List Pc} (h : ResultFiles s threads)
    (hfiles : s'.files = s.files) (hsearches : s'.history.searches = s.history.searches)
    (haggregated : s'.history.aggregated = s.history.aggregated)
    (hthreads : ∀ id, (threads.flatMap (unwritten id)).Perm (threads'.flatMap (unwritten id)))
    (hwriters : ∀ task fullPath lines, Pc.doneWrite task fullPath lines ∈ threads' →
      Pc.doneWrite task fullPath lines ∈ threads) : ResultFiles s' threads' := by
  constructor
  · rw [hsearches]
    intro search hsearch
    exact (h.accounted search hsearch).congr (by rw [hfiles]) haggregated (hthreads _)
  · rw [hsearches, hfiles]
    exact h.elsewhere
  · rw [hsearches]
    exact fun task fullPath lines hmem => h.writers task fullPath lines (hwriters task fullPath lines hmem)

/-! ## Sections with nothing to write -/

def NothingToWrite (pc : Pc) : Prop :=
  (∀ id, unwritten id pc = []) ∧ ∀ task fullPath lines, pc ≠ .doneWrite task fullPath lines

theorem nothingToWrite_helloLoop (client left : Nat) : ∀ pc ∈ helloLoop client left, NothingToWrite pc := by
  intro pc hpc
  rw [mem_helloLoop hpc]
  exact ⟨fun _ => rfl, nofun⟩

theorem nothingToWrite_assignLoop (client left : Nat) : NothingToWrite (assignLoop client left) := by
  rcases assignLoop_cases client left with h | h <;> rw [h] <;> exact ⟨fun _ => rfl, nofun⟩

theorem begin_nothingToWrite (s : Shared) (op : Op) : ∀ pc ∈ (begin settings s op).2, NothingToWrite pc := by
  intro pc hpc
  cases begin_begun settings s op pc hpc <;> exact ⟨fun _ => rfl, nofun⟩

theorem ResultFiles.idle {s s' : Shared} {next : Option Pc} {rest : List Pc} (old : Option Pc)
    (h : ResultFiles s (old.toList ++ rest)) (hfiles : s'.files = s.files)
    (hsearches : s'.history.searches = s.history.searches)
    (haggregated : s'.history.aggregated = s.history.aggregated)
    (hold : ∀ pc ∈ old, ∀ id, unwritten id pc = []) (hnext : ∀ pc ∈ next, NothingToWrite pc) :
    ResultFiles s' (next.toList ++ rest) := by
  apply h.congr hfiles hsearches haggregated
  · intro id
    rw [List.flatMap_append, List.flatMap_append,
      List.flatMap_eq_nil_iff.mpr fun pc hpc => hold pc (Option.mem_toList.mp hpc) id,
      List.flatMap_eq_nil_iff.mpr fun pc hpc => (hnext pc (Option.mem_toList.mp hpc)).1 id]
  · intro task fullPath lines hmem
    rcases List.mem_append.mp hmem with hmem | hmem
    · exact absurd rfl ((hnext _ (Option.mem_toList.mp hmem)).2 task fullPath lines)
    · exact List.mem_append_right _ hmem

/-! ## A batch is added, written, and a search published -/

theorem Accounted.add {s : Shared} {rest : List Pc} {search : Search} {pc next : Pc} {server : MasterServer}
    (h : Accounted s (pc :: rest) search) (task : TaskPayload) (batch : ChunkResult) (lines : List Bytes)
    (hlines : lines = batch.lines.take (min batch.lines.length (search.session.maxResults.toNat -
      min search.session.maxResults.toNat (answeredLines s.history search.session.searchId))))
    (hid : task.searchId = search.session.searchId) (hpc : unwritten search.session.searchId pc = [])
    (hnext : unwritten search.session.searchId next = lines) :
    Accounted { s with server, history := { s.history with aggregated := (task, batch) :: s.history.aggregated } }
      (next :: rest) search := by
  obtain ⟨written, hfile, hlength, hsub⟩ := h
  have hnew : batches { s.history with aggregated := (task, batch) :: s.history.aggregated }
      search.session.searchId = batch :: batches s.history search.session.searchId := by
    rw [batches_cons, if_pos hid]
  have htake : lines.length = min batch.lines.length (search.session.maxResults.toNat -
      min search.session.maxResults.toNat (answeredLines s.history search.session.searchId)) := by
    rw [hlines, List.length_take]
    omega
  rw [List.flatMap_cons, hpc, List.nil_append] at hlength hsub
  refine ⟨written, hfile, ?_, ?_⟩
  · rw [List.flatMap_cons, hnext]
    unfold answeredLines at hlength htake ⊢
    rw [hnew, List.map_cons, List.sum_cons]
    simp only [List.length_append] at hlength ⊢
    omega
  · rw [List.flatMap_cons, hnext, hnew, List.flatMap_cons]
    have htaken : lines.Subperm batch.lines := by
      rw [hlines]
      exact (List.take_sublist _ _).subperm
    exact (List.perm_append_comm_assoc _ _ _).subperm.trans (htaken.append hsub)

theorem Accounted.other {s s' : Shared} {rest : List Pc} {search : Search} {pc next : Pc}
    (h : Accounted s (pc :: rest) search) (hfiles : s'.files search.session.path = s.files search.session.path)
    (hbatches : batches s'.history search.session.searchId = batches s.history search.session.searchId)
    (hpc : unwritten search.session.searchId pc = []) (hnext : unwritten search.session.searchId next = []) :
    Accounted s' (next :: rest) search := by
  obtain ⟨written, hfile, hlength, hsub⟩ := h
  rw [List.flatMap_cons, hpc, List.nil_append] at hlength hsub
  refine ⟨written, hfiles.trans hfile, ?_, ?_⟩
  · rw [List.flatMap_cons, hnext, List.nil_append, hlength]
    unfold answeredLines
    rw [hbatches]
  · rw [List.flatMap_cons, hnext, List.nil_append, hbatches]
    exact hsub

theorem fileOf_append (lines lines' : List Bytes) : fileOf (lines ++ lines') = fileOf lines ++ fileOf lines' :=
  List.flatMap_append

theorem Accounted.write {s : Shared} {rest : List Pc} {search : Search} (task : TaskPayload)
    (lines : List Bytes) (h : Accounted s (.doneWrite task search.session.path lines :: rest) search)
    (hid : task.searchId = search.session.searchId) :
    Accounted { s with files := appendLines s.files search.session.path lines } (.doneCount task :: rest)
      search := by
  obtain ⟨written, hfile, hlength, hsub⟩ := h
  simp only [List.flatMap_cons, unwritten, if_pos hid] at hlength hsub
  have hcount : unwritten search.session.searchId (.doneCount task) = [] := rfl
  refine ⟨written ++ lines, ?_, ?_, ?_⟩
  · rw [fileOf_append, ← hfile]
    exact Function.update_self _ _ _
  · rw [List.flatMap_cons, hcount, List.nil_append, List.append_assoc]
    exact hlength
  · rw [List.flatMap_cons, hcount, List.nil_append, List.append_assoc]
    exact hsub

theorem ResultFiles.add {s : Shared} {rest : List Pc} (h : ResultFiles s (pc :: rest)) (htally : Tally s)
    (hunique : ∀ search ∈ s.history.searches, ∀ search' ∈ s.history.searches,
      search.session.searchId = search'.session.searchId → search = search')
    (task : TaskPayload) (batch : ChunkResult) (server : MasterServer) (linesToWrite : Nat)
    (hadd : s.server.addBatch task.searchId batch = .ok (server, linesToWrite))
    (hpc : ∀ id, unwritten id pc = []) :
    ResultFiles { s with
        server
        history := { s.history with aggregated := (task, batch) :: s.history.aggregated } }
      ((if linesToWrite > 0 then .doneLookup task (batch.lines.take linesToWrite) else .doneCount task) :: rest) := by
  obtain ⟨session, hsession, hlines, -⟩ := MasterServer.addBatch_eq_ok _ _ _ _ _ hadd
  obtain ⟨search, hsearch, hid, htallied⟩ := htally.sessions _ session hsession
  have hnext : ∀ id, unwritten id (if linesToWrite > 0 then .doneLookup task (batch.lines.take linesToWrite)
      else .doneCount task) = if task.searchId = id then batch.lines.take linesToWrite else [] := by
    intro id
    split
    · rfl
    · have : linesToWrite = 0 := by omega
      simp [this, unwritten]
  constructor
  · intro search' hsearch'
    by_cases hown : task.searchId = search'.session.searchId
    · obtain rfl := hunique search hsearch search' hsearch' (hid.trans hown)
      refine (h.accounted search hsearch').add task batch (batch.lines.take linesToWrite) ?_ hown (hpc _) ?_
      · rw [hlines, htallied.lineCount, htallied.maxResults]
      · rw [hnext, if_pos hown]
    · refine (h.accounted search' hsearch').other rfl ?_ (hpc _) ?_
      · rw [batches_cons, if_neg hown]
      · rw [hnext, if_neg hown]
  · exact h.elsewhere
  · intro task' fullPath lines hmem
    rcases List.mem_cons.mp hmem with hmem | hmem
    · split at hmem <;> cases hmem
    · exact h.writers task' fullPath lines (List.mem_cons_of_mem _ hmem)

theorem held_of_unwritten (id : Nat) (pc : Pc) (line : Bytes) (h : line ∈ unwritten id pc) :
    ∃ t ∈ held pc, t.searchId = id := by
  have hlines : ∀ (task : TaskPayload) (lines : List Bytes),
      line ∈ (if task.searchId = id then lines else []) → task.searchId = id := by
    intro task lines hmem
    split at hmem
    · assumption
    · cases hmem
  cases pc with
  | doneLookup task lines => exact ⟨task, List.mem_cons_self, hlines task lines h⟩
  | doneWrite task fullPath lines => exact ⟨task, List.mem_cons_self, hlines task lines h⟩
  | _ => cases h

theorem ResultFiles.publish {s : Shared} {rest : List Pc} (search : Search)
    (h : ResultFiles s (.searchPublish search :: rest)) (hnew : search.session.searchId ∉ s.server.sessions)
    (hprepared : Prepared settings search) (hothers : ∀ search' ∈ s.history.searches, Prepared settings search')
    (htally : Tally s) (hheld : ∀ t ∈ rest.flatMap held, t.searchId ∈ s.server.sessions)
    (hkeys : ∀ search' ∈ s.history.searches, search'.session.searchId ∈ s.server.sessions) :
    ResultFiles { s with
      server := s.server.addPendingTasks search.session search.newTasks
      history := { s.history with searches := search :: s.history.searches } } (.assign :: rest) := by
  constructor
  · intro search' hsearch'
    rcases List.mem_cons.mp hsearch' with rfl | hsearch'
    · have hfile : s.files search'.session.path = [] := by
        refine h.elsewhere _ fun other hother hpath => hnew ?_
        rw [← path_unique (hothers other hother) hprepared hpath]
        exact hkeys other hother
      have hbatches : batches s.history search'.session.searchId = [] := by
        unfold batches
        rw [List.filter_eq_nil_iff.mpr, List.map_nil]
        intro x hx
        simp only [decide_eq_true_eq]
        exact fun heq => hnew (heq ▸ htally.known x hx)
      have hnone : rest.flatMap (unwritten search'.session.searchId) = [] := by
        rw [List.flatMap_eq_nil_iff]
        intro pc hpc
        apply List.eq_nil_iff_forall_not_mem.mpr
        intro line hline
        obtain ⟨t, ht, hid⟩ := held_of_unwritten _ pc line hline
        exact hnew (hid ▸ hheld t (List.mem_flatMap.mpr ⟨pc, hpc, ht⟩))
      refine ⟨[], hfile, ?_, ?_⟩
      · rw [List.flatMap_cons, hnone]
        show 0 = min _ ((batches s.history _).map _).sum
        rw [hbatches]
        exact (Nat.min_zero _).symm
      · rw [List.flatMap_cons, hnone]
        exact List.nil_subperm
    · exact (h.accounted search' hsearch').other rfl rfl rfl rfl
  · intro path hpath
    exact h.elsewhere path fun search' hsearch' => hpath search' (List.mem_cons_of_mem _ hsearch')
  · intro task fullPath lines hmem
    obtain ⟨search', hsearch', hid⟩ := h.writers task fullPath lines
      (List.mem_cons_of_mem _ ((List.mem_cons.mp hmem).resolve_left nofun))
    exact ⟨search', List.mem_cons_of_mem _ hsearch', hid⟩

theorem ResultFiles.lookup {s : Shared} {rest : List Pc} {task : TaskPayload} {lines : List Bytes}
    (h : ResultFiles s (.doneLookup task lines :: rest)) (search : Search) (hsearch : search ∈ s.history.searches)
    (hid : search.session.searchId = task.searchId) :
    ResultFiles s (.doneWrite task search.session.path lines :: rest) := by
  constructor
  · intro search' hsearch'
    exact (h.accounted search' hsearch').congr rfl rfl (List.Perm.refl _)
  · exact h.elsewhere
  · intro task' fullPath lines' hmem
    rcases List.mem_cons.mp hmem with hmem | hmem
    · cases hmem
      exact ⟨search, hsearch, hid, rfl⟩
    · exact h.writers task' fullPath lines' (List.mem_cons_of_mem _ hmem)

theorem ResultFiles.write {s : Shared} {rest : List Pc} {task : TaskPayload} {search : Search}
    {lines : List Bytes} (h : ResultFiles s (.doneWrite task search.session.path lines :: rest))
    (hunique : ∀ search ∈ s.history.searches, ∀ search' ∈ s.history.searches,
      search.session.searchId = search'.session.searchId → search = search')
    (hprepared : ∀ search ∈ s.history.searches, Prepared settings search)
    (hsearch : search ∈ s.history.searches) (hid : search.session.searchId = task.searchId) :
    ResultFiles { s with files := appendLines s.files search.session.path lines } (.doneCount task :: rest) := by
  constructor
  · intro search' hsearch'
    by_cases hown : task.searchId = search'.session.searchId
    · obtain rfl := hunique search hsearch search' hsearch' (hid.trans hown)
      exact (h.accounted search hsearch').write task lines hown
    · have hother : search'.session.path ≠ search.session.path := fun hpath => hown
        (hid.symm.trans (path_unique (hprepared search hsearch) (hprepared search' hsearch') hpath.symm))
      have hpc : unwritten search'.session.searchId (.doneWrite task search.session.path lines) = [] :=
        if_neg hown
      exact (h.accounted search' hsearch').other (Function.update_of_ne hother _ _) rfl hpc rfl
  · intro path hpath
    rw [← h.elsewhere path hpath]
    exact Function.update_of_ne (hpath search hsearch).symm _ _
  · intro task' fullPath' lines' hmem
    have hrest := (List.mem_cons.mp hmem).resolve_left nofun
    exact h.writers task' fullPath' lines' (List.mem_cons_of_mem _ hrest)

/-- **Every line is accounted for**: it is in the file of its session, or a thread has it to write. -/
theorem resultFiles (hguard : ∀ q thread choice, guard q (.run thread choice) → choice.opens = true)
    (h : Reaches (step settings) guard System.initial p) : ResultFiles p.shared p.threads := by
  apply system_invariant ResultFiles _ _ _ _ h
  · exact ⟨by simp, fun _ _ => rfl, by simp⟩
  · intro s l l' hperm hinv
    exact hinv.congr rfl rfl rfl (fun id => hperm.flatMap_right _) fun task fullPath lines => hperm.mem_iff.mpr
  · intro p op _ _ hinv
    obtain ⟨hellos, hshared⟩ := begin_shared settings p.shared op
    exact hinv.idle none (by rw [hshared]) (by rw [hshared]) (by rw [hshared]) nofun
      (begin_nothingToWrite p.shared op)
  · intro p thread choice pc rest s' next hreach hg _ hthreads hinv hran
    have hidle : ∀ {s' : Shared} {next : Option Pc}, s'.files = p.shared.files →
        s'.history.searches = p.shared.history.searches →
        s'.history.aggregated = p.shared.history.aggregated → (∀ id, unwritten id pc = []) →
        (∀ pc ∈ next, NothingToWrite pc) → ResultFiles s' (next.toList ++ rest) :=
      fun hfiles hsearches haggregated hpc hnext =>
        hinv.idle (some pc) hfiles hsearches haggregated (by rintro _ ⟨⟩; exact hpc) hnext
    have hunique : ∀ search ∈ p.shared.history.searches, ∀ search' ∈ p.shared.history.searches,
        search.session.searchId = search'.session.searchId → search = search' :=
      fun search hsearch search' hsearch' => search_unique hreach hsearch hsearch'
    have hprepared := (allPrepared hreach).searches
    cases hran with
    | helloRegister client threadsCount =>
      exact hidle rfl rfl rfl (fun _ => rfl) (nothingToWrite_helloLoop client _)
    | helloDispatch client left =>
      refine hidle rfl rfl rfl (fun _ => rfl) ?_
      split
      · exact nothingToWrite_helloLoop client _
      · exact nofun
    | doneAggregate task msg batch server linesToWrite hdecode hadd =>
      exact hinv.add (tally hreach) hunique task batch server linesToWrite hadd fun _ => rfl
    | sessionLost task lines hnone =>
      have hknown := ledger_known hreach task (List.mem_append_left _
        ((hthreads.flatMap_right held).mem_iff.mpr (List.mem_append_left _ List.mem_cons_self)))
      rw [← AList.lookup_isSome, hnone] at hknown
      cases hknown
    | doneLookup task lines session hsession =>
      obtain ⟨search, hsearch, hid, htallied⟩ := (tally hreach).sessions _ session hsession
      rw [htallied.path]
      exact hinv.lookup search hsearch hid
    | doneWrite task fullPath lines =>
      obtain ⟨search, hsearch, hid, rfl⟩ := hinv.writers task fullPath lines List.mem_cons_self
      rw [if_pos (hguard _ _ _ hg)]
      exact hinv.write hunique hprepared hsearch hid
    | searchPublish search =>
      have hthread : .searchPublish search ∈ p.threads := hthreads.mem_iff.mpr List.mem_cons_self
      exact hinv.publish search (publish_fresh hreach search hthread)
        ((allPrepared hreach).threads _ hthread) hprepared (tally hreach)
        (fun t ht => ledger_known hreach t (List.mem_append_left _ ((hthreads.flatMap_right held).mem_iff.mpr
          (List.mem_append_right _ ht))))
        (fun search' hsearch' => AList.mem_keys.mpr ((sessionsInv hreach).keys.mem_iff.mpr
          (List.mem_map_of_mem hsearch')))
    | assignWake server client threadsCount hpop =>
      refine hidle rfl rfl rfl (fun _ => rfl) ?_
      rintro _ ⟨⟩
      exact nothingToWrite_assignLoop client _
    | assignDispatch client left =>
      refine hidle rfl rfl rfl (fun _ => rfl) ?_
      rintro _ ⟨⟩
      split
      · exact nothingToWrite_assignLoop client _
      · exact ⟨fun _ => rfl, nofun⟩
    | _ => exact hidle rfl rfl rfl (fun _ => rfl) (by rintro _ ⟨⟩ <;> exact ⟨fun _ => rfl, nofun⟩)

end

end LogGrid.Master
