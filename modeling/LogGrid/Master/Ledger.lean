import LogGrid.Master.System
import Mathlib.Data.List.Count

/-!
# The task ledger

Every task of a published search is pending, in flight, with a thread that
handles its answer, or counted. `conserved` says so for all tasks at once, and
the counters of a session are read off it.
-/

open LogGrid.Runs

namespace LogGrid.Master

/-- A task without the id of its last dispatch. -/
def anonymous (task : TaskPayload) : TaskPayload := { task with taskId := 0 }

namespace MasterServer

def inFlight (m : MasterServer) : List TaskPayload := m.inFlightTasks.items.map (·.2.2)

/-- The tasks that wait for a worker or for its answer. -/
def stock (m : MasterServer) : List TaskPayload := m.pendingTasks ++ m.inFlight

/-! ## Task ids -/

/-- In-flight tasks have different ids, all handed out already. -/
structure TaskIds (m : MasterServer) : Prop where
  nodup : (m.inFlightTasks.items.map fun x => x.2.1).Nodup
  own : ∀ x ∈ m.inFlightTasks.items, x.2.2.taskId = x.2.1 ∧ x.2.1 ≤ m.nextTaskId

theorem TaskIds.fresh {m : MasterServer} (h : m.TaskIds) (client : Nat) :
    m.inFlightTasks.find client (m.nextTaskId + 1) = none := by
  cases hfind : m.inFlightTasks.find client (m.nextTaskId + 1) with
  | none => rfl
  | some task =>
    have := (h.own _ ((TwoLevel.mem_items_iff _ _ _ _).mpr hfind)).2
    simp only at this
    omega

theorem TaskIds.of_subperm {m m' : MasterServer} (h : m.TaskIds)
    (hitems : ∃ lost, m.inFlightTasks.items.Perm (lost ++ m'.inFlightTasks.items))
    (hnext : m'.nextTaskId = m.nextTaskId) : m'.TaskIds := by
  obtain ⟨lost, hperm⟩ := hitems
  constructor
  · have := (hperm.map fun x => x.2.1).nodup_iff.mp h.nodup
    rw [List.map_append] at this
    exact this.of_append_right
  · intro x hx
    rw [hnext]
    exact h.own x (hperm.mem_iff.mpr (List.mem_append_right _ hx))

theorem taskIds_section (m m' : MasterServer) (hsection : Section m m') (h : m.TaskIds) : m'.TaskIds := by
  cases hsection with
  | nothing => exact h
  | register client threadsCount => exact ⟨h.nodup, h.own⟩
  | dispatch client =>
    generalize hr : m.dispatchNextTask client = r
    have hspec := hr ▸ m.dispatchNextTask_spec client
    cases hspec with
    | gone _ => exact h
    | waiting _ _ _ _ => exact h
    | queued _ _ _ _ => exact ⟨h.nodup, h.own⟩
    | sent slots task pendingTasks _ _ =>
      have hitems := m.inFlightTasks.items_put client (m.nextTaskId + 1)
        { task with taskId := m.nextTaskId + 1 } (h.fresh client)
      constructor
      · rw [(hitems.map fun x => x.2.1).nodup_iff, List.map_cons, List.nodup_cons]
        refine ⟨?_, h.nodup⟩
        intro hmem
        obtain ⟨x, hx, hid⟩ := List.mem_map.mp hmem
        exact absurd (hid ▸ (h.own x hx).2) (Nat.not_succ_le_self _)
      · intro x hx
        rcases List.mem_cons.mp (hitems.mem_iff.mp hx) with rfl | hx
        · exact ⟨rfl, Nat.le_refl _⟩
        · exact ⟨(h.own x hx).1, Nat.le_succ_of_le (h.own x hx).2⟩
  | take client taskId _ task htake =>
    obtain ⟨hfind, rfl⟩ := takeTask_eq_some m client taskId _ task htake
    exact h.of_subperm ⟨[_], m.inFlightTasks.items_remove client taskId task hfind⟩ rfl
  | add searchId batch _ linesToWrite hadd =>
    obtain ⟨_, _, _, rfl⟩ := addBatch_eq_ok m searchId batch _ linesToWrite hadd
    exact ⟨h.nodup, h.own⟩
  | count searchId =>
    unfold countChunk
    split
    · exact h
    · exact ⟨h.nodup, h.own⟩
  | allocate => exact ⟨h.nodup, h.own⟩
  | publish session newTasks => exact ⟨h.nodup, h.own⟩
  | pop _ woken hpop =>
    have hspec := hpop ▸ m.popIdleWorker_spec
    cases hspec with
    | skip _ _ _ _ => exact ⟨h.nodup, h.own⟩
    | wake _ _ _ _ _ => exact ⟨h.nodup, h.own⟩
  | reclaim client order _ =>
    exact h.of_subperm ⟨_, m.inFlightTasks.items_perm_dropRow client⟩ rfl

/-! ## The stock -/

theorem stock_dispatch (m : MasterServer) (client : Nat) (h : m.TaskIds) :
    ((m.dispatchNextTask client).1.stock.map anonymous).Perm (m.stock.map anonymous) := by
  generalize hr : m.dispatchNextTask client = r
  have hspec := hr ▸ m.dispatchNextTask_spec client
  cases hspec with
  | gone _ => exact List.Perm.refl _
  | waiting _ _ _ _ => exact List.Perm.refl _
  | queued _ _ _ _ => exact List.Perm.refl _
  | sent slots task pendingTasks _ hpending =>
    have hitems := (m.inFlightTasks.items_put client (m.nextTaskId + 1)
      { task with taskId := m.nextTaskId + 1 } (h.fresh client)).map fun x => anonymous x.2.2
    simp only [stock, inFlight, hpending, List.map_append, List.map_map, List.map_cons] at hitems ⊢
    exact (hitems.append_left _).trans List.perm_middle

theorem stock_take (m server : MasterServer) (client taskId : Nat) (task : TaskPayload)
    (h : m.takeTask client taskId = some (server, task)) : m.stock.Perm (task :: server.stock) := by
  obtain ⟨hfind, rfl⟩ := takeTask_eq_some m client taskId server task h
  have hitems := (m.inFlightTasks.items_remove client taskId task hfind).map fun x => x.2.2
  exact (hitems.append_left _).trans List.perm_middle

theorem stock_reclaim (m : MasterServer) (client : Nat) (order : List TaskPayload)
    (h : order.Perm (m.tasksOf client)) : (m.reclaimTasks client order).stock.Perm m.stock := by
  have hitems := (m.inFlightTasks.items_perm_dropRow client).map fun x => x.2.2
  have hrow : (m.inFlightTasks.rowItems client).map (fun x => x.2.2) = m.tasksOf client := by
    simp [TwoLevel.rowItems, tasksOf]
  rw [List.map_append, hrow] at hitems
  unfold stock
  rw [reclaimTasks_pending]
  have hback := ((List.reverse_perm order).trans h).append_right m.pendingTasks
  refine (hback.append_right _).trans ?_
  refine (List.perm_append_comm.append_right _).trans ?_
  rw [List.append_assoc]
  exact (hitems.symm).append_left _

theorem stock_add (m server : MasterServer) (searchId : Nat) (batch : ChunkResult) (linesToWrite : Nat)
    (h : m.addBatch searchId batch = .ok (server, linesToWrite)) : server.stock = m.stock := by
  obtain ⟨_, _, _, rfl⟩ := addBatch_eq_ok m searchId batch server linesToWrite h
  rfl

theorem stock_count (m : MasterServer) (searchId : Nat) : (m.countChunk searchId).stock = m.stock := by
  unfold countChunk
  split <;> rfl

theorem stock_pop (m server : MasterServer) (woken : Option (Nat × UInt64))
    (h : m.popIdleWorker = some (server, woken)) : server.stock = m.stock := by
  have hspec := h ▸ m.popIdleWorker_spec
  cases hspec <;> rfl

theorem stock_publish (m : MasterServer) (session : SearchSession) (newTasks : List TaskPayload) :
    (m.addPendingTasks session newTasks).stock.Perm (newTasks ++ m.stock) := by
  simp only [stock, addPendingTasks, inFlight, List.append_assoc]
  exact List.perm_append_comm_assoc _ _ _

end MasterServer

section

variable {settings : Settings} {guard : System → Event → Prop} {p : System}

theorem taskIds (h : Reaches (step settings) guard System.initial p) : p.shared.server.TaskIds :=
  server_invariant MasterServer.TaskIds ⟨by simp, by simp⟩ MasterServer.taskIds_section h

/-! ## Prepared searches -/

def Prepared (settings : Settings) (search : Search) : Prop :=
  0 ∉ search.target ∧
    prepareSearch settings search.request search.target search.session.searchId =
      .ok (search.session, search.newTasks)

def PcPrepared (settings : Settings) : Pc → Prop
  | .searchAllocate _ target => 0 ∉ target
  | .searchPublish search => Prepared settings search
  | _ => True

/-- Neither a thread nor the history holds a search that is not prepared. -/
structure AllPrepared (settings : Settings) (s : Shared) (threads : List Pc) : Prop where
  threads : ∀ pc ∈ threads, PcPrepared settings pc
  searches : ∀ search ∈ s.history.searches, Prepared settings search

theorem allPrepared (h : Reaches (step settings) guard System.initial p) :
    AllPrepared settings p.shared p.threads := by
  obtain ⟨hthreads, hsearches⟩ := search_invariant settings (fun _ target => 0 ∉ target) (Prepared settings)
    (resolveTarget_text settings)
    (by
      intro request target searchId session newTasks htarget hprepare
      obtain ⟨⟨path, scanErrors, hsession, -⟩, -⟩ :=
        prepareSearch_spec settings request target _ session newTasks htarget hprepare
      refine ⟨htarget, ?_⟩
      rw [hsession] at hprepare ⊢
      exact hprepare) h
  refine ⟨?_, hsearches⟩
  intro pc hpc
  have := hthreads pc hpc
  cases pc with
  | searchAllocate request target => exact this
  | searchPublish search => exact this
  | _ => trivial

theorem Prepared.session_eq {search : Search} (h : Prepared settings search) :
    search.session.chunksDone = 0 ∧ search.session.totalMatches = 0 ∧ search.session.lineCount = 0 := by
  obtain ⟨⟨path, scanErrors, hsession, -⟩, -⟩ := prepareSearch_spec settings _ _ _ _ _ h.1 h.2
  rw [hsession]
  exact ⟨rfl, rfl, rfl⟩

theorem Prepared.task_searchId {search : Search} (h : Prepared settings search) :
    ∀ t ∈ search.newTasks, t.searchId = search.session.searchId ∧ t.taskId = 0 := by
  obtain ⟨-, -, -, htasks⟩ := prepareSearch_spec settings _ _ _ _ _ h.1 h.2
  intro t ht
  rw [htasks] at ht
  obtain ⟨f, -, ht⟩ := List.mem_flatMap.mp ht
  have := (fileTasks_spec search.request.keyword search.session.searchId search.request.config f).2 t ht
  rw [this]
  exact ⟨rfl, rfl⟩

theorem Prepared.chunks_nodup {search : Search} (h : Prepared settings search) :
    (search.newTasks.map chunkOf).Nodup := by
  obtain ⟨-, hnodup, hfit, htasks⟩ := prepareSearch_spec settings _ _ _ _ _ h.1 h.2
  rw [htasks]
  exact tasks_nodup _ _ _ _ hnodup hfit

/-! ## Conservation -/

/-- The task whose answer a thread handles: out of `m_inFlightTasks` and not yet counted. -/
def held : Pc → List TaskPayload
  | .doneDispatch _ task _ | .doneAggregate task _ | .doneLookup task _ | .doneWrite task _ _
  | .doneCount task => [task]
  | _ => []

def published (history : History) : List TaskPayload := history.searches.flatMap (·.newTasks)

/-- Every task of a published search, wherever it is. -/
def ledger (s : Shared) (threads : List Pc) : List TaskPayload :=
  threads.flatMap held ++ (s.history.counted ++ s.server.stock)

def Conserved (s : Shared) (threads : List Pc) : Prop :=
  ((ledger s threads).map anonymous).Perm ((published s.history).map anonymous)

theorem begin_held (s : Shared) (op : Op) : (begin settings s op).2.toList.flatMap held = [] := by
  apply begin_flatMap
  intro pc hpc
  cases hpc <;> rfl

theorem held_helloLoop (client left : Nat) : (helloLoop client left).toList.flatMap held = [] :=
  flatMap_helloLoop held client left rfl

theorem held_assignLoop (client left : Nat) : held (assignLoop client left) = [] := by
  rcases assignLoop_cases client left with h | h <;> rw [h] <;> rfl

theorem ledger_dispatch (s : Shared) (client : Nat) (hids : s.server.TaskIds) :
    (((dispatch s client).1.history.counted ++ (dispatch s client).1.server.stock).map anonymous).Perm
      ((s.history.counted ++ s.server.stock).map anonymous) := by
  rw [List.map_append, List.map_append]
  exact (s.server.stock_dispatch client hids).append_left _

theorem Ran.ledger {choice : Choice} {s s' : Shared} {pc : Pc} {next : Option Pc}
    (h : Ran settings choice s pc s' next) (hids : s.server.TaskIds) :
    ((next.toList.flatMap held ++ (s'.history.counted ++ s'.server.stock)).map anonymous).Perm
      (((publishes pc).flatMap (·.newTasks) ++ (held pc ++ (s.history.counted ++ s.server.stock))).map
        anonymous) := by
  cases h with
  | helloRegister client threadsCount => rw [held_helloLoop]; exact List.Perm.refl _
  | helloDispatch client left =>
    have hstock := ledger_dispatch s client hids
    split
    · rw [held_helloLoop]; exact hstock
    · exact hstock
  | doneTake client taskId msg server task h =>
    have hstock := s.server.stock_take server client taskId task h
    exact ((List.perm_middle.symm.trans (hstock.symm.append_left _)).map anonymous)
  | doneDispatch client task msg => exact (ledger_dispatch s client hids).cons _
  | doneAggregate task msg batch server linesToWrite hdecode hadd =>
    rw [MasterServer.stock_add s.server server task.searchId batch linesToWrite hadd]
    split <;> exact List.Perm.refl _
  | doneWrite task fullPath lines => cases choice.opens <;> exact List.Perm.refl _
  | doneCount task => rw [MasterServer.stock_count]; exact List.Perm.refl _
  | searchPublish search =>
    have hstock := s.server.stock_publish search.session search.newTasks
    have := (hstock.append_left s.history.counted).trans (List.perm_append_comm_assoc _ _ _)
    simpa [publishes, held] using this.map anonymous
  | assignSkip server h => rw [MasterServer.stock_pop s.server server none h]; exact List.Perm.refl _
  | assignWake server client threadsCount h =>
    rw [MasterServer.stock_pop s.server server _ h, Option.toList_some, List.flatMap_singleton,
      held_assignLoop]
    exact List.Perm.refl _
  | assignDispatch client left =>
    have hstock := ledger_dispatch s client hids
    rw [Option.toList_some, List.flatMap_singleton]
    split
    · rw [held_assignLoop]; exact hstock
    · exact hstock
  | disconnect client h =>
    exact (((s.server.stock_reclaim client choice.order h).append_left _).map anonymous)
  | _ => exact List.Perm.refl _

/-- **The ledger is kept** by every step of every thread. -/
theorem conserved (h : Reaches (step settings) guard System.initial p) : Conserved p.shared p.threads := by
  apply system_invariant Conserved _ _ _ _ h
  · exact List.Perm.refl _
  · intro s l l' hperm hinv
    have := (hperm.flatMap_right held).append_right (s.history.counted ++ s.server.stock)
    exact (this.symm.map anonymous).trans hinv
  · intro p op _ _ hinv
    obtain ⟨hsearches, hcounted, -⟩ := begin_history settings p.shared op
    unfold Conserved ledger published at *
    rw [hsearches, hcounted, begin_server, List.flatMap_append, begin_held]
    exact hinv
  · intro p thread choice pc rest s' next hreach _ _ _ hinv hran
    obtain ⟨hsearches, -, -⟩ := hran.history
    have hmove := hran.ledger (taskIds hreach)
    unfold Conserved ledger published at *
    rw [List.perm_iff_count] at hinv hmove ⊢
    intro t
    specialize hinv t
    specialize hmove t
    rw [hsearches]
    simp only [List.flatMap_append, List.flatMap_cons, List.map_append, List.count_append] at hinv hmove ⊢
    omega

theorem countP_ledger (h : Reaches (step settings) guard System.initial p) (id : Nat) :
    (published p.shared.history).countP (·.searchId = id) =
      (ledger p.shared p.threads).countP (·.searchId = id) := by
  have := (conserved h).countP_eq (·.searchId = id)
  rw [List.countP_map, List.countP_map] at this
  exact this.symm

theorem mem_published_of_mem_ledger (h : Reaches (step settings) guard System.initial p) (t : TaskPayload)
    (ht : t ∈ ledger p.shared p.threads) : ∃ t' ∈ published p.shared.history, t'.searchId = t.searchId := by
  have hmem := (conserved h).mem_iff.mp (List.mem_map_of_mem ht)
  obtain ⟨t', ht', heq⟩ := List.mem_map.mp hmem
  have : (anonymous t').searchId = (anonymous t).searchId := by rw [heq]
  exact ⟨t', ht', this⟩

theorem published_searchId (h : Reaches (step settings) guard System.initial p) :
    ∀ t ∈ published p.shared.history,
      t.searchId ∈ p.shared.history.searches.map (·.session.searchId) := by
  intro t ht
  obtain ⟨search, hsearch, ht⟩ := List.mem_flatMap.mp ht
  rw [(((allPrepared h).searches search hsearch).task_searchId t ht).1]
  exact List.mem_map_of_mem hsearch

/-! ## Sessions -/

/-- The search id that a thread has reserved and not published. -/
def allocated : Pc → List Nat
  | .searchPublish search => [search.session.searchId]
  | _ => []

/-- The session of every published search is there, and counts the search's tasks. -/
structure SessionsInv (s : Shared) (threads : List Pc) : Prop where
  keys : s.server.sessions.keys.Perm (s.history.searches.map (·.session.searchId))
  nodup : (threads.flatMap allocated ++ s.server.sessions.keys).Nodup
  bound : ∀ id ∈ threads.flatMap allocated ++ s.server.sessions.keys, id < s.server.nextSearchId
  counts : ∀ id session, s.server.sessions.lookup id = some session →
    session.chunksTotal = Int32.ofNat ((published s.history).countP (·.searchId = id)) ∧
      session.chunksDone = Int32.ofNat (s.history.counted.countP (·.searchId = id))

theorem begin_allocated (s : Shared) (op : Op) : (begin settings s op).2.toList.flatMap allocated = [] := by
  apply begin_flatMap
  intro pc hpc
  cases hpc <;> rfl

theorem allocated_helloLoop (client left : Nat) : (helloLoop client left).toList.flatMap allocated = [] :=
  flatMap_helloLoop allocated client left rfl

theorem allocated_assignLoop (client left : Nat) : allocated (assignLoop client left) = [] := by
  rcases assignLoop_cases client left with h | h <;> rw [h] <;> rfl

theorem SessionsInv.congr {s s' : Shared} {threads threads' : List Pc} (h : SessionsInv s threads)
    (hsessions : s'.server.sessions = s.server.sessions ∧ s'.server.nextSearchId = s.server.nextSearchId)
    (hhistory : s'.history.searches = s.history.searches ∧ s'.history.counted = s.history.counted)
    (hallocated : threads'.flatMap allocated = threads.flatMap allocated) : SessionsInv s' threads' := by
  obtain ⟨hsessions, hnext⟩ := hsessions
  obtain ⟨hsearches, hcounted⟩ := hhistory
  constructor
  · rw [hsessions, hsearches]; exact h.keys
  · rw [hsessions, hallocated]; exact h.nodup
  · rw [hsessions, hallocated, hnext]; exact h.bound
  · unfold published
    rw [hsessions, hsearches, hcounted]
    exact h.counts

theorem keys_insert_of_mem {m : AList fun _ : Nat => SearchSession} {id : Nat} {old : SearchSession}
    (hold : m.lookup id = some old) (session : SearchSession) :
    (m.insert id session).keys.Perm m.keys := by
  have hmem : id ∈ m.keys := AList.mem_keys.mp (AList.lookup_isSome.mp (by rw [hold]; rfl))
  rw [AList.keys_insert]
  exact (List.perm_cons_erase hmem).symm

theorem SessionsInv.insert {s s' : Shared} {threads threads' : List Pc} (h : SessionsInv s threads)
    {id : Nat} {old : SearchSession} (session : SearchSession) (counted : List TaskPayload)
    (hold : s.server.sessions.lookup id = some old)
    (hserver : s'.server.sessions = s.server.sessions.insert id session ∧
      s'.server.nextSearchId = s.server.nextSearchId)
    (hhistory : s'.history.searches = s.history.searches ∧ s'.history.counted = counted ++ s.history.counted)
    (hcounted : ∀ t ∈ counted, t.searchId = id) (htotal : session.chunksTotal = old.chunksTotal)
    (hdone : session.chunksDone = old.chunksDone + Int32.ofNat counted.length)
    (hallocated : threads'.flatMap allocated = threads.flatMap allocated) : SessionsInv s' threads' := by
  obtain ⟨hsessions, hnext⟩ := hserver
  obtain ⟨hsearches, hhistory⟩ := hhistory
  have hkeys := keys_insert_of_mem hold session
  constructor
  · rw [hsessions, hsearches]; exact hkeys.trans h.keys
  · rw [hsessions, hallocated]; exact (hkeys.append_left _).nodup_iff.mpr h.nodup
  · rw [hsessions, hallocated, hnext]
    intro id' hid'
    exact h.bound id' ((hkeys.append_left _).mem_iff.mp hid')
  · intro id' session' hlookup
    unfold published
    rw [hsearches, hhistory, List.countP_append]
    rw [hsessions] at hlookup
    by_cases hid : id' = id
    · subst hid
      rw [AList.lookup_insert, Option.some.injEq] at hlookup
      subst hlookup
      obtain ⟨h₁, h₂⟩ := h.counts id' old hold
      have hall : counted.countP (·.searchId = id') = counted.length :=
        List.countP_eq_length.mpr fun t ht => by simpa using hcounted t ht
      exact ⟨htotal.trans h₁, by rw [hdone, h₂, hall, Int32.ofNat_add, Int32.add_comm]⟩
    · rw [AList.lookup_insert_ne hid] at hlookup
      have hnone : counted.countP (·.searchId = id') = 0 :=
        List.countP_eq_zero.mpr fun t ht => by simpa [hcounted t ht] using Ne.symm hid
      rw [hnone, Nat.zero_add]
      exact h.counts id' session' hlookup

theorem SessionsInv.allocate {s : Shared} {pc : Pc} {rest : List Pc} (h : SessionsInv s (pc :: rest))
    (search : Search) (hid : search.session.searchId = s.server.nextSearchId) :
    SessionsInv { s with server := s.server.allocateSearchId.2 } (.searchPublish search :: rest) := by
  have hrest : ∀ id ∈ rest.flatMap allocated ++ s.server.sessions.keys, id < s.server.nextSearchId := by
    intro id hmem
    refine h.bound id ?_
    rw [List.flatMap_cons, List.append_assoc]
    exact List.mem_append_right _ hmem
  have hnodup := h.nodup
  rw [List.flatMap_cons, List.append_assoc] at hnodup
  refine ⟨h.keys, ?_, ?_, h.counts⟩
  · -- The new id is above all others.
    refine List.nodup_cons.mpr ⟨fun hmem => ?_, hnodup.of_append_right⟩
    have := hrest _ hmem
    rw [hid] at this
    exact Nat.lt_irrefl _ this
  · intro id hmem
    rcases List.mem_cons.mp hmem with rfl | hmem
    · rw [hid]; exact Nat.lt_succ_self _
    · exact Nat.lt_succ_of_lt (hrest id hmem)

theorem SessionsInv.publish {s : Shared} {rest : List Pc} {search : Search}
    (h : SessionsInv s (.searchPublish search :: rest)) (hprepared : Prepared settings search)
    (hknown : ∀ t ∈ published s.history, t.searchId ∈ s.history.searches.map (·.session.searchId))
    (hcounted : ∀ t ∈ s.history.counted, ∃ t' ∈ published s.history, t'.searchId = t.searchId) :
    SessionsInv { s with
      server := s.server.addPendingTasks search.session search.newTasks
      history := { s.history with searches := search :: s.history.searches } } (.assign :: rest) := by
  have hnodup := List.nodup_cons.mp h.nodup
  have hnew : search.session.searchId ∉ s.server.sessions.keys :=
    fun hmem => hnodup.1 (List.mem_append_right _ hmem)
  have hkeys : (s.server.sessions.insert search.session.searchId
      { search.session with chunksTotal := Int32.ofNat search.newTasks.length }).keys =
      search.session.searchId :: s.server.sessions.keys := by
    rw [AList.keys_insert, List.erase_of_not_mem hnew]
  constructor
  · exact hkeys ▸ h.keys.cons _
  · exact (hkeys ▸ List.perm_middle).nodup_iff.mpr h.nodup
  · intro id hmem
    exact h.bound id ((hkeys ▸ List.perm_middle).mem_iff.mp hmem)
  · intro id session hlookup
    have hpublished : published { s.history with searches := search :: s.history.searches } =
        search.newTasks ++ published s.history := rfl
    rw [hpublished, List.countP_append]
    by_cases hid : id = search.session.searchId
    · subst hid
      -- The id is new, so no task of another search has it.
      have hnone : ∀ t ∈ published s.history, t.searchId ≠ search.session.searchId :=
        fun t ht heq => hnew (h.keys.mem_iff.mpr (heq ▸ hknown t ht))
      have hcountedNone : ∀ t ∈ s.history.counted, t.searchId ≠ search.session.searchId := by
        intro t ht
        obtain ⟨t', ht', heq⟩ := hcounted t ht
        exact heq ▸ hnone t' ht'
      have hall : search.newTasks.countP (·.searchId = search.session.searchId) = search.newTasks.length :=
        List.countP_eq_length.mpr fun t ht => by simpa using (hprepared.task_searchId t ht).1
      have hlookup' := (AList.lookup_insert _).symm.trans hlookup
      rw [Option.some.injEq] at hlookup'
      subst hlookup'
      rw [hall, List.countP_eq_zero.mpr (by simpa using hnone),
        List.countP_eq_zero.mpr (by simpa using hcountedNone)]
      exact ⟨rfl, hprepared.session_eq.1⟩
    · have hnone : search.newTasks.countP (·.searchId = id) = 0 :=
        List.countP_eq_zero.mpr fun t ht => by simpa [(hprepared.task_searchId t ht).1] using Ne.symm hid
      rw [hnone, Nat.zero_add]
      exact h.counts id session ((AList.lookup_insert_ne hid).symm.trans hlookup)

theorem sessionsInv (h : Reaches (step settings) guard System.initial p) : SessionsInv p.shared p.threads := by
  apply system_invariant SessionsInv _ _ _ _ h
  · exact ⟨List.Perm.refl _, List.nodup_nil, by simp, by simp⟩
  · intro s l l' hperm hinv
    have hallocated := (hperm.flatMap_right allocated).append_right s.server.sessions.keys
    exact ⟨hinv.keys, hallocated.nodup_iff.mp hinv.nodup,
      fun id hid => hinv.bound id (hallocated.mem_iff.mpr hid), hinv.counts⟩
  · intro p op _ _ hinv
    obtain ⟨hsearches, hcounted, -⟩ := begin_history settings p.shared op
    refine hinv.congr (by rw [begin_server]; exact ⟨rfl, rfl⟩) ⟨hsearches, hcounted⟩ ?_
    rw [List.flatMap_append, begin_allocated, List.nil_append]
  · intro p thread choice pc rest s' next hreach _ _ hthreads hinv hran
    cases hran with
    | helloRegister client threadsCount =>
      exact hinv.congr ⟨rfl, rfl⟩ ⟨rfl, rfl⟩ (by rw [List.flatMap_append, allocated_helloLoop]; rfl)
    | helloDispatch client left =>
      refine hinv.congr (p.shared.server.dispatchNextTask_sessions client) ⟨rfl, rfl⟩ ?_
      split
      · rw [List.flatMap_append, allocated_helloLoop]; rfl
      · rfl
    | doneTake client taskId msg server task h =>
      exact hinv.congr (p.shared.server.takeTask_sessions server client taskId task h) ⟨rfl, rfl⟩ rfl
    | doneDispatch client task msg =>
      exact hinv.congr (p.shared.server.dispatchNextTask_sessions client) ⟨rfl, rfl⟩ rfl
    | doneAggregate task msg batch server linesToWrite hdecode hadd =>
      obtain ⟨old, hold, -, rfl⟩ := MasterServer.addBatch_eq_ok _ _ _ _ _ hadd
      refine hinv.insert _ [] hold ⟨rfl, rfl⟩ ⟨rfl, rfl⟩ (by simp) rfl (by simp) ?_
      split <;> rfl
    | doneWrite task fullPath lines =>
      cases choice.opens <;> exact hinv.congr ⟨rfl, rfl⟩ ⟨rfl, rfl⟩ rfl
    | doneCount task =>
      have htask : task ∈ ledger p.shared p.threads :=
        List.mem_append_left _ ((hthreads.flatMap_right held).mem_iff.mpr (by simp [held]))
      obtain ⟨t', ht', hid⟩ := mem_published_of_mem_ledger hreach task htask
      have hknown := hinv.keys.mem_iff.mpr (hid ▸ published_searchId hreach t' ht')
      obtain ⟨old, hold⟩ := Option.isSome_iff_exists.mp (AList.lookup_isSome.mpr (AList.mem_keys.mpr hknown))
      refine hinv.insert { old with chunksDone := old.chunksDone + 1 } [task] hold ?_ ⟨rfl, rfl⟩ (by simp)
        rfl rfl rfl
      unfold MasterServer.countChunk
      rw [hold]
      exact ⟨rfl, rfl⟩
    | searchFailed request target =>
      exact ⟨hinv.keys, hinv.nodup, fun id hid => Nat.lt_succ_of_lt (hinv.bound id hid), hinv.counts⟩
    | searchAllocate request target session newTasks h =>
      have htarget : 0 ∉ target := (allPrepared hreach).threads (.searchAllocate request target)
        (hthreads.mem_iff.mpr List.mem_cons_self)
      obtain ⟨⟨path, scanErrors, hsession, -⟩, -⟩ :=
        prepareSearch_spec settings request target _ session newTasks htarget h
      exact hinv.allocate { request, target, session, newTasks } (by rw [hsession])
    | searchPublish search =>
      have hprepared : Prepared settings search := (allPrepared hreach).threads (.searchPublish search)
        (hthreads.mem_iff.mpr List.mem_cons_self)
      refine hinv.publish hprepared (published_searchId hreach) fun t ht => ?_
      exact mem_published_of_mem_ledger hreach t (List.mem_append_right _ (List.mem_append_left _ ht))
    | assignSkip server h =>
      exact hinv.congr (p.shared.server.popIdleWorker_sessions server none h) ⟨rfl, rfl⟩ rfl
    | assignWake server client threadsCount h =>
      refine hinv.congr (p.shared.server.popIdleWorker_sessions server _ h) ⟨rfl, rfl⟩ ?_
      rw [List.flatMap_append, Option.toList_some, List.flatMap_singleton, allocated_assignLoop]
      rfl
    | assignDispatch client left =>
      refine hinv.congr (p.shared.server.dispatchNextTask_sessions client) ⟨rfl, rfl⟩ ?_
      rw [List.flatMap_append, Option.toList_some, List.flatMap_singleton]
      split
      · rw [allocated_assignLoop]; rfl
      · rfl
    | _ => exact hinv.congr ⟨rfl, rfl⟩ ⟨rfl, rfl⟩ rfl

theorem publish_fresh (h : Reaches (step settings) guard System.initial p) (search : Search)
    (hthread : .searchPublish search ∈ p.threads) :
    search.session.searchId ∉ p.shared.server.sessions := by
  have hnodup := (sessionsInv h).nodup
  rw [List.nodup_append] at hnodup
  intro hmem
  exact hnodup.2.2 _ (List.mem_flatMap.mpr ⟨_, hthread, List.mem_singleton_self _⟩) _ hmem rfl

theorem searches_nodup (h : Reaches (step settings) guard System.initial p) :
    (p.shared.history.searches.map (·.session.searchId)).Nodup :=
  (sessionsInv h).keys.nodup_iff.mp p.shared.server.sessions.keys_nodup

theorem search_unique (h : Reaches (step settings) guard System.initial p) {search search' : Search}
    (hsearch : search ∈ p.shared.history.searches) (hsearch' : search' ∈ p.shared.history.searches)
    (hid : search.session.searchId = search'.session.searchId) : search = search' :=
  List.inj_on_of_nodup_map (searches_nodup h) hsearch hsearch' hid

theorem published_nodup (h : Reaches (step settings) guard System.initial p) :
    ((published p.shared.history).map fun t => (t.searchId, chunkOf t)).Nodup := by
  have hsearches := (allPrepared h).searches
  unfold published
  rw [List.map_flatMap, List.nodup_flatMap]
  constructor
  · intro search hsearch
    have hof : (search.newTasks.map fun t => (t.searchId, chunkOf t)).map Prod.snd =
        search.newTasks.map chunkOf := by simp
    exact (hof ▸ (hsearches search hsearch).chunks_nodup).of_map _
  · have hpairs := List.pairwise_map.mp (List.nodup_iff_pairwise_ne.mp (searches_nodup h))
    refine hpairs.imp_of_mem ?_
    intro search search' hmem hmem' hne key hkey hkey'
    obtain ⟨t, ht, rfl⟩ := List.mem_map.mp hkey
    obtain ⟨t', ht', heq⟩ := List.mem_map.mp hkey'
    have h₁ := ((hsearches search hmem).task_searchId t ht).1
    have h₂ := ((hsearches search' hmem').task_searchId t' ht').1
    have : t'.searchId = t.searchId := congrArg Prod.fst heq
    exact hne (by rw [← h₁, ← h₂, this])

theorem published_filter (h : Reaches (step settings) guard System.initial p) (search : Search)
    (hsearch : search ∈ p.shared.history.searches) :
    (published p.shared.history).filter (·.searchId = search.session.searchId) = search.newTasks := by
  have hprepared := (allPrepared h).searches
  have hids := searches_nodup h
  have hall : ∀ s ∈ p.shared.history.searches, ∀ id,
      s.newTasks.filter (·.searchId = id) = if s.session.searchId = id then s.newTasks else [] := by
    intro s hs id
    have htasks := (hprepared s hs).task_searchId
    split
    · rename_i hid
      exact List.filter_eq_self.mpr fun t ht => by simpa [hid] using (htasks t ht).1
    · rename_i hid
      exact List.filter_eq_nil_iff.mpr fun t ht => by simpa [(htasks t ht).1] using hid
  unfold published
  generalize p.shared.history.searches = searches at hsearch hids hall
  induction searches with
  | nil => cases hsearch
  | cons first searches ih =>
    rw [List.map_cons, List.nodup_cons] at hids
    obtain ⟨hfirst, hrest⟩ := List.forall_mem_cons.mp hall
    rw [List.flatMap_cons, List.filter_append, hfirst]
    rcases List.mem_cons.mp hsearch with rfl | hmem
    · have hnone : (searches.flatMap (·.newTasks)).filter (·.searchId = search.session.searchId) = [] := by
        rw [List.filter_flatMap, List.flatMap_eq_nil_iff]
        intro s hs
        rw [hrest s hs, if_neg]
        intro heq
        exact hids.1 (heq ▸ List.mem_map_of_mem hs)
      rw [if_pos rfl, hnone, List.append_nil]
    · have hne : first.session.searchId ≠ search.session.searchId := by
        intro heq
        exact hids.1 (heq ▸ List.mem_map_of_mem hmem)
      rw [if_neg hne, List.nil_append, ih hmem hids.2 hrest]

theorem countP_published (h : Reaches (step settings) guard System.initial p) (search : Search)
    (hsearch : search ∈ p.shared.history.searches) :
    (published p.shared.history).countP (·.searchId = search.session.searchId) = search.newTasks.length := by
  rw [List.countP_eq_length_filter, published_filter h search hsearch]

theorem ledger_published (h : Reaches (step settings) guard System.initial p) :
    ((ledger p.shared p.threads).map fun t => (t.searchId, chunkOf t)).Perm
      ((published p.shared.history).map fun t => (t.searchId, chunkOf t)) := by
  have hperm := (conserved h).map fun t => (t.searchId, chunkOf t)
  rwa [List.map_map, List.map_map] at hperm

theorem ledger_nodup (h : Reaches (step settings) guard System.initial p) :
    ((ledger p.shared p.threads).map fun t => (t.searchId, chunkOf t)).Nodup :=
  (ledger_published h).nodup_iff.mpr (published_nodup h)

theorem ledger_known (h : Reaches (step settings) guard System.initial p) :
    ∀ t ∈ ledger p.shared p.threads, t.searchId ∈ p.shared.server.sessions := by
  intro t ht
  obtain ⟨t', ht', hid⟩ := mem_published_of_mem_ledger h t ht
  exact AList.mem_keys.mpr ((sessionsInv h).keys.mem_iff.mpr (hid ▸ published_searchId h t' ht'))

end

/-! ## The result -/

/-- **Task ledger.** A session's chunks are done, pending, in flight, or with a thread that handles
their answers. Together these are the published chunks, no chunk twice, also not one that is done; the
session of each is there, and in-flight tasks have different ids. -/
theorem task_ledger (settings : Settings) (p : System) (h : Reachable settings p) :
    let m := p.shared.server
    let aggregating := p.threads.flatMap held
    let counted := p.shared.history.counted
    let chunks := (m.pendingTasks ++ m.inFlight ++ aggregating ++ counted).map fun t => (t.searchId, chunkOf t)
    (∀ id session, m.sessions.lookup id = some session →
      (published p.shared.history).countP (·.searchId = id) < 2 ^ 31 →
      session.chunksDone.toInt = counted.countP (·.searchId = id) ∧
      session.chunksTotal.toInt = session.chunksDone.toInt + m.pendingTasks.countP (·.searchId = id) +
        m.inFlight.countP (·.searchId = id) + aggregating.countP (·.searchId = id)) ∧
    chunks.Perm ((published p.shared.history).map fun t => (t.searchId, chunkOf t)) ∧
    chunks.Nodup ∧
    (∀ t ∈ m.pendingTasks ++ m.inFlight ++ aggregating, t.searchId ∈ m.sessions) ∧
    (∀ t ∈ aggregating, ∀ batch e, m.addBatch t.searchId batch ≠ .error e) ∧
    (m.inFlight.map (·.taskId)).Nodup := by
  intro m aggregating counted chunks
  have hplaces : (m.pendingTasks ++ m.inFlight ++ aggregating ++ counted).Perm (ledger p.shared p.threads) := by
    have hstock : (m.pendingTasks ++ m.inFlight ++ (aggregating ++ counted)).Perm
        (aggregating ++ counted ++ m.stock) := List.perm_append_comm
    rwa [← List.append_assoc, List.append_assoc aggregating] at hstock
  have hchunks : chunks.Perm ((ledger p.shared p.threads).map fun t => (t.searchId, chunkOf t)) := hplaces.map _
  refine ⟨?_, ?_, ?_, ?_, ?_, ?_⟩
  · intro id session hsession hlt
    obtain ⟨htotal, hdone⟩ := (sessionsInv h).counts id session hsession
    have hsum := countP_ledger h id
    simp only [ledger, MasterServer.stock, List.countP_append] at hsum
    rw [htotal, hdone, Int32.toInt_ofNat_of_lt hlt, Int32.toInt_ofNat_of_lt (by omega)]
    refine ⟨rfl, ?_⟩
    simp only [m, aggregating]
    omega
  · exact hchunks.trans (ledger_published h)
  · exact hchunks.nodup_iff.mpr (ledger_nodup h)
  · intro t ht
    exact ledger_known h t (hplaces.subset (List.mem_append_left _ ht))
  · intro t ht batch e
    exact m.addBatch_ne_error t.searchId batch e
      (ledger_known h t (List.mem_append_left _ ht))
  · obtain ⟨hnodup, hown⟩ := taskIds h
    have hids : m.inFlight.map (·.taskId) = m.inFlightTasks.items.map fun x => x.2.1 := by
      unfold MasterServer.inFlight
      rw [List.map_map]
      exact List.map_congr_left fun x hx => (hown x hx).1
    rw [hids]
    exact hnodup

/-! ## A small run -/

def oneChunkSize : FileSize := ⟨100, by decide⟩

def twoChunkSize : FileSize := ⟨6000000, by decide⟩

def threeChunkSize : FileSize := ⟨11000000, by decide⟩

def oneFile (size : FileSize) : World where
  canonical p := if p = ascii "/app/data" ∨ p = ascii "/app/data/a.log" then some p else none
  node _ := .file (some size)
  timestamp := 1700000000
  disk := freshDisk
  canonical_text p q h := by
    split at h
    · rename_i hp
      cases h
      rcases hp with rfl | rfl <;> decide
    · cases h
  node_wellFormed _ := rfl

def searchRequest (size : FileSize) : Request :=
  { filepath := ascii "a.log", keyword := ascii "E", config := {}, world := oneFile size }

def smallTarget : Bytes := ascii "/app/data/a.log"

theorem collectTasks_small (size : FileSize) (hsize : size.val ≠ 0) :
    collectTasks (searchRequest size) 0 smallTarget =
      .ok { outTasks := fileTasks (ascii "E") 0 {} (smallTarget, size) } := by
  have hshort : ¬ 256 ≤ smallTarget.length := by decide
  have hprocess : processSingleFile (ascii "E") 0 {} smallTarget (some size) {} =
      .ok (true, { outTasks := fileTasks (ascii "E") 0 {} (smallTarget, size) }) := by
    have hget := enqueueFileChunks_get (ascii "E") 0 {} (smallTarget, size) []
      (enqueueFileChunks_isSome size _ [])
    rw [List.nil_append] at hget
    rw [← hget]
    simp only [processSingleFile, createChunkTask, hsize, hshort, if_false]
    rfl
  have hnode : (searchRequest size).world.node smallTarget = .file (some size) := rfl
  unfold collectTasks
  rw [hnode]
  simp only
  rw [show processSingleFile (searchRequest size).keyword 0 (searchRequest size).config smallTarget (some size) {} =
    .ok (true, { outTasks := fileTasks (ascii "E") 0 {} (smallTarget, size) }) from hprocess]

theorem prepareSearch_small (size : FileSize) (hsize : size.val ≠ 0) : ∃ session, session.searchId = 0 ∧
    prepareSearch {} (searchRequest size) smallTarget 0 =
      .ok (session, fileTasks (ascii "E") 0 {} (smallTarget, size)) := by
  have hpath : (createSessionFilePath (ascii "/data/loggrid") 1700000000 freshDisk (ascii "/sessions/") 0).1 =
      .ok (ascii "/data/loggrid/sessions/search_0_1700000000.log") := by decide +kernel
  have hsession : buildSession {} (searchRequest size) 0 = .ok
      { path := ascii "/data/loggrid/sessions/search_0_1700000000.log", searchId := 0, maxResults := 10000 } := by
    unfold buildSession
    rw [show (createSessionFilePath ({} : Settings).baseDir (searchRequest size).world.timestamp
      (searchRequest size).world.disk (searchRequest size).config.outputDir 0).1 = _ from hpath]
    rfl
  refine ⟨{ path := ascii "/data/loggrid/sessions/search_0_1700000000.log", searchId := 0, maxResults := 10000 },
    rfl, ?_⟩
  unfold prepareSearch
  rw [hsession, collectTasks_small size hsize]
  simp only [bind, Except.bind, pure, Except.pure]
  rw [if_neg (by rintro ⟨-, herrors⟩; exact absurd herrors (by decide))]

def searchFile (size : FileSize) : Op := .startSearch (searchRequest size)

/-- What `WorkerClient::SendHello` sends. -/
def helloMessage (threadsAvailable : UInt64) : Message :=
  ({ header := { id := LogSearchMsg.workerHello.value } } : Message).push (HelloMessage.mk threadsAvailable)

/-- A search of two chunks, a worker with one thread, and its first answer up to the next dispatch. -/
def twoChunks : List Event :=
  [.call (searchFile twoChunkSize), .run 0 {}, .run 0 {}, .run 0 {},
    .call (.onMessage 10000 (helloMessage 1)), .run 0 {}, .run 0 {},
    .call (.onMessage 10000 (BatchCodec.taskDoneMessage { taskId := 1 })), .run 0 {}, .run 0 {}]

def afterTwoChunks : System := Runs.after (step {}) Any System.initial twoChunks

theorem afterTwoChunks_reachable : Reachable {} afterTwoChunks :=
  Runs.reaches_after twoChunks .start (by decide +kernel)

/-- The first chunk is counted, and the answer for the second comes in. -/
def secondAnswer : List Event :=
  [.run 0 {}, .run 0 {}, .call (.onMessage 10000 (BatchCodec.taskDoneMessage { taskId := 2 })), .run 0 {}]

def afterSecondAnswer : System := Runs.after (step {}) Any afterTwoChunks secondAnswer

/-- One chunk is done while the answer for the other is handled; they are different chunks. -/
theorem task_ledger_two_chunks :
    let m := afterSecondAnswer.shared.server
    let aggregating := afterSecondAnswer.threads.flatMap held
    let counted := afterSecondAnswer.shared.history.counted
    (∃ session, m.sessions.lookup 0 = some session ∧ session.chunksDone.toInt = 1 ∧ session.chunksTotal.toInt = 2) ∧
    counted.map (·.taskId) = [1] ∧ aggregating.map (·.taskId) = [2] ∧
    ((aggregating ++ counted).map fun t => (t.searchId, chunkOf t)).Nodup := by
  have hreach : Reachable {} afterSecondAnswer :=
    afterTwoChunks_reachable.trans (Runs.reaches_after secondAnswer .start (by decide +kernel))
  obtain ⟨hcount, -, hnodup, -⟩ := task_ledger {} afterSecondAnswer hreach
  obtain ⟨session, hsession⟩ : ∃ session, afterSecondAnswer.shared.server.sessions.lookup 0 = some session :=
    Option.isSome_iff_exists.mp (by decide +kernel)
  obtain ⟨hdone, htotal⟩ := hcount 0 session hsession (by decide +kernel)
  have hone : afterSecondAnswer.shared.history.counted.countP (·.searchId = 0) = 1 := by decide +kernel
  have hpending : afterSecondAnswer.shared.server.pendingTasks = [] := by decide +kernel
  have hinFlight : afterSecondAnswer.shared.server.inFlight = [] := by decide +kernel
  have hheld : (afterSecondAnswer.threads.flatMap held).countP (·.searchId = 0) = 1 := by decide +kernel
  rw [hone] at hdone
  rw [hdone, hpending, hinFlight, hheld] at htotal
  rw [hpending, hinFlight, List.nil_append, List.nil_append] at hnodup
  exact ⟨⟨session, hsession, hdone, htotal⟩, by decide +kernel, by decide +kernel, hnodup⟩

end LogGrid.Master
