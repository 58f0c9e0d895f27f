import LogGrid.Master.Answers

/-!
# What a worker reads in a task

A request goes through two fixed arrays into a message, and comes out of them
as C strings. The path was measured before; the keyword was not.
-/

open LogGrid.StandardLayout LogGrid.Runs LogGrid.Tiling

namespace LogGrid.Master

/-! ## Tasks on the wire -/

def wireTask (task : TaskPayload) : TaskPayload :=
  { task with searchId := task.searchId % 2 ^ 64, taskId := task.taskId % 2 ^ 64 }

theorem taskMessage_pop (task : TaskPayload) :
    ∃ rest, (taskMessage task).pop TaskPayload = .ok (wireTask task, rest) := by
  have hbody : (taskMessage task).body = [] ++ toBytes (wireTask task) := by
    have h₁ := LittleEndian.encode_mod 8 task.searchId
    have h₂ := LittleEndian.encode_mod 8 task.taskId
    simp only [toBytes, wireTask]
    rw [show (2 : Nat) ^ 64 = 256 ^ 8 from rfl, h₁, h₂]
    rfl
  have hholds : Holds (wireTask task) := ⟨Nat.mod_lt _ (by decide), Nat.mod_lt _ (by decide)⟩
  exact ⟨_, Message.pop_of_body (taskMessage task) [] (wireTask task) hbody hholds⟩

/-! ## What was asked for -/

def Search.files (search : Search) : List (Bytes × FileSize) :=
  (search.request.world.node search.target).files search.target

/-- What a worker reads in a task. -/
structure Reading where
  keyword : Bytes
  filename : Bytes
  maxResults : UInt64
  searchId : UInt64
  offsets : Nat × Nat
  deriving DecidableEq

def reading (task : TaskPayload) : Reading where
  keyword := task.keyword.cStr
  filename := task.filename.cStr
  maxResults := task.maxResults
  searchId := UInt64.ofNat task.searchId
  offsets := range task

/-- The task is dispatched with an id, and its message is read. -/
def readBack (taskId : Nat) (task : TaskPayload) : Except Exn Reading :=
  ((taskMessage { task with taskId }).pop TaskPayload).map fun read => reading read.1

/-- The chunks of the files of the search, one file after the other, with `keyword`. -/
def Search.readings (search : Search) (keyword : Bytes) : List Reading :=
  search.files.flatMap fun f => (pieces chunkSize.toNat 0 f.2.val.toNat).map fun offsets => {
    keyword
    filename := f.1
    maxResults := search.request.config.maxResults
    searchId := UInt64.ofNat search.session.searchId
    offsets }

/-- Whatever ids the tasks are dispatched with, the workers read the request in them: in order, every
chunk of every file, each with the path of its own file. -/
def Faithful (search : Search) : Prop :=
  ∀ taskId, search.newTasks.map (readBack taskId) = (search.readings search.request.keyword).map .ok

/-- The text fits into `TaskPayload::keyword` as it is. -/
def KeywordFits (keyword : Bytes) : Prop := keyword.length < 64 ∧ 0 ∉ keyword

/-- Every message that was sent is a task of a published search. -/
def SentPublished (s : Shared) : Prop :=
  ∀ x ∈ s.sent, ∃ task ∈ published s.history, ∃ taskId, x.2 = taskMessage { task with taskId }

section

variable {settings : Settings} {guard : System → Event → Prop} {p : System}

theorem Prepared.task_file {search : Search} (h : Prepared settings search) :
    ∀ t ∈ search.newTasks, ∃ f ∈ search.files,
      Fits f.1 ∧
        SameRequest (baseTask search.request.keyword search.session.searchId search.request.config f.1) t := by
  obtain ⟨-, -, hfit, htasks⟩ := prepareSearch_spec settings _ _ _ _ _ h.1 h.2
  intro t ht
  rw [htasks] at ht
  obtain ⟨f, hf, ht⟩ := List.mem_flatMap.mp ht
  exact ⟨f, hf, hfit f hf, (fileTasks_spec _ _ _ f).2 t ht⟩

theorem readBack_eq (taskId : Nat) (task : TaskPayload) : readBack taskId task = .ok (reading task) := by
  obtain ⟨rest, hpop⟩ := taskMessage_pop { task with taskId }
  have hid : UInt64.ofNat (task.searchId % 2 ^ 64) = UInt64.ofNat task.searchId :=
    UInt64.toNat_inj.mp (by simp)
  unfold readBack
  rw [hpop]
  simp only [Except.map, reading, wireTask, hid, range]

/-- Everything arrives but what `strncpy` cuts off the keyword. -/
theorem Prepared.reads {search : Search} (h : Prepared settings search) (taskId : Nat) :
    search.newTasks.map (readBack taskId) =
      (search.readings (CharArray.strncpy 64 search.request.keyword).cStr).map .ok := by
  obtain ⟨-, -, hfit, htasks⟩ := prepareSearch_spec settings _ _ _ _ _ h.1 h.2
  unfold Search.readings
  rw [htasks, List.map_flatMap, List.map_flatMap]
  apply List.flatMap_congr
  intro f hf
  have hpath := CharArray.cStr_strncpy 256 f.1 (hfit f hf).1 (hfit f hf).2
  rw [← fileTasks_ranges search.request.keyword search.session.searchId search.request.config f,
    List.map_map, List.map_map]
  apply List.map_congr_left
  intro task htask
  have hsame := (fileTasks_spec search.request.keyword search.session.searchId search.request.config f).2 task htask
  rw [readBack_eq, Function.comp_apply, Function.comp_apply, hsame]
  simp only [reading, baseTask, hpath, range]

theorem Search.keyword_of_mem (search : Search) (keyword : Bytes) :
    ∀ r ∈ search.readings keyword, r.keyword = keyword := by
  intro r hr
  obtain ⟨f, -, hr⟩ := List.mem_flatMap.mp hr
  obtain ⟨offsets, -, rfl⟩ := List.mem_map.mp hr
  rfl

theorem Search.readings_inj (search : Search) (keyword keyword' : Bytes) :
    search.readings keyword = search.readings keyword' ↔ search.files = [] ∨ keyword = keyword' := by
  constructor
  · intro heq
    cases hfiles : search.files with
    | nil => exact Or.inl rfl
    | cons f files =>
      -- The first file has a chunk, and its keyword is on both sides.
      have hf : f ∈ search.files := by rw [hfiles]; exact List.mem_cons_self
      have hsize : 0 < f.2.val.toNat := Nat.pos_of_ne_zero fun hzero =>
        Node.files_nonempty _ _ f hf (UInt64.toNat_inj.mp hzero)
      have hmem : _ ∈ search.readings keyword := List.mem_flatMap.mpr ⟨f, hf, List.mem_map_of_mem
        (by rw [pieces_cons _ _ _ (by decide) hsize]; exact List.mem_cons_self)⟩
      exact Or.inr (search.keyword_of_mem keyword' _ (heq ▸ hmem))
  · rintro (hnone | rfl)
    · unfold Search.readings
      rw [hnone, List.flatMap_nil, List.flatMap_nil]
    · rfl

theorem Prepared.faithful_iff {search : Search} (h : Prepared settings search) :
    Faithful search ↔ search.files = [] ∨ KeywordFits search.request.keyword := by
  have hkept := CharArray.cStr_strncpy_iff 64 search.request.keyword (by decide)
  have hreadings := search.readings_inj (CharArray.strncpy 64 search.request.keyword).cStr search.request.keyword
  unfold KeywordFits
  rw [← hkept, ← hreadings]
  constructor
  · intro hfaithful
    have heq := (h.reads 0).symm.trans (hfaithful 0)
    exact List.map_injective_iff.mpr (fun _ _ => Except.ok.inj) heq
  · intro heq taskId
    rw [h.reads taskId, heq]

/-! ## What is sent -/

theorem SentPublished.mono {s s' : Shared} (h : SentPublished s) (hsent : s'.sent = s.sent)
    (hhistory : published s.history ⊆ published s'.history) : SentPublished s' := by
  intro x hx
  rw [hsent] at hx
  obtain ⟨task, htask, taskId, hmsg⟩ := h x hx
  exact ⟨task, hhistory htask, taskId, hmsg⟩

theorem SentPublished.dispatch {s : Shared} (h : SentPublished s) (client : Nat)
    (hpending : ∀ t ∈ s.server.pendingTasks, ∃ t' ∈ published s.history, anonymous t' = anonymous t) :
    SentPublished (dispatch s client).1 := by
  unfold Master.dispatch
  have hspec := s.server.dispatchNextTask_spec client
  generalize s.server.dispatchNextTask client = r at hspec
  cases hspec with
  | sent slots task pendingTasks _ hcons =>
    intro x hx
    rcases List.mem_cons.mp hx with rfl | hx
    · obtain ⟨t', ht', heq⟩ := hpending task (by rw [hcons]; exact List.mem_cons_self)
      refine ⟨t', ht', s.server.nextTaskId + 1, ?_⟩
      have := congrArg (fun t : TaskPayload => { t with taskId := s.server.nextTaskId + 1 }) heq
      exact congrArg taskMessage this.symm
    · exact h x hx
  | _ => exact h.mono rfl (List.Subset.refl _)

theorem sentPublished (h : Reaches (step settings) guard System.initial p) : SentPublished p.shared := by
  apply system_invariant (fun s _ => SentPublished s) _ _ _ _ h
  · intro x hx
    cases hx
  · intro s l l' _ hinv
    exact hinv
  · intro p op _ _ hinv
    obtain ⟨hellos, hshared⟩ := begin_shared settings p.shared op
    rw [hshared]
    exact hinv.mono rfl (List.Subset.refl _)
  · intro p thread choice pc rest s' next hreach _ _ _ hinv hran
    rcases hran.sent with ⟨client, rfl⟩ | ⟨hsent, -⟩
    · apply hinv.dispatch client
      intro t ht
      have hmem : t ∈ ledger p.shared p.threads :=
        List.mem_append_right _ (List.mem_append_right _ (List.mem_append_left _ ht))
      obtain ⟨t', ht', heq⟩ := List.mem_map.mp ((conserved hreach).mem_iff.mp (List.mem_map_of_mem hmem))
      exact ⟨t', ht', heq⟩
    · apply hinv.mono hsent
      unfold published
      rw [hran.history.1, List.flatMap_append]
      exact List.subset_append_right _ _

end

/-- **Tasks carry the request** exactly when the keyword fits into its array: every message sent is a task
of a published search, and in the tasks of a search the workers read each chunk of its files, in order, with
the path of that file and what was asked for. -/
theorem tasks_carry_request_iff (settings : Settings) (p : System) (h : Reachable settings p) :
    SentPublished p.shared ∧ ∀ search ∈ p.shared.history.searches,
      Faithful search ↔ search.files = [] ∨ KeywordFits search.request.keyword := by
  constructor
  · exact sentPublished h
  · intro search hsearch
    exact ((allPrepared h).searches search hsearch).faithful_iff

/-! ## Two files -/

/-- A directory with a file of one chunk and a file of two. -/
def twoFiles : World where
  canonical p := if p = ascii "/app/data" ∨ p = ascii "/app/data/logs" then some p else none
  node _ := .directory (some (.entry (ascii "a.log") (.file (some oneChunkSize))
    (.entry (ascii "b.log") (.file (some twoChunkSize)) (.stop false))))
  timestamp := 1700000000
  disk := freshDisk
  canonical_text p q h := by
    split at h
    · rename_i hp
      cases h
      rcases hp with rfl | rfl <;> decide
    · cases h
  node_wellFormed _ := by decide +kernel

def directoryRequest : Request :=
  { filepath := ascii "logs", keyword := ascii "ERROR", config := {}, world := twoFiles }

def afterDirectory : System :=
  Runs.after (step {}) Any System.initial [.call (.startSearch directoryRequest), .run 0 {}, .run 0 {}]

/-- Each of the three tasks has the path of its own file. -/
theorem tasks_carry_request_two_files : ∃ search ∈ afterDirectory.shared.history.searches, Faithful search ∧
    (search.readings (ascii "ERROR")).map (fun r => (r.filename, r.offsets)) =
      [(ascii "/app/data/logs/a.log", 0, 100), (ascii "/app/data/logs/b.log", 0, 5242880),
        (ascii "/app/data/logs/b.log", 5242880, 6000000)] := by
  have hreach : Reachable {} afterDirectory := Runs.reaches_after _ .start (by decide +kernel)
  obtain ⟨-, hiff⟩ := tasks_carry_request_iff {} afterDirectory hreach
  obtain ⟨search, hsearch, hfits, hreadings⟩ : ∃ search ∈ afterDirectory.shared.history.searches,
      (search.request.keyword.length < 64 ∧ 0 ∉ search.request.keyword) ∧
      (search.readings (ascii "ERROR")).map (fun r => (r.filename, r.offsets)) =
        [(ascii "/app/data/logs/a.log", 0, 100), (ascii "/app/data/logs/b.log", 0, 5242880),
          (ascii "/app/data/logs/b.log", 5242880, 6000000)] := by decide +kernel
  exact ⟨search, hsearch, (hiff search hsearch).mpr (Or.inr hfits), hreadings⟩

/-! ## A keyword that is too long -/

def longKeyword : Bytes := List.replicate 64 (ch 'E')

def afterLongKeyword : System :=
  Runs.after (step {}) Any System.initial
    [.call (.startSearch { searchRequest oneChunkSize with keyword := longKeyword }), .run 0 {}, .run 0 {}]

/-- The search for 64 letters is accepted, and its task asks for 63. -/
theorem long_keyword_cut : Reachable {} afterLongKeyword ∧
    ∃ search ∈ afterLongKeyword.shared.history.searches, ¬ Faithful search := by
  have hreach : Reachable {} afterLongKeyword := Runs.reaches_after _ .start (by decide +kernel)
  refine ⟨hreach, ?_⟩
  obtain ⟨search, hsearch, hlong⟩ : ∃ search ∈ afterLongKeyword.shared.history.searches,
      ¬ search.request.keyword.length < 64 ∧ search.files.isEmpty = false := by decide +kernel
  refine ⟨search, hsearch, ?_⟩
  rw [((allPrepared hreach).searches search hsearch).faithful_iff]
  rintro (hnone | hfits)
  · rw [hnone] at hlong
    cases hlong.2
  · exact hlong.1 hfits.1

end LogGrid.Master
