import LogGrid.Master.Chunks
import LogGrid.Master.SessionPath

/-!
# What `StartSearch` does without the lock

It finds the files of a search and cuts them into tasks. What the file system
answers to each call is given: a tree in which every call has its answer.
-/

open LogGrid.Path LogGrid.Tiling

namespace LogGrid.Master

/-- A size from `file_size()`, which holds a non-negative `off_t`. -/
abbrev FileSize := { n : UInt64 // n.toNat < 2 ^ 63 }

/-! ## The file system -/

mutual

/-- What the master learns of a path. The size is `none` when `file_size` fails, and the listing is
`none` when the directory cannot be opened. -/
inductive Node
  | symlink
  | directory (listing : Option Listing)
  | file (size : Option FileSize)
  | other
  | unexaminable

/-- A directory in the order it is listed, up to where `increment` reaches the end or fails. -/
inductive Listing
  | stop (failed : Bool)
  | entry (name : Name) (node : Node) (rest : Listing)

end

def Listing.names : Listing → List Name
  | .stop _ => []
  | .entry name _ rest => name :: rest.names

def isEntryName (name : Name) : Bool := name ≠ [] ∧ sep ∉ name ∧ 0 ∉ name

mutual

/-- The names of a directory are names, and no two entries share one. -/
def Node.wellFormed : Node → Bool
  | .directory (some listing) => listing.wellFormed
  | _ => true

def Listing.wellFormed : Listing → Bool
  | .stop _ => true
  | .entry name node rest => isEntryName name && name ∉ rest.names && node.wellFormed && rest.wellFormed

end

/-- The file system and the clock during one call of `StartSearch`. -/
structure World where
  canonical : Bytes → Option Bytes
  node : Bytes → Node
  timestamp : Int
  disk : Disk
  canonical_text : ∀ p q, canonical p = some q → 0 ∉ q
  node_wellFormed : ∀ p, (node p).wellFormed = true

/-! ## Scanning -/

/-- The two out-parameters of the scan. -/
structure ScanState where
  outTasks : List TaskPayload := []
  scanErrors : UInt64 := 0

def ScanState.fail (s : ScanState) : ScanState := { s with scanErrors := s.scanErrors + 1 }

theorem enqueueFileChunks_isSome (size : FileSize) (baseTask : TaskPayload) (outTasks : List TaskPayload) :
    (enqueueFileChunks chunkSize size baseTask outTasks).isSome := by
  obtain ⟨tasks, h, -⟩ := enqueueFileChunks_spec chunkSize size baseTask outTasks (by decide)
    (by have := size.2; simp [chunkSize]; omega)
  rw [h]; rfl

section

variable (keyword : Bytes) (searchId : Nat) (config : SearchConfig)

def processSingleFile (targetPath : Bytes) (size : Option FileSize) (s : ScanState) :
    Except Exn (Bool × ScanState) :=
  match size with
  | none => .ok (false, s)
  | some sz =>
    if sz.val = 0 then .ok (true, s)
    else if 256 ≤ targetPath.length then .ok (false, s)
    else
      match createChunkTask targetPath keyword searchId config with
      | .error e => .error e
      | .ok baseTask =>
        .ok (true, { s with
          outTasks := (enqueueFileChunks chunkSize sz baseTask s.outTasks).get
            (enqueueFileChunks_isSome sz baseTask s.outTasks) })

mutual

def scanDirectoryRecursively (dir : Bytes) (listing : Option Listing) (s : ScanState) :
    Except Exn ScanState :=
  match listing with
  | none => .ok s.fail
  | some listing => scanEntries dir listing s

/-- Its loop, from the current entry on. -/
def scanEntries (dir : Bytes) : Listing → ScanState → Except Exn ScanState
  | .stop failed, s => .ok (if failed then s.fail else s)
  | .entry name node rest, s =>
    match scanEntry (append dir name) node s with
    | .error e => .error e
    | .ok s => scanEntries dir rest s

def scanEntry (path : Bytes) : Node → ScanState → Except Exn ScanState
  | .symlink, s => .ok s
  | .directory listing, s => scanDirectoryRecursively path listing s
  | .file size, s =>
    match processSingleFile keyword searchId config path size s with
    | .error e => .error e
    | .ok (true, s) => .ok s
    | .ok (false, s) => .ok s.fail
  | .other, s => .ok s
  | .unexaminable, s => .ok s.fail

end

end

/-! ## The whole search -/

/-- The directories from the environment of the master process. -/
structure Settings where
  inputDir : Bytes := ascii "/app/data"
  baseDir : Bytes := ascii "/data/loggrid"

/-- `SearchSession`. -/
structure SearchSession where
  path : Bytes := []
  searchId : Nat := 0
  maxResults : UInt64 := 0
  totalMatches : UInt64 := 0
  lineCount : UInt64 := 0
  scanErrors : UInt64 := 0
  chunksTotal : Int32 := 0
  chunksDone : Int32 := 0
  deriving DecidableEq

/-- One call of `StartSearch`. -/
structure Request where
  filepath : Bytes
  keyword : Bytes
  config : SearchConfig
  world : World

/-- `if (!baseStr.ends_with('/')) baseStr += '/'`. -/
def withSeparator (baseStr : Bytes) : Bytes :=
  if baseStr.getLast? = some sep then baseStr else baseStr ++ [sep]

/-- The checks before `AllocateSearchId`: the canonical path of what is searched. -/
def resolveTarget (settings : Settings) (request : Request) : Except Exn Bytes :=
  match request.world.canonical settings.inputDir with
  | none => .error (.runtimeError (ascii "[MASTER] Input directory unavailable: " ++ settings.inputDir))
  | some baseCanon =>
    match request.world.canonical (append baseCanon (makeRelative request.filepath)) with
    | none => .error (.runtimeError (ascii "[MASTER] Path not found: " ++ request.filepath))
    | some targetCanon =>
      if targetCanon ≠ baseCanon ∧ ¬ withSeparator baseCanon <+: targetCanon then
        .error (.runtimeError (ascii "[MASTER] Path not found: " ++ request.filepath))
      else .ok targetCanon

def buildSession (settings : Settings) (request : Request) (searchId : Nat) : Except Exn SearchSession :=
  match (createSessionFilePath settings.baseDir request.world.timestamp request.world.disk
      request.config.outputDir searchId).1 with
  | .error e => .error e
  | .ok path => .ok { path, searchId, maxResults := request.config.maxResults }

/-- The branches of `StartSearch` on the type of the target. -/
def collectTasks (request : Request) (searchId : Nat) (targetCanon : Bytes) : Except Exn ScanState :=
  match request.world.node targetCanon with
  | .directory listing =>
    scanDirectoryRecursively request.keyword searchId request.config targetCanon listing {}
  | .file size =>
    match processSingleFile request.keyword searchId request.config targetCanon size {} with
    | .error e => .error e
    | .ok (true, s) => .ok s
    | .ok (false, _) =>
      .error (.runtimeError (ascii "[MASTER] Error occurred while reading a file: " ++ request.filepath))
  | .symlink | .other =>
    .error (.runtimeError (ascii "[MASTER] Unsupported path type: " ++ request.filepath))
  | .unexaminable => .error .filesystemError

/-- `StartSearch` between `AllocateSearchId` and `AddPendingTasks`. -/
def prepareSearch (settings : Settings) (request : Request) (targetCanon : Bytes) (searchId : Nat) :
    Except Exn (SearchSession × List TaskPayload) := do
  let session ← buildSession settings request searchId
  let scan ← collectTasks request searchId targetCanon
  if scan.outTasks = [] ∧ scan.scanErrors > 0 then
    throw (.runtimeError (ascii "[MASTER] Could not scan path: " ++ request.filepath))
  return ({ session with scanErrors := scan.scanErrors }, scan.outTasks)

/-! ## What a scan finds -/

/-- A file that can be searched and has something to search. -/
def searchedFile (path : Bytes) : Option FileSize → List (Bytes × FileSize)
  | none => []
  | some sz => if sz.val = 0 ∨ 256 ≤ path.length then [] else [(path, sz)]

mutual

def Node.files (path : Bytes) : Node → List (Bytes × FileSize)
  | .directory (some listing) => listing.files path
  | .file size => searchedFile path size
  | _ => []

def Listing.files (dir : Bytes) : Listing → List (Bytes × FileSize)
  | .stop _ => []
  | .entry name node rest => node.files (append dir name) ++ rest.files dir

end

section

variable (keyword : Bytes) (searchId : Nat) (config : SearchConfig)

/-- The task that `CreateChunkTask` makes of a path that is short enough. -/
def baseTask (path : Bytes) : TaskPayload where
  searchId
  taskId := 0
  maxResults := config.maxResults
  startOffset := 0
  endOffset := 0
  keyword := .strncpy 64 keyword
  filename := .strncpy 256 path

def fileTasks (f : Bytes × FileSize) : List TaskPayload :=
  (enqueueFileChunks chunkSize f.2 (baseTask keyword searchId config f.1) []).get
    (enqueueFileChunks_isSome f.2 _ [])

theorem enqueueFileChunks_get (f : Bytes × FileSize) (outTasks : List TaskPayload)
    (h : (enqueueFileChunks chunkSize f.2 (baseTask keyword searchId config f.1) outTasks).isSome) :
    (enqueueFileChunks chunkSize f.2 (baseTask keyword searchId config f.1) outTasks).get h =
      outTasks ++ fileTasks keyword searchId config f := by
  have := enqueueLoop_append chunkSize f.2 (baseTask keyword searchId config f.1) (2 ^ 64) 0 outTasks []
  rw [List.append_nil] at this
  unfold fileTasks
  simp only [enqueueFileChunks, this, Option.get_map]

theorem enqueueFileChunks_fileTasks (f : Bytes × FileSize) :
    enqueueFileChunks chunkSize f.2 (baseTask keyword searchId config f.1) [] =
      some (fileTasks keyword searchId config f) := by
  unfold fileTasks
  exact (Option.some_get _).symm

theorem fileTasks_spec (f : Bytes × FileSize) :
    Tiles 0 ((fileTasks keyword searchId config f).map range) f.2.val.toNat ∧
      ∀ t ∈ fileTasks keyword searchId config f, SameRequest (baseTask keyword searchId config f.1) t := by
  obtain ⟨tasks, h, htile, hall⟩ := enqueueFileChunks_spec chunkSize f.2
    (baseTask keyword searchId config f.1) [] (by decide) (by have := f.2.2; simp [chunkSize]; omega)
  rw [enqueueFileChunks_fileTasks, List.nil_append, Option.some.injEq] at h
  rw [h]
  exact ⟨htile, fun t ht => (hall t ht).1⟩

theorem fileTasks_length_le (f : Bytes × FileSize) : ∀ t ∈ fileTasks keyword searchId config f,
    t.endOffset.toNat ≤ t.startOffset.toNat + chunkSize.toNat := by
  obtain ⟨tasks, h, -, hall⟩ := enqueueFileChunks_spec chunkSize f.2
    (baseTask keyword searchId config f.1) [] (by decide) (by have := f.2.2; simp [chunkSize]; omega)
  rw [enqueueFileChunks_fileTasks, List.nil_append, Option.some.injEq] at h
  rw [h]
  exact fun t ht => (hall t ht).2

theorem fileTasks_ranges (f : Bytes × FileSize) :
    (fileTasks keyword searchId config f).map range = pieces chunkSize.toNat 0 f.2.val.toNat := by
  obtain ⟨tasks, h, hranges, -⟩ := enqueueFileChunks_ranges chunkSize f.2
    (baseTask keyword searchId config f.1) [] (by decide) (by have := f.2.2; simp [chunkSize]; omega)
  rw [enqueueFileChunks_fileTasks, List.nil_append, Option.some.injEq] at h
  rw [h]
  exact hranges

theorem fileTasks_length (f : Bytes × FileSize) :
    (fileTasks keyword searchId config f).length =
      (f.2.val.toNat + (chunkSize.toNat - 1)) / chunkSize.toNat := by
  have hlength := congrArg List.length (fileTasks_ranges keyword searchId config f)
  rwa [List.length_map, pieces_length, Nat.sub_zero] at hlength
/-- `s'` is `s` with the tasks of some files, and possibly more errors. -/
def Found (s : ScanState) (files : List (Bytes × FileSize)) (r : Except Exn ScanState) : Prop :=
  ∃ s', r = .ok s' ∧ s'.outTasks = s.outTasks ++ files.flatMap (fileTasks keyword searchId config)

theorem processSingleFile_spec (path : Bytes) (size : Option FileSize) (s : ScanState) :
    ∃ handled s', processSingleFile keyword searchId config path size s = .ok (handled, s') ∧
      s'.outTasks = s.outTasks ++ (searchedFile path size).flatMap (fileTasks keyword searchId config) := by
  unfold processSingleFile searchedFile
  cases size with
  | none => exact ⟨false, s, rfl, by simp⟩
  | some sz =>
    by_cases hzero : sz.val = 0
    · exact ⟨true, s, by simp [hzero], by simp [hzero]⟩
    · by_cases hlong : 256 ≤ path.length
      · exact ⟨false, s, by simp [hzero, hlong], by simp [hlong]⟩
      · simp only [hzero, hlong, if_false, createChunkTask, or_self]
        exact ⟨true, _, rfl,
          (enqueueFileChunks_get keyword searchId config (path, sz) s.outTasks _).trans (by simp)⟩

mutual

theorem scanEntry_spec (path : Bytes) (node : Node) (s : ScanState) :
    Found keyword searchId config s (node.files path) (scanEntry keyword searchId config path node s) := by
  cases node with
  | symlink => exact ⟨s, by simp [scanEntry], by simp [Node.files]⟩
  | directory listing =>
    cases listing with
    | none => exact ⟨s.fail, by simp [scanEntry, scanDirectoryRecursively], by simp [Node.files, ScanState.fail]⟩
    | some listing =>
      simp only [scanEntry, scanDirectoryRecursively, Node.files]
      exact scanEntries_spec path listing s
  | file size =>
    obtain ⟨handled, s', h, htasks⟩ := processSingleFile_spec keyword searchId config path size s
    simp only [scanEntry, h, Node.files]
    cases handled with
    | true => exact ⟨s', rfl, htasks⟩
    | false => exact ⟨s'.fail, rfl, htasks⟩
  | other => exact ⟨s, by simp [scanEntry], by simp [Node.files]⟩
  | unexaminable => exact ⟨s.fail, by simp [scanEntry], by simp [Node.files, ScanState.fail]⟩

theorem scanEntries_spec (dir : Bytes) (listing : Listing) (s : ScanState) :
    Found keyword searchId config s (listing.files dir) (scanEntries keyword searchId config dir listing s) := by
  cases listing with
  | stop failed =>
    cases failed with
    | true => exact ⟨s.fail, by simp [scanEntries], by simp [Listing.files, ScanState.fail]⟩
    | false => exact ⟨s, by simp [scanEntries], by simp [Listing.files]⟩
  | entry name node rest =>
    obtain ⟨s₁, h₁, htasks₁⟩ := scanEntry_spec (append dir name) node s
    obtain ⟨s₂, h₂, htasks₂⟩ := scanEntries_spec dir rest s₁
    refine ⟨s₂, by simp only [scanEntries, h₁, h₂], ?_⟩
    rw [htasks₂, htasks₁, Listing.files, List.flatMap_append, List.append_assoc]

end

end

/-! ## No file is found twice -/

/-- The path that the names of a directory are appended to. -/
def dirText (dir : Bytes) : Bytes := if dir = [] ∨ dir.getLast? = some sep then dir else dir ++ [sep]

theorem isAbsolute_entryName (name : Name) (h : isEntryName name = true) : isAbsolute name = false := by
  unfold isEntryName at h
  simp only [decide_eq_true_eq] at h
  obtain ⟨b, rest, rfl⟩ := List.exists_cons_of_ne_nil h.1
  have : b ≠ sep := by
    rintro rfl
    exact h.2.1 (by simp)
  simp [isAbsolute, this]

theorem append_entryName (dir : Bytes) (name : Name) (h : isEntryName name = true) :
    append dir name = dirText dir ++ name := by
  unfold append dirText
  rw [if_neg (by simp [isAbsolute_entryName name h])]
  split <;> simp

theorem dirText_append (dir : Bytes) (name : Name) (h : isEntryName name = true) :
    dirText (append dir name) = append dir name ++ [sep] := by
  rw [append_entryName dir name h]
  unfold isEntryName at h
  simp only [decide_eq_true_eq] at h
  obtain ⟨start, b, rfl⟩ := (List.eq_nil_or_concat' name).resolve_left h.1
  have hb : b ≠ sep := by
    rintro rfl
    exact h.2.1 (by simp)
  rw [← List.append_assoc]
  unfold dirText
  rw [if_neg (by simp [hb])]

/-- `path` is `entry`, or lies below it. -/
def Under (entry path : Bytes) : Prop := ∃ below, path = entry ++ below ∧ ∀ b ∈ below.head?, b = sep

theorem under_unique (text path : Bytes) (name other : Name) (hname : sep ∉ name) (hother : sep ∉ other)
    (h : Under (text ++ name) path) (h' : Under (text ++ other) path) : name = other := by
  obtain ⟨below, rfl, hbelow⟩ := h
  obtain ⟨below', heq, hbelow'⟩ := h'
  rw [List.append_assoc, List.append_assoc, List.append_cancel_left_eq] at heq
  have h₁ : name <+: other := name_isPrefix name other below' hname hbelow' ⟨below, heq⟩
  have h₂ : other <+: name := name_isPrefix other name below hother hbelow ⟨below', heq.symm⟩
  exact h₁.eq_of_length (Nat.le_antisymm h₁.length_le h₂.length_le)

mutual

theorem Node.files_under (path : Bytes) (node : Node) (h : node.wellFormed = true)
    (hpath : dirText path = path ++ [sep]) : ∀ f ∈ node.files path, Under path f.1 := by
  intro f hf
  cases node with
  | symlink => simp [Node.files] at hf
  | directory listing =>
    cases listing with
    | none => simp [Node.files] at hf
    | some listing =>
      simp only [Node.files, Node.wellFormed] at hf h
      obtain ⟨name, -, below, hf', -⟩ := listing.files_under path h f hf
      rw [hpath] at hf'
      exact ⟨sep :: name ++ below, by rw [hf']; simp, by simp⟩
  | file size =>
    cases size with
    | none => simp [Node.files, searchedFile] at hf
    | some sz =>
      simp only [Node.files, searchedFile] at hf
      split at hf
      · simp at hf
      · obtain rfl := List.mem_singleton.mp hf
        exact ⟨[], by simp, by simp⟩
  | other => simp [Node.files] at hf
  | unexaminable => simp [Node.files] at hf

theorem Listing.files_under (dir : Bytes) (listing : Listing) (h : listing.wellFormed = true) :
    ∀ f ∈ listing.files dir, ∃ name ∈ listing.names, Under (dirText dir ++ name) f.1 := by
  intro f hf
  cases listing with
  | stop failed => simp [Listing.files] at hf
  | entry name node rest =>
    simp only [Listing.wellFormed, Bool.and_eq_true] at h
    obtain ⟨⟨⟨hname, -⟩, hnode⟩, hrest⟩ := h
    rw [Listing.files, List.mem_append] at hf
    rcases hf with hf | hf
    · refine ⟨name, by simp [Listing.names], ?_⟩
      rw [← append_entryName dir name hname]
      exact node.files_under (append dir name) hnode (dirText_append dir name hname) f hf
    · obtain ⟨name', hmem, hunder⟩ := rest.files_under dir hrest f hf
      exact ⟨name', by simp [Listing.names, hmem], hunder⟩

end

theorem Listing.names_proper (listing : Listing) (h : listing.wellFormed = true) :
    ∀ name ∈ listing.names, sep ∉ name := by
  intro name hmem
  cases listing with
  | stop failed => simp [Listing.names] at hmem
  | entry first node rest =>
    simp only [Listing.wellFormed, Bool.and_eq_true, isEntryName, decide_eq_true_eq] at h
    rw [Listing.names, List.mem_cons] at hmem
    rcases hmem with rfl | hmem
    · exact h.1.1.1.2.1
    · exact rest.names_proper h.2 name hmem

mutual

theorem Node.files_nodup (path : Bytes) (node : Node) (h : node.wellFormed = true) :
    ((node.files path).map Prod.fst).Nodup := by
  cases node with
  | symlink => simp [Node.files]
  | directory listing =>
    cases listing with
    | none => simp [Node.files]
    | some listing =>
      simp only [Node.wellFormed] at h
      exact listing.files_nodup path h
  | file size =>
    simp only [Node.files, searchedFile]
    split
    · simp
    · split <;> simp
  | other => simp [Node.files]
  | unexaminable => simp [Node.files]

theorem Listing.files_nodup (dir : Bytes) (listing : Listing) (h : listing.wellFormed = true) :
    ((listing.files dir).map Prod.fst).Nodup := by
  cases listing with
  | stop failed => simp [Listing.files]
  | entry name node rest =>
    have hproper := Listing.names_proper (.entry name node rest) h
    simp only [Listing.wellFormed, Bool.and_eq_true, decide_eq_true_eq] at h
    obtain ⟨⟨⟨hname, hnew⟩, hnode⟩, hrest⟩ := h
    rw [Listing.files, List.map_append, List.nodup_append]
    refine ⟨node.files_nodup _ hnode, rest.files_nodup dir hrest, ?_⟩
    intro path hpath path' hpath' heq
    obtain ⟨f, hf, rfl⟩ := List.mem_map.mp hpath
    obtain ⟨f', hf', rfl⟩ := List.mem_map.mp hpath'
    have hunder := node.files_under _ hnode (dirText_append dir name hname) f hf
    rw [append_entryName dir name hname] at hunder
    obtain ⟨other, hmem, hunder'⟩ := rest.files_under dir hrest f' hf'
    -- Both would be the same entry, which the listing has only once.
    have := under_unique (dirText dir) f.1 name other (hproper name (by simp [Listing.names]))
      (hproper other (by simp [Listing.names, hmem])) hunder (heq ▸ hunder')
    exact hnew (this ▸ hmem)

end

/-- A path that fits into `TaskPayload::filename` as it is. -/
def Fits (path : Bytes) : Prop := path.length < 256 ∧ 0 ∉ path

mutual

theorem Node.files_fit (path : Bytes) (node : Node) (h : node.wellFormed = true) (hpath : 0 ∉ path) :
    ∀ f ∈ node.files path, Fits f.1 := by
  intro f hf
  cases node with
  | symlink => simp [Node.files] at hf
  | directory listing =>
    cases listing with
    | none => simp [Node.files] at hf
    | some listing =>
      simp only [Node.files, Node.wellFormed] at hf h
      exact listing.files_fit path h hpath f hf
  | file size =>
    cases size with
    | none => simp [Node.files, searchedFile] at hf
    | some sz =>
      simp only [Node.files, searchedFile] at hf
      split at hf
      · simp at hf
      · rename_i hshort
        obtain rfl := List.mem_singleton.mp hf
        exact ⟨Nat.lt_of_not_le fun hlong => hshort (Or.inr hlong), hpath⟩
  | other => simp [Node.files] at hf
  | unexaminable => simp [Node.files] at hf

theorem Listing.files_fit (dir : Bytes) (listing : Listing) (h : listing.wellFormed = true)
    (hdir : 0 ∉ dir) : ∀ f ∈ listing.files dir, Fits f.1 := by
  intro f hf
  cases listing with
  | stop failed => simp [Listing.files] at hf
  | entry name node rest =>
    simp only [Listing.wellFormed, Bool.and_eq_true] at h
    obtain ⟨⟨⟨hname, -⟩, hnode⟩, hrest⟩ := h
    rw [Listing.files, List.mem_append] at hf
    rcases hf with hf | hf
    · refine node.files_fit _ hnode ?_ f hf
      rw [append_entryName dir name hname]
      simp only [isEntryName, decide_eq_true_eq] at hname
      unfold dirText
      split <;> simp [hdir, hname.2.2, sep]
    · exact rest.files_fit dir hrest hdir f hf

end

mutual

theorem Node.files_nonempty (path : Bytes) (node : Node) : ∀ f ∈ node.files path, f.2.val ≠ 0 := by
  intro f hf
  cases node with
  | symlink => simp [Node.files] at hf
  | directory listing =>
    cases listing with
    | none => simp [Node.files] at hf
    | some listing =>
      simp only [Node.files] at hf
      exact listing.files_nonempty path f hf
  | file size =>
    cases size with
    | none => simp [Node.files, searchedFile] at hf
    | some sz =>
      simp only [Node.files, searchedFile] at hf
      split at hf
      · simp at hf
      · rename_i hkept
        obtain rfl := List.mem_singleton.mp hf
        exact fun hzero => hkept (Or.inl hzero)
  | other => simp [Node.files] at hf
  | unexaminable => simp [Node.files] at hf

theorem Listing.files_nonempty (dir : Bytes) (listing : Listing) : ∀ f ∈ listing.files dir, f.2.val ≠ 0 := by
  intro f hf
  cases listing with
  | stop failed => simp [Listing.files] at hf
  | entry name node rest =>
    rw [Listing.files, List.mem_append] at hf
    rcases hf with hf | hf
    · exact node.files_nonempty _ f hf
    · exact rest.files_nonempty dir f hf

end

/-! ## The tasks of a search -/

/-- The byte range of a file that a task stands for. -/
def chunkOf (task : TaskPayload) : Bytes × UInt64 × UInt64 :=
  (task.filename.cStr, task.startOffset, task.endOffset)

section

variable (keyword : Bytes) (searchId : Nat) (config : SearchConfig)

theorem fileTasks_filename (f : Bytes × FileSize) (hfit : Fits f.1) :
    ∀ t ∈ fileTasks keyword searchId config f, t.filename.cStr = f.1 := by
  intro t ht
  rw [(fileTasks_spec keyword searchId config f).2 t ht]
  exact CharArray.cStr_strncpy 256 f.1 hfit.1 hfit.2

theorem fileTasks_nodup (f : Bytes × FileSize) : ((fileTasks keyword searchId config f).map chunkOf).Nodup := by
  have htile := (fileTasks_spec keyword searchId config f).1.nodup
  have hof : (fileTasks keyword searchId config f).map range =
      ((fileTasks keyword searchId config f).map chunkOf).map fun k => (k.2.1.toNat, k.2.2.toNat) := by
    rw [List.map_map]; rfl
  rw [hof] at htile
  exact htile.of_map _

theorem tasks_nodup (files : List (Bytes × FileSize)) (hnodup : (files.map Prod.fst).Nodup)
    (hfit : ∀ f ∈ files, Fits f.1) :
    ((files.flatMap (fileTasks keyword searchId config)).map chunkOf).Nodup := by
  rw [List.map_flatMap, List.nodup_flatMap]
  refine ⟨fun f _ => fileTasks_nodup keyword searchId config f, ?_⟩
  have hpairs := List.pairwise_map.mp (List.nodup_iff_pairwise_ne.mp hnodup)
  refine hpairs.imp_of_mem ?_
  intro f f' hf hf' hne chunk hchunk hchunk'
  obtain ⟨t, ht, rfl⟩ := List.mem_map.mp hchunk
  obtain ⟨t', ht', heq⟩ := List.mem_map.mp hchunk'
  have h₁ := fileTasks_filename keyword searchId config f (hfit f hf) t ht
  have h₂ := fileTasks_filename keyword searchId config f' (hfit f' hf') t' ht'
  have : t'.filename.cStr = t.filename.cStr := congrArg Prod.fst heq
  exact hne (by rw [← h₁, ← h₂, this])

end

theorem resolveTarget_text (settings : Settings) (request : Request) (target : Bytes)
    (h : resolveTarget settings request = .ok target) : 0 ∉ target := by
  unfold resolveTarget at h
  split at h
  · cases h
  · split at h
    · cases h
    · rename_i hcanon
      split at h
      · cases h
      · cases h
        exact request.world.canonical_text _ _ hcanon

theorem collectTasks_spec (request : Request) (searchId : Nat) (target : Bytes) (scan : ScanState)
    (h : collectTasks request searchId target = .ok scan) :
    scan.outTasks = ((request.world.node target).files target).flatMap
      (fileTasks request.keyword searchId request.config) := by
  unfold collectTasks at h
  split at h
  · rename_i listing hnode
    obtain ⟨s', hs, htasks⟩ := scanEntry_spec request.keyword searchId request.config target
      (.directory listing) {}
    rw [scanEntry, h] at hs
    cases hs
    rw [htasks, hnode]
    simp
  · rename_i size hnode
    obtain ⟨handled, s', hs, htasks⟩ := processSingleFile_spec request.keyword searchId request.config
      target size {}
    rw [hs] at h
    cases handled with
    | true =>
      cases h
      rw [htasks, hnode, Node.files]
      simp
    | false => cases h
  · cases h
  · cases h
  · cases h

/-- **What a prepared search looks like**: a fresh session, and the chunks of different files. -/
theorem prepareSearch_spec (settings : Settings) (request : Request) (target : Bytes) (searchId : Nat)
    (session : SearchSession) (tasks : List TaskPayload) (htarget : 0 ∉ target)
    (h : prepareSearch settings request target searchId = .ok (session, tasks)) :
    (∃ path scanErrors, session =
      { path, searchId, maxResults := request.config.maxResults, scanErrors } ∧
      (createSessionFilePath settings.baseDir request.world.timestamp request.world.disk
        request.config.outputDir searchId).1 = .ok path) ∧
    let files := (request.world.node target).files target
    (files.map Prod.fst).Nodup ∧ (∀ f ∈ files, Fits f.1) ∧
      tasks = files.flatMap (fileTasks request.keyword searchId request.config) := by
  unfold prepareSearch at h
  cases hsession : buildSession settings request searchId with
  | error e => simp [hsession, bind, Except.bind] at h
  | ok built =>
    cases hscan : collectTasks request searchId target with
    | error e => simp [hsession, hscan, bind, Except.bind] at h
    | ok scan =>
      simp only [hsession, hscan, bind, Except.bind, pure, Except.pure, throw, throwThe,
        MonadExceptOf.throw] at h
      split at h
      · cases h
      · cases h
        refine ⟨?_, ?_⟩
        · unfold buildSession at hsession
          split at hsession
          · cases hsession
          · rename_i path hpath
            cases hsession
            exact ⟨path, _, rfl, hpath⟩
        · have hwf := request.world.node_wellFormed target
          exact ⟨Node.files_nodup target _ hwf, Node.files_fit target _ hwf htarget,
            collectTasks_spec request searchId target scan hscan⟩

end LogGrid.Master
