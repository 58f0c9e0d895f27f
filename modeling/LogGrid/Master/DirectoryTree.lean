import LogGrid.Master.Scan

/-!
# `ScanDirectoryRecursively` call by call

What is on disk, and what comes of each call the scan makes. One `error_code`
is shared by the tests of an entry, so a later call can clear the error of an
earlier one; what the master learns of the tree is the tree of `Scan`.
-/

open LogGrid.Path LogGrid.Tiling

namespace LogGrid.Master

/-! ## What is on disk -/

/-- Whether the three tests of a directory entry succeed. -/
structure EntryCalls where
  isSymlink : Bool := true
  isDirectory : Bool := true
  isRegularFile : Bool := true

/-- What a symlink leads to in the end, if to anything. -/
inductive Target
  | directory
  | file
  | other

mutual

/-- What a path names. A symlink holds a path; a directory may fail to open, and a file's size to be read. -/
inductive Tree
  | symlink (text : Bytes) (target : Target)
  | directory (opens : Bool) (entries : Entries)
  | file (size : FileSize) (sizeRead : Bool)
  | other

/-- The entries of a directory as they are listed; `advances` is whether the iterator then moves on. -/
inductive Entries
  | done
  | entry (name : Name) (tree : Tree) (calls : EntryCalls) (advances : Bool) (rest : Entries)

end

namespace Tree

def isSymlink : Tree → Bool
  | .symlink _ _ => true
  | _ => false

/-- `is_directory`, which follows links. -/
def isDirectory : Tree → Bool
  | .symlink _ .directory => true
  | .directory _ _ => true
  | _ => false

def isRegularFile : Tree → Bool
  | .symlink _ .file => true
  | .file _ _ => true
  | _ => false

/-- `file_size` of a file, where it can be read. -/
def fileSize : Tree → Option FileSize
  | .file size true => some size
  | _ => none

end Tree

def Entries.names : Entries → List Name
  | .done => []
  | .entry name _ _ _ rest => name :: rest.names

mutual

/-- The names of a directory are names, and no two entries share one. -/
def Tree.wellFormed : Tree → Bool
  | .directory _ entries => entries.wellFormed
  | _ => true

def Entries.wellFormed : Entries → Bool
  | .done => true
  | .entry name tree _ _ rest => isEntryName name && !rest.names.contains name && tree.wellFormed && rest.wellFormed

end

/-! ## The scan -/

def textOf (root : Bytes) (place : List Name) : Bytes := place.foldl append root

theorem textOf_concat (root : Bytes) (place : List Name) (name : Name) :
    textOf root (place ++ [name]) = append (textOf root place) name := by
  unfold textOf
  rw [List.foldl_append, List.foldl_cons, List.foldl_nil]

/-- The out-parameters of the scan, and the places its errors were counted for. -/
structure TreeScan extends ScanState where
  failures : List (List Name) := []

def TreeScan.failAt (s : TreeScan) (place : List Name) : TreeScan :=
  { toScanState := s.toScanState.fail, failures := s.failures ++ [place] }

/-- A call with an `error_code`, and whether that is set after it: a failure sets it and answers `false`,
a success clears it. -/
def query (succeeds answer : Bool) : Bool × Bool := if succeeds then (answer, false) else (false, true)

section

variable (keyword : Bytes) (searchId : Nat) (config : SearchConfig) (root : Bytes)

/-- The body of the loop for one entry, with what the recursive call does. -/
def examine (place : List Name) (calls : EntryCalls) (tree : Tree)
    (recurse : TreeScan → Except Exn TreeScan) (s : TreeScan) : Except Exn TreeScan :=
  let (isSymlink, ec) := query calls.isSymlink tree.isSymlink
  if isSymlink || ec then .ok (if ec then s.failAt place else s)
  else
    let (isDirectory, _) := query calls.isDirectory tree.isDirectory
    if isDirectory then recurse s
    else
      let (isRegularFile, ec) := query calls.isRegularFile tree.isRegularFile
      if isRegularFile then
        match processSingleFile keyword searchId config (textOf root place) tree.fileSize s.toScanState with
        | .error e => .error e
        | .ok (handled, found) =>
          let s := { s with toScanState := found }
          .ok (if handled then s else s.failAt place)
      else .ok (if ec then s.failAt place else s)

mutual

/-- `ScanDirectoryRecursively` on what `place` names. -/
def Tree.scan (place : List Name) : Tree → TreeScan → Except Exn TreeScan
  | .directory opens entries, s => if opens then entries.scan place s else .ok (s.failAt place)
  -- The loop passes directories alone.
  | .symlink _ _, s => .ok (s.failAt place)
  | .file _ _, s => .ok (s.failAt place)
  | .other, s => .ok (s.failAt place)

/-- The loop. A failed increment makes the iterator equal to the end. -/
def Entries.scan (place : List Name) : Entries → TreeScan → Except Exn TreeScan
  | .done, s => .ok s
  | .entry name tree calls advances rest, s =>
    match examine keyword searchId config root (place ++ [name]) calls tree (tree.scan (place ++ [name])) s with
    | .error e => .error e
    | .ok s => if advances then rest.scan place s else .ok (s.failAt place)

end

end

/-- A directory that is scanned. -/
structure Directory where
  path : Bytes
  opens : Bool := true
  entries : Entries
  path_text : 0 ∉ path
  entries_wellFormed : entries.wellFormed = true

def Directory.scan (dir : Directory) (keyword : Bytes) (searchId : Nat) (config : SearchConfig) (s : ScanState) :
    Except Exn TreeScan :=
  (Tree.directory dir.opens dir.entries).scan keyword searchId config dir.path [] { toScanState := s }

/-! ## What the master learns -/

/-- An entry as its tests show it. A directory that `is_directory` fails on passes for a special file when
`is_regular_file` then succeeds. -/
def learn (calls : EntryCalls) (tree : Tree) (listing : Option Listing) : Node :=
  if calls.isSymlink = false then .unexaminable
  else if tree.isSymlink then .symlink
  else if calls.isDirectory && tree.isDirectory then .directory listing
  else if calls.isRegularFile = false then .unexaminable
  else if tree.isRegularFile then .file tree.fileSize
  else .other

mutual

def Tree.listing : Tree → Option Listing
  | .directory opens entries => if opens then some entries.listing else none
  | .symlink _ _ => none
  | .file _ _ => none
  | .other => none

def Entries.listing : Entries → Listing
  | .done => .stop false
  | .entry name tree calls advances rest =>
    .entry name (learn calls tree tree.listing) (if advances then rest.listing else .stop true)

end

section

variable (root : Bytes)

mutual

/-- The files that are cut into tasks, by their places. -/
def Node.found (place : List Name) : Node → List (List Name × FileSize)
  | .directory (some listing) => listing.found place
  | .file size => (searchedFile (textOf root place) size).map fun f => (place, f.2)
  | _ => []

def Listing.found (place : List Name) : Listing → List (List Name × FileSize)
  | .stop _ => []
  | .entry name node rest => node.found (place ++ [name]) ++ rest.found place

end

/-- Whether `ProcessSingleFile` answers `false`. -/
def refused (path : Bytes) : Option FileSize → Bool
  | none => true
  | some sz => sz.val ≠ 0 ∧ 256 ≤ path.length

mutual

def Node.failed (place : List Name) : Node → List (List Name)
  | .directory none => [place]
  | .directory (some listing) => listing.failed place
  | .file size => if refused (textOf root place) size then [place] else []
  | .unexaminable => [place]
  | .symlink => []
  | .other => []

def Listing.failed (place : List Name) : Listing → List (List Name)
  | .stop failed => if failed then [place] else []
  | .entry name node rest => node.failed (place ++ [name]) ++ rest.failed place

end

/-! ## The scan finds what the master learns -/

section

variable (keyword : Bytes) (searchId : Nat) (config : SearchConfig)

/-- `s'` is `s` with the tasks of some files and an error for each of some places. -/
def Adds (s s' : TreeScan) (found : List (List Name × FileSize)) (failed : List (List Name)) : Prop :=
  s'.outTasks = s.outTasks ++
      found.flatMap (fun f => fileTasks keyword searchId config (textOf root f.1, f.2)) ∧
    s'.failures = s.failures ++ failed ∧
    s'.scanErrors = s.scanErrors + UInt64.ofNat failed.length

variable {root keyword searchId config}

theorem Adds.none (s : TreeScan) : Adds root keyword searchId config s s [] [] := by
  unfold Adds
  simp

theorem Adds.failure (s : TreeScan) (place : List Name) :
    Adds root keyword searchId config s (s.failAt place) [] [place] := by
  unfold Adds TreeScan.failAt ScanState.fail
  simp

theorem Adds.trans {s₁ s₂ s₃ : TreeScan} {found₁ found₂ : List (List Name × FileSize)}
    {failed₁ failed₂ : List (List Name)} (h₁ : Adds root keyword searchId config s₁ s₂ found₁ failed₁)
    (h₂ : Adds root keyword searchId config s₂ s₃ found₂ failed₂) :
    Adds root keyword searchId config s₁ s₃ (found₁ ++ found₂) (failed₁ ++ failed₂) := by
  obtain ⟨htasks₁, hfailures₁, herrors₁⟩ := h₁
  obtain ⟨htasks₂, hfailures₂, herrors₂⟩ := h₂
  refine ⟨?_, ?_, ?_⟩
  · rw [htasks₂, htasks₁, List.flatMap_append, List.append_assoc]
  · rw [hfailures₂, hfailures₁, List.append_assoc]
  · rw [herrors₂, herrors₁, List.length_append, UInt64.ofNat_add, UInt64.add_assoc]

variable (root keyword searchId config)

/-- The call ends, and has found what the node shows. -/
def Reads (s : TreeScan) (place : List Name) (node : Node) (r : Except Exn TreeScan) : Prop :=
  ∃ s', r = .ok s' ∧ Adds root keyword searchId config s s' (node.found root place) (node.failed root place)

theorem processSingleFile_handled (path : Bytes) (size : Option FileSize) (s s' : ScanState) (handled : Bool)
    (h : processSingleFile keyword searchId config path size s = .ok (handled, s')) :
    handled = !refused path size ∧ s'.scanErrors = s.scanErrors := by
  unfold processSingleFile at h
  unfold refused
  cases size with
  | none => cases h; exact ⟨rfl, rfl⟩
  | some sz =>
    by_cases hzero : sz.val = 0
    · simp only [hzero, if_true, Except.ok.injEq, Prod.mk.injEq] at h
      obtain ⟨rfl, rfl⟩ := h
      simp [hzero]
    · by_cases hlong : 256 ≤ path.length
      · simp only [hzero, hlong, if_true, if_false, Except.ok.injEq, Prod.mk.injEq] at h
        obtain ⟨rfl, rfl⟩ := h
        simp [hzero, hlong]
      · simp only [hzero, hlong, if_false, createChunkTask, Except.ok.injEq, Prod.mk.injEq] at h
        obtain ⟨rfl, rfl⟩ := h
        simp [hlong]

theorem searchedFile_path (path : Bytes) (size : Option FileSize) : ∀ f ∈ searchedFile path size, f.1 = path := by
  intro f hf
  cases size with
  | none => simp [searchedFile] at hf
  | some sz =>
    simp only [searchedFile] at hf
    split at hf
    · simp at hf
    · rw [List.mem_singleton.mp hf]

theorem processSingleFile_reads (place : List Name) (size : Option FileSize) (s : TreeScan) :
    Reads root keyword searchId config s place (.file size)
      (match processSingleFile keyword searchId config (textOf root place) size s.toScanState with
      | .error e => .error e
      | .ok (handled, found) =>
        let s := { s with toScanState := found }
        .ok (if handled then s else s.failAt place)) := by
  obtain ⟨handled, found, h, htasks⟩ :=
    processSingleFile_spec keyword searchId config (textOf root place) size s.toScanState
  obtain ⟨rfl, herrors⟩ := processSingleFile_handled keyword searchId config _ size _ found handled h
  have hadds : Adds root keyword searchId config s { s with toScanState := found }
      ((searchedFile (textOf root place) size).map fun f => (place, f.2)) [] := by
    refine ⟨?_, by simp, by simpa using herrors⟩
    have htext : (searchedFile (textOf root place) size).flatMap
          (fun f => fileTasks keyword searchId config (textOf root place, f.2)) =
        (searchedFile (textOf root place) size).flatMap (fileTasks keyword searchId config) := by
      apply List.flatMap_congr
      intro f hf
      rw [← searchedFile_path _ size f hf]
    rw [htasks, List.flatMap_map, htext]
  rw [h]
  cases hrefused : refused (textOf root place) size with
  | false => exact ⟨_, rfl, by simpa [Node.found, Node.failed, hrefused] using hadds⟩
  | true =>
    refine ⟨_, rfl, ?_⟩
    simpa [Node.found, Node.failed, hrefused] using hadds.trans (Adds.failure _ place)

theorem learn_directory (calls : EntryCalls) (tree : Tree) (listing shown : Option Listing)
    (h : learn calls tree listing = .directory shown) : shown = listing := by
  unfold learn at h
  split_ifs at h
  exact (Node.directory.inj h).symm

theorem examine_eq (place : List Name) (calls : EntryCalls) (tree : Tree) (listing : Option Listing)
    (recurse : TreeScan → Except Exn TreeScan) (s : TreeScan) :
    examine keyword searchId config root place calls tree recurse s =
      match learn calls tree listing with
      | .symlink => .ok s
      | .directory _ => recurse s
      | .file size =>
        match processSingleFile keyword searchId config (textOf root place) size s.toScanState with
        | .error e => .error e
        | .ok (handled, found) =>
          let s := { s with toScanState := found }
          .ok (if handled then s else s.failAt place)
      | .other => .ok s
      | .unexaminable => .ok (s.failAt place) := by
  obtain ⟨isSymlink, isDirectory, isRegularFile⟩ := calls
  unfold examine learn
  cases isSymlink with
  | false => simp [query]
  | true =>
    by_cases hlink : tree.isSymlink = true
    · simp [query, hlink]
    · by_cases hdirectory : (isDirectory && tree.isDirectory) = true
      · simp only [Bool.and_eq_true] at hdirectory
        simp [query, hlink, hdirectory]
      · -- `is_directory` answers `false`, or fails: then the next call overwrites the error.
        have hquery : (query isDirectory tree.isDirectory).1 = false := by
          unfold query
          cases isDirectory <;> simp_all
        simp only [hquery, hlink, hdirectory, Bool.false_eq_true, Bool.true_eq_false, if_false]
        cases isRegularFile with
        | false => simp [query]
        | true =>
          by_cases hregular : tree.isRegularFile = true
          · simp [query, hregular]
          · simp [query, hregular]

theorem examine_reads (place : List Name) (calls : EntryCalls) (tree : Tree)
    (recurse : TreeScan → Except Exn TreeScan) (s : TreeScan)
    (hrec : Reads root keyword searchId config s place (.directory tree.listing) (recurse s)) :
    Reads root keyword searchId config s place (learn calls tree tree.listing)
      (examine keyword searchId config root place calls tree recurse s) := by
  rw [examine_eq root keyword searchId config place calls tree tree.listing recurse s]
  cases hnode : learn calls tree tree.listing with
  | symlink => exact ⟨s, rfl, Adds.none s⟩
  | directory shown =>
    rw [learn_directory calls tree tree.listing shown hnode]
    exact hrec
  | file size => exact processSingleFile_reads root keyword searchId config place size s
  | other => exact ⟨s, rfl, Adds.none s⟩
  | unexaminable => exact ⟨_, rfl, Adds.failure s place⟩

mutual

theorem Tree.scan_reads (place : List Name) (tree : Tree) (s : TreeScan) :
    Reads root keyword searchId config s place (.directory tree.listing)
      (tree.scan keyword searchId config root place s) := by
  cases tree with
  | symlink text target => exact ⟨_, by rw [Tree.scan], Adds.failure s place⟩
  | directory opens entries =>
    cases opens with
    | false => exact ⟨_, by simp [Tree.scan], Adds.failure s place⟩
    | true =>
      rw [Tree.scan, Tree.listing]
      exact entries.scan_reads place s
  | file size sizeRead => exact ⟨_, by rw [Tree.scan], Adds.failure s place⟩
  | other => exact ⟨_, by rw [Tree.scan], Adds.failure s place⟩

theorem Entries.scan_reads (place : List Name) (entries : Entries) (s : TreeScan) :
    Reads root keyword searchId config s place (.directory (some entries.listing))
      (entries.scan keyword searchId config root place s) := by
  cases entries with
  | done => exact ⟨s, by rw [Entries.scan], Adds.none s⟩
  | entry name tree calls advances rest =>
    obtain ⟨s₁, h₁, hadds₁⟩ := examine_reads root keyword searchId config (place ++ [name]) calls tree
      (tree.scan keyword searchId config root (place ++ [name])) s (tree.scan_reads (place ++ [name]) s)
    unfold Reads
    rw [Entries.scan, h₁]
    cases advances with
    | false => exact ⟨_, rfl, hadds₁.trans (Adds.failure s₁ place)⟩
    | true =>
      obtain ⟨s₂, h₂, hadds₂⟩ := rest.scan_reads place s₁
      exact ⟨s₂, h₂, hadds₁.trans hadds₂⟩

end

/-! ## The scan of what is learned -/

theorem examine_learned (place : List Name) (calls : EntryCalls) (tree : Tree)
    (recurse : TreeScan → Except Exn TreeScan) (s : TreeScan)
    (hrec : (recurse s).map TreeScan.toScanState =
      scanEntry keyword searchId config (textOf root place) (.directory tree.listing) s.toScanState) :
    (examine keyword searchId config root place calls tree recurse s).map TreeScan.toScanState =
      scanEntry keyword searchId config (textOf root place) (learn calls tree tree.listing) s.toScanState := by
  rw [examine_eq root keyword searchId config place calls tree tree.listing recurse s]
  cases hnode : learn calls tree tree.listing with
  | symlink => rfl
  | directory shown =>
    rw [learn_directory calls tree tree.listing shown hnode]
    exact hrec
  | file size =>
    simp only [scanEntry]
    cases processSingleFile keyword searchId config (textOf root place) size s.toScanState with
    | error e => rfl
    | ok r =>
      obtain ⟨handled, found⟩ := r
      cases handled <;> rfl
  | other => rfl
  | unexaminable => rfl

mutual

theorem Tree.scan_learned (place : List Name) (tree : Tree) (s : TreeScan) :
    (tree.scan keyword searchId config root place s).map TreeScan.toScanState =
      scanEntry keyword searchId config (textOf root place) (.directory tree.listing) s.toScanState := by
  cases tree with
  | symlink text target => rfl
  | directory opens entries =>
    cases opens with
    | false => rfl
    | true =>
      simp only [Tree.scan, Tree.listing, if_true, scanEntry, scanDirectoryRecursively]
      exact entries.scan_learned place s
  | file size sizeRead => rfl
  | other => rfl

theorem Entries.scan_learned (place : List Name) (entries : Entries) (s : TreeScan) :
    (entries.scan keyword searchId config root place s).map TreeScan.toScanState =
      scanEntries keyword searchId config (textOf root place) entries.listing s.toScanState := by
  cases entries with
  | done => rfl
  | entry name tree calls advances rest =>
    have hentry := examine_learned root keyword searchId config (place ++ [name]) calls tree
      (tree.scan keyword searchId config root (place ++ [name])) s (tree.scan_learned (place ++ [name]) s)
    rw [textOf_concat] at hentry
    rw [Entries.scan, Entries.listing, scanEntries, ← hentry]
    cases examine keyword searchId config root (place ++ [name]) calls tree
        (tree.scan keyword searchId config root (place ++ [name])) s with
    | error e => rfl
    | ok s₁ =>
      cases advances with
      | false => rfl
      | true => exact rest.scan_learned place s₁

end

end

end

namespace Directory

def node (dir : Directory) : Node := .directory (Tree.directory dir.opens dir.entries).listing

theorem scan_learned (dir : Directory) (keyword : Bytes) (searchId : Nat) (config : SearchConfig) (s : ScanState) :
    (dir.scan keyword searchId config s).map TreeScan.toScanState =
      scanEntry keyword searchId config dir.path dir.node s :=
  Tree.scan_learned dir.path keyword searchId config [] (.directory dir.opens dir.entries) { toScanState := s }

end Directory

end LogGrid.Master
