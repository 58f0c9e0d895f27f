import LogGrid.Base.PathResolution
import LogGrid.Master.ScanCoverage
import LogGrid.Master.TaskFidelity

/-!
# The input sandbox

A search reads what lies below the input directory and nothing else. The real
location of its target is tested once, and the scan follows no symlink.
-/

open LogGrid.Path LogGrid.Runs

namespace LogGrid.Master

/-! ## A file system with symlinks -/

def Entries.find (name : Name) : Entries → Option Tree
  | .done => none
  | .entry first tree _ _ rest => if first = name then some tree else rest.find name

namespace Tree

/-- What the names lead to from one directory to the next, without following a link. -/
def lookup : Tree → List Name → Option Tree
  | tree, [] => some tree
  | .directory _ entries, name :: names =>
    match entries.find name with
    | none => none
    | some tree => tree.lookup names
  | _, _ :: _ => none

def kind : Tree → Kind
  | .symlink text _ => .link text
  | .directory _ _ => .directory
  | .file _ _ => .leaf
  | .other => .leaf

theorem lookup_append (tree : Tree) (front back : List Name) :
    tree.lookup (front ++ back) = (tree.lookup front).bind (·.lookup back) := by
  induction front generalizing tree with
  | nil => simp [lookup]
  | cons name front ih =>
    cases tree with
    | directory opens entries =>
      rw [List.cons_append, lookup, lookup]
      cases entries.find name with
      | none => rfl
      | some found => exact ih found
    | symlink text target => rfl
    | file size sizeRead => rfl
    | other => rfl

theorem lookup_inside (tree found : Tree) (name : Name) (h : tree.lookup [name] = some found) :
    tree.kind = .directory := by
  cases tree with
  | directory opens entries => rfl
  | symlink text target => cases h
  | file size sizeRead => cases h
  | other => cases h

end Tree

mutual

def Tree.dotFree : Tree → Bool
  | .directory _ entries => entries.dotFree
  | _ => true

def Entries.dotFree : Entries → Bool
  | .done => true
  | .entry name tree _ _ rest => name ≠ dot && name ≠ dotdot && tree.dotFree && rest.dotFree

end

theorem Entries.find_spec (entries : Entries) (name : Name) (tree : Tree) (hwf : entries.wellFormed = true)
    (hdots : entries.dotFree = true) (h : entries.find name = some tree) :
    Proper name ∧ tree.wellFormed = true ∧ tree.dotFree = true := by
  induction entries using Entries.find.induct name with
  | case1 => cases h
  | case2 found calls advances rest =>
    rw [Entries.find, if_pos rfl, Option.some.injEq] at h
    subst h
    obtain ⟨hname, -, htree, -⟩ := Entries.wellFormed_entry hwf
    simp only [Entries.dotFree, Bool.and_eq_true, decide_eq_true_eq] at hdots
    simp only [isEntryName, decide_eq_true_eq] at hname
    exact ⟨⟨hname.1, hdots.1.1.1, hdots.1.1.2, hname.2.1⟩, htree, hdots.1.2⟩
  | case3 first found calls advances rest hne ih =>
    rw [Entries.find, if_neg hne] at h
    simp only [Entries.dotFree, Bool.and_eq_true] at hdots
    exact ih (Entries.wellFormed_entry hwf).2.2.2 hdots.2 h

theorem Tree.lookup_spec (tree found : Tree) (place : List Name) (hwf : tree.wellFormed = true)
    (hdots : tree.dotFree = true) (h : tree.lookup place = some found) :
    (∀ n ∈ place, Proper n) ∧ found.wellFormed = true := by
  induction place generalizing tree with
  | nil =>
    rw [lookup, Option.some.injEq] at h
    rw [← h]
    exact ⟨by simp, hwf⟩
  | cons name place ih =>
    cases tree with
    | directory opens entries =>
      rw [lookup] at h
      rw [wellFormed] at hwf
      rw [dotFree] at hdots
      cases hfind : entries.find name with
      | none => rw [hfind] at h; cases h
      | some next =>
        rw [hfind] at h
        obtain ⟨hname, hnext, hnextDots⟩ := entries.find_spec name next hwf hdots hfind
        obtain ⟨hplace, hfound⟩ := ih next hnext hnextDots h
        exact ⟨List.forall_mem_cons.mpr ⟨hname, hplace⟩, hfound⟩
    | symlink text target => cases h
    | file size sizeRead => cases h
    | other => cases h

/-- What is on disk, and the working directory of the master. -/
structure FileSystem where
  root : Entries
  current : List Name := []
  root_wellFormed : root.wellFormed = true
  root_dotFree : root.dotFree = true
  current_real : Real (fun place => ((Tree.directory true root).lookup place).map Tree.kind) current

namespace FileSystem

def lookup (fs : FileSystem) (place : List Name) : Option Tree := (Tree.directory true fs.root).lookup place

def look (fs : FileSystem) (place : List Name) : Option Kind := (fs.lookup place).map Tree.kind

/-- `p` names what is really at `place`. The system reads a path up to its first zero byte. -/
def LeadsTo (fs : FileSystem) (p : Bytes) (place : List Name) : Prop :=
  Leads fs.look (if isAbsolute p then [] else fs.current) (segments (p.takeWhile (· ≠ 0))) place

theorem lookup_spec (fs : FileSystem) (place : List Name) (found : Tree) (h : fs.lookup place = some found) :
    (∀ n ∈ place, Proper n) ∧ found.wellFormed = true := by
  apply Tree.lookup_spec (.directory true fs.root) found place _ _ h
  · rw [Tree.wellFormed]
    exact fs.root_wellFormed
  · rw [Tree.dotFree]
    exact fs.root_dotFree

theorem look_inside (fs : FileSystem) (place : List Name) (name : Name) (kind : Kind)
    (h : fs.look (place ++ [name]) = some kind) : fs.look place = some .directory := by
  obtain ⟨found, hfound, -⟩ := Option.map_eq_some_iff.mp h
  rw [lookup, Tree.lookup_append] at hfound
  obtain ⟨tree, htree, hname⟩ := Option.bind_eq_some_iff.mp hfound
  exact Option.map_eq_some_iff.mpr ⟨tree, htree, tree.lookup_inside found name hname⟩

theorem LeadsTo.real {fs : FileSystem} {p : Bytes} {place : List Name} (h : fs.LeadsTo p place) :
    Real fs.look place := by
  apply Leads.real fs.look_inside rfl h
  split
  · exact .of_directory (by simp) rfl
  · exact fs.current_real

theorem LeadsTo.unique {fs : FileSystem} {p : Bytes} {place place' : List Name} (h : fs.LeadsTo p place)
    (h' : fs.LeadsTo p place') : place = place' := Leads.unique h h'

end FileSystem

/-! ## What `StartSearch` sees of it -/

/-- A search target as the tests of `StartSearch` show it, which throw where they fail. -/
def Tree.asTarget (calls : EntryCalls) (tree : Tree) : Node :=
  if calls.isDirectory = false then .unexaminable
  else if tree.isDirectory then .directory tree.listing
  else if calls.isRegularFile = false then .unexaminable
  else if tree.isRegularFile then .file tree.fileSize
  else .other

theorem Tree.asTarget_wellFormed (calls : EntryCalls) (tree : Tree) (h : tree.wellFormed = true) :
    (tree.asTarget calls).wellFormed = true := by
  unfold asTarget
  split_ifs
  · rfl
  · exact tree.listing_wellFormed h
  · rfl
  · rfl
  · rfl

/-- The calls of `StartSearch` are answered from `fs`. `canonical` may fail; where it does not, its answer
is the absolute path of the real place, without links and dots. -/
structure Shows (world : World) (fs : FileSystem) : Prop where
  canonical : ∀ p q, world.canonical p = some q → ∃ place, q = render place ∧ fs.LeadsTo p place
  node : ∀ place tree, fs.lookup place = some tree → tree.isSymlink = false →
    ∃ calls, world.node (render place) = tree.asTarget calls

/-! ## The test -/

theorem render_injective (names names' : List Name) (h : ∀ n ∈ names, Proper n) (h' : ∀ n ∈ names', Proper n)
    (heq : render names = render names') : names = names' := by
  rw [← filenames_render names h, heq, filenames_render names' h']

theorem getLast?_render (names : List Name) (h : ∀ n ∈ names, Proper n) (hne : names ≠ []) :
    (render names).getLast? ≠ some sep := by
  obtain ⟨front, name, rfl⟩ := (List.eq_nil_or_concat' names).resolve_left hne
  exact getLast?_render_ne front name h

/-- **The test of the text is the test of the names.** -/
theorem inside_iff (root place : List Name) (hroot : ∀ n ∈ root, Proper n) (hplace : ∀ n ∈ place, Proper n) :
    render place = render root ∨ withSeparator (render root) <+: render place ↔ root <+: place := by
  by_cases hnil : root = []
  · subst hnil
    refine iff_of_true (Or.inr ?_) List.nil_prefix
    exact (List.prefix_cons_inj sep).mpr List.nil_prefix
  · have hwith : withSeparator (render root) = render root ++ [sep] := if_neg (getLast?_render root hroot hnil)
    rw [hwith]
    by_cases hempty : place = []
    · subst hempty
      have hlong : ¬ render root ++ [sep] <+: render [] := by
        intro h
        have := h.length_le
        simp [render] at this
      have hdiffer : render [] ≠ render root := fun heq => hnil (render_injective [] root hplace hroot heq).symm
      simp [hlong, hdiffer, hnil]
    · rw [render_sep_isPrefix root place hroot hplace hnil hempty]
      constructor
      · rintro (heq | ⟨rest, -, rfl⟩)
        · rw [render_injective place root hplace hroot heq]
        · exact List.prefix_append root rest
      · rintro ⟨rest, rfl⟩
        by_cases hrest : rest = []
        · exact Or.inl (by rw [hrest, List.append_nil])
        · exact Or.inr ⟨rest, hrest, rfl⟩

section

variable {settings : Settings} {request : Request} {fs : FileSystem} {root place : List Name}

theorem resolveTarget_outside (hshows : Shows request.world fs) (hroot : fs.LeadsTo settings.inputDir root)
    (hplace : fs.LeadsTo (append (render root) (makeRelative request.filepath)) place)
    (houtside : ¬ root <+: place) :
    ∃ e, resolveTarget settings request = .error e := by
  unfold resolveTarget
  cases hbase : request.world.canonical settings.inputDir with
  | none => exact ⟨_, rfl⟩
  | some baseCanon =>
    obtain ⟨root', rfl, hroot'⟩ := hshows.canonical _ _ hbase
    obtain rfl := hroot.unique hroot'
    simp only
    cases htarget : request.world.canonical (append (render root) (makeRelative request.filepath)) with
    | none => exact ⟨_, rfl⟩
    | some targetCanon =>
      obtain ⟨place', rfl, hplace'⟩ := hshows.canonical _ _ htarget
      obtain rfl := hplace.unique hplace'
      rw [← inside_iff root place hroot.real.1 hplace.real.1, not_or] at houtside
      simp only
      rw [if_pos houtside]
      exact ⟨_, rfl⟩

theorem resolveTarget_inside (hbase : request.world.canonical settings.inputDir = some (render root))
    (htarget : request.world.canonical (append (render root) (makeRelative request.filepath)) =
      some (render place))
    (hroot : ∀ n ∈ root, Proper n) (hplace : ∀ n ∈ place, Proper n) (hinside : root <+: place) :
    resolveTarget settings request = .ok (render place) := by
  unfold resolveTarget
  rw [hbase]
  simp only
  rw [htarget]
  simp only
  rw [if_neg]
  rw [← inside_iff root place hroot hplace] at hinside
  tauto

theorem resolveTarget_ok (hshows : Shows request.world fs) (target : Bytes)
    (h : resolveTarget settings request = .ok target) :
    ∃ root place, fs.LeadsTo settings.inputDir root ∧ Real fs.look place ∧ target = render place ∧
      root <+: place := by
  unfold resolveTarget at h
  cases hbase : request.world.canonical settings.inputDir with
  | none => rw [hbase] at h; cases h
  | some baseCanon =>
    obtain ⟨root, rfl, hroot⟩ := hshows.canonical _ _ hbase
    rw [hbase] at h
    simp only at h
    cases htarget : request.world.canonical (append (render root) (makeRelative request.filepath)) with
    | none => rw [htarget] at h; cases h
    | some targetCanon =>
      obtain ⟨place, rfl, hplace⟩ := hshows.canonical _ _ htarget
      rw [htarget] at h
      simp only at h
      split at h
      · cases h
      · rename_i hpass
        cases h
        refine ⟨root, place, hroot, hplace.real, rfl, ?_⟩
        rw [← inside_iff root place hroot.real.1 hplace.real.1]
        tauto

end

/-! ## What is found -/

mutual

theorem Tree.reach_lookup (place : List Name) (tree : Tree) (hwf : tree.wellFormed = true) :
    ∀ f ∈ tree.reach place, ∃ below sizeRead, f.1 = place ++ below ∧
      tree.lookup below = some (.file f.2 sizeRead) := by
  intro f hf
  cases tree with
  | symlink text target => simp [Tree.reach] at hf
  | directory opens entries =>
    rw [Tree.reach] at hf
    rw [Tree.wellFormed] at hwf
    obtain ⟨name, tree, below, sizeRead, -, heq, hfind, hlookup⟩ := entries.reach_lookup place hwf f hf
    refine ⟨name :: below, sizeRead, heq, ?_⟩
    rw [Tree.lookup, hfind]
    exact hlookup
  | file size sizeRead =>
    rw [Tree.reach] at hf
    split at hf
    · simp at hf
    · rw [List.mem_singleton.mp hf]
      exact ⟨[], sizeRead, by simp, rfl⟩
  | other => simp [Tree.reach] at hf

theorem Entries.reach_lookup (place : List Name) (entries : Entries) (hwf : entries.wellFormed = true) :
    ∀ f ∈ entries.reach place, ∃ name tree below sizeRead, name ∈ entries.names ∧ f.1 = place ++ name :: below ∧
      entries.find name = some tree ∧ tree.lookup below = some (.file f.2 sizeRead) := by
  intro f hf
  cases entries with
  | done => simp [Entries.reach] at hf
  | entry name tree calls advances rest =>
    obtain ⟨-, hnew, htree, hrest⟩ := Entries.wellFormed_entry hwf
    rw [Entries.reach, List.mem_append] at hf
    rcases hf with hf | hf
    · obtain ⟨below, sizeRead, heq, hlookup⟩ := tree.reach_lookup _ htree f hf
      exact ⟨name, tree, below, sizeRead, List.mem_cons_self, by simp [heq], by simp [Entries.find], hlookup⟩
    · obtain ⟨other, found, below, sizeRead, hmem, heq, hfind, hlookup⟩ := rest.reach_lookup place hrest f hf
      refine ⟨other, found, below, sizeRead, List.mem_cons_of_mem _ hmem, heq, ?_, hlookup⟩
      have hother : name ≠ other := by
        rintro rfl
        exact hnew hmem
      rw [Entries.find, if_neg hother]
      exact hfind

end

theorem textOf_render (place below : List Name) (hplace : ∀ n ∈ place, Proper n)
    (hbelow : ∀ n ∈ below, isEntryName n = true) : textOf (render place) below = render (place ++ below) := by
  cases below with
  | nil => rw [List.append_nil]; rfl
  | cons name below =>
    rw [textOf_cons _ _ _ hbelow, render_eq_flatMap (place ++ name :: below) (by simp)]
    by_cases hnil : place = []
    · subst hnil
      rfl
    · have hdir : dirText (render place) = render place ++ [sep] :=
        if_neg (not_or.mpr ⟨List.cons_ne_nil _ _, getLast?_render place hplace hnil⟩)
      rw [hdir, render_eq_flatMap _ hnil]
      simp

theorem asTarget_files (fs : FileSystem) (place : List Name) (tree : Tree) (calls : EntryCalls)
    (htree : fs.lookup place = some tree) (hreal : tree.isSymlink = false) :
    ∀ f ∈ (tree.asTarget calls).files (render place), ∃ below sizeRead, f.1 = render (place ++ below) ∧
      fs.lookup (place ++ below) = some (.file f.2 sizeRead) := by
  obtain ⟨hplace, hwf⟩ := fs.lookup_spec place tree htree
  intro f hf
  unfold Tree.asTarget at hf
  split_ifs at hf with hdirectoryCall hdirectory hregularCall hregular
  · simp [Node.files] at hf
  · rw [show render place = textOf (render place) [] from rfl, Node.files_eq] at hf
    obtain ⟨g, hg, rfl⟩ := List.mem_map.mp hf
    have hreach := tree.found_reach (render place) [] g hg
    obtain ⟨below, sizeRead, heq, hlookup⟩ := tree.reach_lookup [] hwf g hreach
    rw [List.nil_append] at heq
    refine ⟨below, sizeRead, ?_, ?_⟩
    · rw [← heq]
      exact textOf_render place g.1 hplace (tree.reach_names [] hwf (by simp) g hreach)
    · rw [FileSystem.lookup, Tree.lookup_append, ← FileSystem.lookup, htree]
      exact hlookup
  · simp [Node.files] at hf
  · cases tree with
    | file size sizeRead =>
      cases sizeRead with
      | false => simp [Tree.fileSize, Node.files, searchedFile] at hf
      | true =>
        simp only [Tree.fileSize, Node.files, searchedFile] at hf
        split at hf
        · simp at hf
        · obtain rfl := List.mem_singleton.mp hf
          exact ⟨[], true, by rw [List.append_nil], by rw [List.append_nil]; exact htree⟩
    | symlink text target => cases hreal
    | directory opens entries => cases hregular
    | other => cases hregular
  · simp [Node.files] at hf

/-! ## Over all runs -/

/-- The task names a regular file of `fs` that really lies below `root`. -/
def Inside (fs : FileSystem) (root : List Name) (task : TaskPayload) : Prop :=
  ∃ below size sizeRead, task.filename.cStr = render (root ++ below) ∧ (∀ n ∈ root ++ below, Proper n) ∧
    fs.lookup (root ++ below) = some (.file size sizeRead)

section

variable {settings : Settings} {guard : System → Event → Prop} {p : System}

theorem resolved (h : Reaches (step settings) guard System.initial p) :
    ∀ search ∈ p.shared.history.searches, resolveTarget settings search.request = .ok search.target := by
  obtain ⟨-, hsearches⟩ := search_invariant settings
    (fun request target => resolveTarget settings request = .ok target)
    (fun search => resolveTarget settings search.request = .ok search.target)
    (fun request target htarget => htarget)
    (fun request target searchId session newTasks htarget _ => htarget) h
  exact hsearches

theorem Prepared.inside {search : Search} {fs : FileSystem} (h : Prepared settings search)
    (htarget : resolveTarget settings search.request = .ok search.target)
    (hshows : Shows search.request.world fs) :
    ∃ root, fs.LeadsTo settings.inputDir root ∧ ∀ task ∈ search.newTasks, Inside fs root task := by
  obtain ⟨root, place, hroot, ⟨-, kind, hlook, hkind⟩, heq, rest, rfl⟩ := resolveTarget_ok hshows _ htarget
  obtain ⟨tree, htree, rfl⟩ := Option.map_eq_some_iff.mp hlook
  have hreal : tree.isSymlink = false := by
    cases tree with
    | symlink text target => exact absurd rfl (hkind text)
    | _ => rfl
  obtain ⟨calls, hnode⟩ := hshows.node _ tree htree hreal
  refine ⟨root, hroot, ?_⟩
  intro task htask
  obtain ⟨f, hf, hfit, hsame⟩ := h.task_file task htask
  have hfilename : task.filename.cStr = f.1 := by
    rw [hsame]
    exact CharArray.cStr_strncpy 256 f.1 hfit.1 hfit.2
  rw [Search.files, heq, hnode] at hf
  obtain ⟨below, sizeRead, hpath, hlookup⟩ := asTarget_files fs _ tree calls htree hreal f hf
  rw [List.append_assoc] at hpath hlookup
  exact ⟨rest ++ below, f.2, sizeRead, hfilename.trans hpath, (fs.lookup_spec _ _ hlookup).1, hlookup⟩

end

/-- **The input sandbox.** Every task of a published search names a regular file whose real path begins with
the names of the real input directory. A request that leads out of it is refused and changes nothing, and one
that leads to what is inside passes the test. -/
theorem input_sandbox (settings : Settings) (fs : FileSystem) (p : System) (h : Reachable settings p) :
    (∀ search ∈ p.shared.history.searches, Shows search.request.world fs →
      ∃ root, fs.LeadsTo settings.inputDir root ∧ ∀ task ∈ search.newTasks, Inside fs root task) ∧
    ∀ request root place, Shows request.world fs → fs.LeadsTo settings.inputDir root →
      fs.LeadsTo (append (render root) (makeRelative request.filepath)) place →
      (¬ root <+: place → (∃ e, resolveTarget settings request = .error e) ∧
        begin settings p.shared (.startSearch request) = (p.shared, none)) ∧
      (root <+: place → (request.world.canonical settings.inputDir).isSome →
        (request.world.canonical (append (render root) (makeRelative request.filepath))).isSome →
        resolveTarget settings request = .ok (render place)) := by
  constructor
  · intro search hsearch hshows
    exact ((allPrepared h).searches search hsearch).inside (resolved h search hsearch) hshows
  · intro request root place hshows hroot hplace
    constructor
    · intro houtside
      obtain ⟨e, he⟩ := resolveTarget_outside hshows hroot hplace houtside
      refine ⟨⟨e, he⟩, ?_⟩
      unfold begin
      simp only
      rw [he]
    · intro hinside hbase htarget
      obtain ⟨baseCanon, hbase⟩ := Option.isSome_iff_exists.mp hbase
      obtain ⟨targetCanon, htarget⟩ := Option.isSome_iff_exists.mp htarget
      obtain ⟨root', rfl, hroot'⟩ := hshows.canonical _ _ hbase
      obtain ⟨place', rfl, hplace'⟩ := hshows.canonical _ _ htarget
      obtain rfl := hroot.unique hroot'
      obtain rfl := hplace.unique hplace'
      exact resolveTarget_inside hbase htarget hroot.real.1 hplace.real.1 hinside

/-! ## A link out of the input directory -/

def linkedTree : Entries :=
  .entry (ascii "app") (.directory true
    (.entry (ascii "data") (.directory true
      (.entry (ascii "a.log") (.file oneByte true) {} true
        (.entry (ascii "out") (.symlink (ascii "/etc") .directory) {} true .done))) {} true .done)) {} true
    (.entry (ascii "etc") (.directory true (.entry (ascii "passwd") (.file oneByte true) {} true .done)) {}
      true .done)

def linked : FileSystem where
  root := linkedTree
  root_wellFormed := by decide
  root_dotFree := by decide
  current_real := .of_directory (by simp) rfl

def linkedCanonical (p : Bytes) : Option Bytes :=
  if p = ascii "/app/data" then some (render [ascii "app", ascii "data"])
  else if p = ascii "/app/data/a.log" then some (render [ascii "app", ascii "data", ascii "a.log"])
  else if p = ascii "/app/data/out/passwd" then some (render [ascii "etc", ascii "passwd"])
  else none

theorem linked_data (rest place : List Name) (h : Leads linked.look [ascii "app", ascii "data"] rest place) :
    Leads linked.look [] ([] :: ascii "app" :: ascii "data" :: rest) place :=
  .stay [] [] _ _ rfl (Or.inl rfl) (.enter [] (ascii "app") _ _ .directory rfl (by decide) rfl (by simp)
    (.enter [ascii "app"] (ascii "data") _ _ .directory rfl (by decide) rfl (by simp) h))

theorem linked_input : linked.LeadsTo (ascii "/app/data") [ascii "app", ascii "data"] :=
  linked_data [] _ (.arrived _)

theorem linked_file : linked.LeadsTo (ascii "/app/data/a.log") [ascii "app", ascii "data", ascii "a.log"] :=
  linked_data [ascii "a.log"] _ (.enter _ _ _ _ .leaf rfl (by decide) rfl (by simp) (.arrived _))

theorem linked_out : linked.LeadsTo (ascii "/app/data/out/passwd") [ascii "etc", ascii "passwd"] :=
  linked_data [ascii "out", ascii "passwd"] _ (.follow _ _ _ _ (ascii "/etc") rfl (by decide) rfl
    (.stay [] [] _ _ rfl (Or.inl rfl) (.enter [] (ascii "etc") _ _ .directory rfl (by decide) rfl (by simp)
      (.enter [ascii "etc"] (ascii "passwd") _ _ .leaf rfl (by decide) rfl (by simp) (.arrived _)))))

def linkedWorld : World where
  canonical := linkedCanonical
  node p :=
    match linked.lookup (filenames p) with
    | none => .other
    | some tree => tree.asTarget {}
  timestamp := 1700000000
  disk := freshDisk
  canonical_text p q h := by
    unfold linkedCanonical at h
    split_ifs at h <;> cases h <;> decide
  node_wellFormed p := by
    cases htree : linked.lookup (filenames p) with
    | none => rfl
    | some tree => exact tree.asTarget_wellFormed {} (linked.lookup_spec _ tree htree).2

theorem linkedWorld_shows : Shows linkedWorld linked := by
  constructor
  · intro p q h
    simp only [linkedWorld, linkedCanonical] at h
    split_ifs at h with hdata hfile hout
    · cases h
      exact ⟨_, rfl, hdata ▸ linked_input⟩
    · cases h
      exact ⟨_, rfl, hfile ▸ linked_file⟩
    · cases h
      exact ⟨_, rfl, hout ▸ linked_out⟩
  · intro place tree htree _
    refine ⟨{}, ?_⟩
    simp only [linkedWorld]
    rw [filenames_render place (linked.lookup_spec place tree htree).1, htree]

def linkedRequest (filepath : Bytes) : Request :=
  { filepath, keyword := ascii "E", config := {}, world := linkedWorld }

def afterLinkedSearch : System :=
  Runs.after (step {}) Any System.initial [.call (.startSearch (linkedRequest (ascii "a.log"))),
    .run 0 {}, .run 0 {}]

/-- The file in the directory is searched, and the one behind the link is not. -/
theorem input_sandbox_linked :
    (∃ search ∈ afterLinkedSearch.shared.history.searches, search.newTasks.length = 1 ∧
      ∃ root, linked.LeadsTo (ascii "/app/data") root ∧ ∀ task ∈ search.newTasks, Inside linked root task) ∧
    begin {} afterLinkedSearch.shared (.startSearch (linkedRequest (ascii "out/passwd"))) =
      (afterLinkedSearch.shared, none) ∧
    resolveTarget {} (linkedRequest (ascii "a.log")) = .ok (ascii "/app/data/a.log") := by
  have hreach : Reachable {} afterLinkedSearch := Runs.reaches_after _ .start (by decide +kernel)
  obtain ⟨htasks, hrequests⟩ := input_sandbox {} linked afterLinkedSearch hreach
  obtain ⟨search, hsearch, hone⟩ : ∃ search ∈ afterLinkedSearch.shared.history.searches,
      search.newTasks.length = 1 := by decide +kernel
  refine ⟨⟨search, hsearch, hone, htasks search hsearch ?_⟩, ?_, ?_⟩
  · have hworld : afterLinkedSearch.shared.history.searches.map (·.request.world) = [linkedWorld] := rfl
    have hmem : search.request.world ∈ [linkedWorld] := hworld ▸ List.mem_map_of_mem hsearch
    rw [List.mem_singleton.mp hmem]
    exact linkedWorld_shows
  · exact ((hrequests (linkedRequest (ascii "out/passwd")) _ _ linkedWorld_shows linked_input linked_out).1
      (by decide)).2
  · exact (hrequests (linkedRequest (ascii "a.log")) _ _ linkedWorld_shows linked_input linked_file).2
      (by decide) rfl rfl

end LogGrid.Master
