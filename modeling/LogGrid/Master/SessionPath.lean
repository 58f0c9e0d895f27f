import LogGrid.Base.Path
import LogGrid.Common.Message

/-!
# `CreateSessionFilePath`

Where the result file of a session goes. The guard compares two strings, and
`createSessionFilePath_sandboxed_iff` says which user directories it lets
through although they lead out of the base directory.
-/

open LogGrid.Path

namespace LogGrid.Master

/-! ## The file name -/

/-- `std::format("{}", n)`. -/
def decimal (n : Nat) : Bytes := (Nat.toDigits 10 n).map ch

def formatInt : Int → Bytes
  | .ofNat n => decimal n
  | .negSucc n => ch '-' :: decimal (n + 1)

def sessionFilename (searchId : Nat) (timestamp : Int) : Bytes :=
  ascii "search_" ++ decimal searchId ++ ascii "_" ++ formatInt timestamp ++ ascii ".log"

theorem decimal_digit (n : Nat) (b : UInt8) (h : b ∈ decimal n) : 48 ≤ b ∧ b ≤ 57 := by
  unfold decimal at h
  obtain ⟨c, hc, rfl⟩ := List.mem_map.mp h
  have hdigit := Nat.isDigit_of_mem_toDigits (by decide) (by decide) hc
  simp only [Char.isDigit, Bool.and_eq_true, decide_eq_true_eq, ge_iff_le, UInt32.le_iff_toNat_le] at hdigit
  obtain ⟨hlo, hhi⟩ := hdigit
  have hval : c.val.toNat = c.toNat := rfl
  have hlt : c.toNat % 2 ^ 8 = c.toNat := Nat.mod_eq_of_lt (by
    have : c.val.toNat ≤ 57 := hhi
    omega)
  constructor <;> rw [UInt8.le_iff_toNat_le, ch, UInt8.toNat_ofNat', hlt]
  · exact hlo
  · exact hhi

theorem formatInt_byte (n : Int) (b : UInt8) (h : b ∈ formatInt n) : b = 45 ∨ 48 ≤ b ∧ b ≤ 57 := by
  cases n with
  | ofNat n => exact Or.inr (decimal_digit n b h)
  | negSucc n =>
    rcases List.mem_cons.mp h with rfl | h
    · exact Or.inl rfl
    · exact Or.inr (decimal_digit _ b h)

theorem sessionFilename_proper (searchId : Nat) (timestamp : Int) :
    Proper (sessionFilename searchId timestamp) := by
  have hhead : ∃ rest, sessionFilename searchId timestamp = 115 :: rest := ⟨_, rfl⟩
  refine ⟨?_, ?_, ?_, ?_⟩
  · obtain ⟨rest, h⟩ := hhead; simp [h]
  · obtain ⟨rest, h⟩ := hhead; simp [h, dot]
  · obtain ⟨rest, h⟩ := hhead; simp [h, dotdot]
  · unfold sessionFilename
    simp only [List.mem_append, not_or]
    refine ⟨⟨⟨⟨by decide, ?_⟩, by decide⟩, ?_⟩, by decide⟩
    · intro h; exact absurd (decimal_digit _ _ h) (by decide)
    · intro h; exact absurd (formatInt_byte _ _ h) (by decide)

/-! ## Directories -/

inductive FileType
  | notFound
  | directory
  | other
  deriving DecidableEq

/-- The file system as `create_directories` finds it. Directories are given by their names from
the root on, and `mkdir` says whether a missing one can be created. -/
structure Disk where
  status : List Name → FileType
  mkdir : List Name → Bool

/-- `create_directories` below `parents`: what it creates, and whether it fails. -/
def createDirectories (disk : Disk) (parents : List Name) : List Name → List (List Name) × Bool
  | [] => ([], false)
  | name :: names =>
    let dir := parents ++ [name]
    match disk.status dir with
    | .directory => createDirectories disk dir names
    | .other => ([], true)
    | .notFound =>
      if disk.mkdir dir then
        let (created, failed) := createDirectories disk dir names
        (dir :: created, failed)
      else ([], true)

theorem createDirectories_between (disk : Disk) (parents names dir : List Name)
    (h : dir ∈ (createDirectories disk parents names).1) : dir <+: parents ++ names := by
  induction names generalizing parents with
  | nil => simp [createDirectories] at h
  | cons name names ih =>
    have hstep : parents ++ name :: names = (parents ++ [name]) ++ names := by simp
    rw [hstep]
    simp only [createDirectories] at h
    split at h
    · exact ih _ h
    · simp at h
    · split at h
      · rcases List.mem_cons.mp h with rfl | h
        · exact List.prefix_append _ _
        · exact ih _ h
      · simp at h

/-! ## The path -/

def makeRelative (path : Bytes) : Bytes :=
  let path := path.dropWhile fun b => b = ch '/' ∨ b = ch '\\'
  if path = [] then dot else path

/-- The result of `CreateSessionFilePath`, and the directories it created on the way. -/
def createSessionFilePath (baseDir : Bytes) (timestamp : Int) (disk : Disk) (userDir : Bytes)
    (searchId : Nat) : Except Exn Bytes × List (List Name) :=
  let filename := sessionFilename searchId timestamp
  let basePath := lexicallyNormal baseDir
  let relUserDir := makeRelative userDir
  let fullFilePath := lexicallyNormal (append (append basePath relUserDir) filename)
  if ¬ basePath <+: fullFilePath then
    (.error (.runtimeError (ascii "[MASTER] Security Alert: Path Traversal attempt blocked!")), [])
  else
    let (created, failed) := createDirectories disk [] (filenames (parentPath fullFilePath))
    (if failed then .error .filesystemError else .ok fullFilePath, created)

/-- The names of the base directory, and those of the directory the user asks for. -/
def baseNames (baseDir : Bytes) : List Name := resolve true [] baseDir

def targetNames (baseDir userDir : Bytes) : List Name :=
  resolve true (baseNames baseDir) (makeRelative userDir)

theorem makeRelative_relative (path : Bytes) : isAbsolute (makeRelative path) = false := by
  unfold makeRelative isAbsolute
  simp only
  split
  · rfl
  · have := List.head?_dropWhile_not (fun b => decide (b = ch '/' ∨ b = ch '\\')) path
    revert this
    cases (path.dropWhile fun b => decide (b = ch '/' ∨ b = ch '\\')).head? with
    | none => simp
    | some b =>
      simp only [decide_eq_false_iff_not, not_or]
      intro hb
      have : b ≠ sep := hb.1
      simp [this]

theorem baseNames_proper (baseDir : Bytes) : ∀ n ∈ baseNames baseDir, Proper n :=
  resolve_proper [] baseDir (by simp)

theorem targetNames_proper (baseDir userDir : Bytes) : ∀ n ∈ targetNames baseDir userDir, Proper n :=
  resolve_proper _ _ (baseNames_proper baseDir)

theorem resolve_basePath (baseDir : Bytes) (hbase : isAbsolute baseDir = true) :
    resolve true [] (lexicallyNormal baseDir) = baseNames baseDir := by
  have hrender := resolve_render [] _ (baseNames_proper baseDir)
  rcases lexicallyNormal_absolute baseDir hbase with h | ⟨-, h⟩
  · rw [h]; simpa [baseNames] using hrender
  · -- The separator behind the names leads nowhere.
    rw [h, resolve, segments_append_sep, List.foldl_append]
    exact hrender

theorem basePath_absolute (baseDir : Bytes) (hbase : isAbsolute baseDir = true) :
    isAbsolute (lexicallyNormal baseDir) = true := by
  rcases lexicallyNormal_absolute baseDir hbase with h | ⟨-, h⟩ <;> rw [h] <;> rfl

theorem fullFilePath_eq (baseDir userDir : Bytes) (filename : Name) (hbase : isAbsolute baseDir = true)
    (hfile : Proper filename) :
    lexicallyNormal (append (append (lexicallyNormal baseDir) (makeRelative userDir)) filename) =
      render (targetNames baseDir userDir ++ [filename]) := by
  have habs := basePath_absolute baseDir hbase
  have hrel := makeRelative_relative userDir
  have hfileRel : isAbsolute filename = false := by
    obtain ⟨b, rest, rfl⟩ := List.exists_cons_of_ne_nil hfile.1
    have : b ≠ sep := fun he => hfile.2.2.2 (by simp [he])
    simp [isAbsolute, this]
  have hdir : isAbsolute (append (lexicallyNormal baseDir) (makeRelative userDir)) = true :=
    isAbsolute_append _ _ habs hrel
  have hnames : resolve true [] (append (append (lexicallyNormal baseDir) (makeRelative userDir)) filename) =
      targetNames baseDir userDir ++ [filename] := by
    rw [resolve_append true [] _ _ (ne_nil_of_isAbsolute _ hdir) hfileRel,
      resolve_append true [] _ _ (ne_nil_of_isAbsolute _ habs) hrel, resolve_basePath baseDir hbase,
      resolve_name _ _ _ hfile]
    rfl
  -- The file name is last, so no separator stays behind it.
  rw [lexicallyNormal_of_last _ filename (isAbsolute_append _ _ hdir hfileRel) hfile
    (segments_append_getLast? _ _ (ne_nil_of_isAbsolute _ hdir) hfileRel hfile), hnames]

/-! ## The guard -/

/-- **The hole in the guard.** The base directory has no separator behind it, and the user's path
leads to where its last name only begins a name: to a sibling or below one, or to the parent, where
the file name itself goes on from there. -/
def Escapes (baseDir userDir : Bytes) (filename : Name) : Prop :=
  (lexicallyNormal baseDir).getLast? ≠ some sep ∧
    ∃ front name suffix rest, baseNames baseDir = front ++ [name] ∧
      targetNames baseDir userDir ++ [filename] = front ++ (name ++ suffix) :: rest ∧
      (suffix ≠ [] ∨ rest = [])

theorem concat_eq_append_iff (base target : List Name) (filename : Name) :
    (∃ rest, rest ≠ [] ∧ target ++ [filename] = base ++ rest) ↔ base <+: target := by
  constructor
  · rintro ⟨rest, hne, h⟩
    obtain ⟨init, last, rfl⟩ := (List.eq_nil_or_concat' rest).resolve_left hne
    rw [← List.append_assoc] at h
    exact ⟨init, (List.append_inj_left' h rfl).symm⟩
  · rintro ⟨rest, rfl⟩
    exact ⟨rest ++ [filename], by simp, by simp⟩

theorem not_escapes_of_inside (baseDir userDir : Bytes) (filename : Name)
    (hinside : baseNames baseDir <+: targetNames baseDir userDir) :
    ¬ Escapes baseDir userDir filename := by
  rintro ⟨-, front, name, suffix, rest, hbase, htarget, hout⟩
  obtain ⟨rest', hne, h⟩ := (concat_eq_append_iff _ _ filename).mpr hinside
  rw [hbase, htarget, List.append_assoc, List.append_cancel_left_eq, List.singleton_append,
    List.cons.injEq] at h
  obtain ⟨hname, rfl⟩ := h
  have : suffix = [] := by simpa using hname
  rcases hout with hs | hr
  · exact hs this
  · exact hne hr

/-- **The guard lets through what is inside, and what escapes.** -/
theorem guard_iff (baseDir userDir : Bytes) (filename : Name) (hbase : isAbsolute baseDir = true)
    (hfile : Proper filename) :
    lexicallyNormal baseDir <+: render (targetNames baseDir userDir ++ [filename]) ↔
      baseNames baseDir <+: targetNames baseDir userDir ∨ Escapes baseDir userDir filename := by
  have hbaseProper := baseNames_proper baseDir
  have hproper : ∀ n ∈ targetNames baseDir userDir ++ [filename], Proper n := by
    intro n hn
    rcases List.mem_append.mp hn with hn | hn
    · exact targetNames_proper _ _ n hn
    · exact List.mem_singleton.mp hn ▸ hfile
  rcases lexicallyNormal_absolute baseDir hbase with h | ⟨hne, h⟩
  · rcases List.eq_nil_or_concat' (baseNames baseDir) with hnil | ⟨front, name, hconcat⟩
    · -- The base directory is the root.
      have hroot : lexicallyNormal baseDir = [sep] := by rw [h, ← baseNames, hnil]; rfl
      rw [hroot, hnil]
      exact iff_of_true (List.prefix_append [sep] _) (Or.inl (List.nil_prefix))
    · have hlast : (lexicallyNormal baseDir).getLast? ≠ some sep := by
        rw [h, ← baseNames, hconcat]
        exact getLast?_render_ne front name (by rw [← hconcat]; exact hbaseProper)
      rw [h, ← baseNames, hconcat,
        render_isPrefix front _ name (by rw [← hconcat]; exact hbaseProper) hproper (by simp),
        ← concat_eq_append_iff _ _ filename]
      constructor
      · rintro ⟨suffix, rest, htarget⟩
        by_cases hin : suffix = [] ∧ rest ≠ []
        · obtain ⟨rfl, hrest⟩ := hin
          exact Or.inl ⟨rest, hrest, by rw [htarget]; simp⟩
        · refine Or.inr ⟨hlast, front, name, suffix, rest, hconcat, htarget, ?_⟩
          rw [not_and_or, not_not] at hin
          exact hin
      · rintro (⟨rest, hrest, htarget⟩ | ⟨-, front', name', suffix, rest, hconcat', htarget, -⟩)
        · exact ⟨[], rest, by rw [htarget]; simp⟩
        · rw [hconcat] at hconcat'
          obtain ⟨rfl, hname⟩ := List.append_inj' hconcat' rfl
          obtain rfl := List.singleton_inj.mp hname
          exact ⟨suffix, rest, htarget⟩
  · rw [h, ← baseNames, render_sep_isPrefix _ _ hbaseProper hproper hne (by simp), concat_eq_append_iff]
    refine ⟨Or.inl, ?_⟩
    rintro (hin | ⟨hlast, -⟩)
    · exact hin
    · exact absurd (by rw [h]; simp) hlast

theorem createSessionFilePath_accepted (baseDir userDir : Bytes) (timestamp : Int) (disk : Disk)
    (searchId : Nat) (hbase : isAbsolute baseDir = true)
    (haccept : baseNames baseDir <+: targetNames baseDir userDir ∨
      Escapes baseDir userDir (sessionFilename searchId timestamp)) :
    createSessionFilePath baseDir timestamp disk userDir searchId =
      let (created, failed) := createDirectories disk [] (targetNames baseDir userDir)
      (if failed then .error .filesystemError
        else .ok (render (targetNames baseDir userDir ++ [sessionFilename searchId timestamp])), created) := by
  have hfile := sessionFilename_proper searchId timestamp
  have htarget := targetNames_proper baseDir userDir
  unfold createSessionFilePath
  simp only [fullFilePath_eq baseDir userDir _ hbase hfile,
    (guard_iff baseDir userDir _ hbase hfile).mpr haccept, not_true_eq_false, if_false,
    parentPath_render _ _ hfile.2.2.2 htarget, filenames_render _ htarget]

theorem createSessionFilePath_rejected (baseDir userDir : Bytes) (timestamp : Int) (disk : Disk)
    (searchId : Nat) (hbase : isAbsolute baseDir = true)
    (hreject : ¬ (baseNames baseDir <+: targetNames baseDir userDir ∨
      Escapes baseDir userDir (sessionFilename searchId timestamp))) :
    createSessionFilePath baseDir timestamp disk userDir searchId =
      (.error (.runtimeError (ascii "[MASTER] Security Alert: Path Traversal attempt blocked!")), []) := by
  have hfile := sessionFilename_proper searchId timestamp
  unfold createSessionFilePath
  simp only [fullFilePath_eq baseDir userDir _ hbase hfile]
  rw [if_pos ((guard_iff baseDir userDir _ hbase hfile).not.mpr hreject)]

/-! ## Different sessions -/

theorem char_of_ch (c : Char) (h : c.isDigit = true) : Char.ofNat (ch c).toNat = c := by
  simp only [Char.isDigit, Bool.and_eq_true, decide_eq_true_eq, ge_iff_le, UInt32.le_iff_toNat_le] at h
  have : c.toNat ≤ 57 := h.2
  rw [ch, UInt8.toNat_ofNat', Nat.mod_eq_of_lt (by omega)]
  exact Char.ofNat_toNat c

theorem decimal_injective : Function.Injective decimal := by
  intro n m h
  have hback : ∀ n, (decimal n).map (fun b => Char.ofNat b.toNat) = Nat.toDigits 10 n := by
    intro n
    rw [decimal, List.map_map]
    conv_rhs => rw [← List.map_id (Nat.toDigits 10 n)]
    apply List.map_congr_left
    intro c hc
    exact char_of_ch c (Nat.isDigit_of_mem_toDigits (by decide) (by decide) hc)
  have hdigits : Nat.toDigits 10 n = Nat.toDigits 10 m := by rw [← hback, ← hback, h]
  rw [← @Nat.ofDigitChars_ten_toDigits n, ← @Nat.ofDigitChars_ten_toDigits m, hdigits]

theorem formatInt_injective : Function.Injective formatInt := by
  intro n m h
  have hminus : ∀ n rest, decimal n ≠ ch '-' :: rest := by
    intro n rest heq
    exact absurd (decimal_digit n (ch '-') (by rw [heq]; exact List.mem_cons_self)) (by decide)
  cases n with
  | ofNat n =>
    cases m with
    | ofNat m => exact congrArg Int.ofNat (decimal_injective h)
    | negSucc m => exact absurd h (hminus n _)
  | negSucc n =>
    cases m with
    | ofNat m => exact absurd h.symm (hminus m _)
    | negSucc m =>
      have hsucc := decimal_injective (List.cons.inj h).2
      exact congrArg Int.negSucc (Nat.succ.inj hsucc)

theorem sessionFilename_id (searchId searchId' : Nat) (timestamp timestamp' : Int)
    (h : sessionFilename searchId timestamp = sessionFilename searchId' timestamp') : searchId = searchId' := by
  have hdigits : ∀ n (rest : Bytes), (decimal n ++ ch '_' :: rest).takeWhile (· ≠ ch '_') = decimal n := by
    intro n rest
    rw [List.takeWhile_append_of_pos, List.takeWhile_cons_of_neg (by simp), List.append_nil]
    intro b hb
    simp only [decide_eq_true_eq]
    rintro rfl
    exact absurd (decimal_digit n _ hb) (by decide)
  have hunderscore : ascii "_" = [ch '_'] := rfl
  unfold sessionFilename at h
  simp only [List.append_assoc, List.append_cancel_left_eq, hunderscore,
    List.cons_append, List.nil_append] at h
  apply decimal_injective
  rw [← hdigits searchId _, h, hdigits]

theorem makeRelative_ne_nil (path : Bytes) : makeRelative path ≠ [] := by
  unfold makeRelative
  simp only
  split
  · exact List.cons_ne_nil _ _
  · assumption

/-- **Sessions with different ids have different result files.** -/
theorem createSessionFilePath_id (baseDir baseDir' userDir userDir' : Bytes) (timestamp timestamp' : Int)
    (disk disk' : Disk) (searchId searchId' : Nat) (path : Bytes)
    (h : (createSessionFilePath baseDir timestamp disk userDir searchId).1 = .ok path)
    (h' : (createSessionFilePath baseDir' timestamp' disk' userDir' searchId').1 = .ok path) :
    searchId = searchId' := by
  have hname : ∀ baseDir timestamp disk userDir searchId,
      (createSessionFilePath baseDir timestamp disk userDir searchId).1 = .ok path →
        lastName path = sessionFilename searchId timestamp := by
    intro baseDir timestamp disk userDir searchId h
    unfold createSessionFilePath at h
    simp only at h
    split at h
    · cases h
    · split at h
      · cases h
      · cases h
        refine lastName_lexicallyNormal _ _ ?_ (sessionFilename_proper searchId timestamp)
        unfold append
        split
        · exact makeRelative_ne_nil userDir
        · split <;> simp [makeRelative_ne_nil userDir]
  exact sessionFilename_id _ _ _ _ ((hname _ _ _ _ _ h).symm.trans (hname _ _ _ _ _ h'))
/-! ## The sandbox -/

/-- What the sandbox promises of a result and of the directories created. -/
def Sandboxed (baseDir : Bytes) : Except Exn Bytes × List (List Name) → Prop
  | (.error _, created) => created = []
  | (.ok path, created) =>
    lexicallyNormal path = path ∧ isAbsolute path ∧
      filenames (lexicallyNormal baseDir) <+: filenames path ∧
      filenames (lexicallyNormal baseDir) ≠ filenames path ∧
      ∀ dir ∈ created, filenames (lexicallyNormal baseDir) <+: dir ∨
        dir <+: filenames (lexicallyNormal baseDir)

instance (baseDir : Bytes) : ∀ r, Decidable (Sandboxed baseDir r)
  | (.error _, _) => inferInstanceAs (Decidable (_ = _))
  | (.ok _, _) => inferInstanceAs (Decidable (_ ∧ _))

theorem filenames_basePath (baseDir : Bytes) (hbase : isAbsolute baseDir = true) :
    filenames (lexicallyNormal baseDir) = baseNames baseDir := by
  have hrender := filenames_render _ (baseNames_proper baseDir)
  rcases lexicallyNormal_absolute baseDir hbase with h | ⟨-, h⟩
  · rw [h]; exact hrender
  · rw [h, filenames, segments_append_sep, List.filter_append]
    exact (List.append_nil _).trans hrender

/-- **`CreateSessionFilePath` keeps the sandbox** exactly when nothing is created for an escaping
path, and no directory is left behind by a failure on the way to one inside. -/
theorem createSessionFilePath_sandboxed_iff (baseDir userDir : Bytes) (timestamp : Int) (disk : Disk)
    (searchId : Nat) (hbase : isAbsolute baseDir = true) :
    Sandboxed baseDir (createSessionFilePath baseDir timestamp disk userDir searchId) ↔
      (Escapes baseDir userDir (sessionFilename searchId timestamp) →
        createDirectories disk [] (targetNames baseDir userDir) = ([], true)) ∧
      (baseNames baseDir <+: targetNames baseDir userDir →
        (createDirectories disk [] (targetNames baseDir userDir)).2 = true →
        (createDirectories disk [] (targetNames baseDir userDir)).1 = []) := by
  have hfile := sessionFilename_proper searchId timestamp
  have hbetween := createDirectories_between disk [] (targetNames baseDir userDir)
  by_cases haccept : baseNames baseDir <+: targetNames baseDir userDir ∨
      Escapes baseDir userDir (sessionFilename searchId timestamp)
  · rw [createSessionFilePath_accepted baseDir userDir timestamp disk searchId hbase haccept]
    have hproper : ∀ n ∈ targetNames baseDir userDir ++ [sessionFilename searchId timestamp], Proper n := by
      intro n hn
      rcases List.mem_append.mp hn with hn | hn
      · exact targetNames_proper _ _ n hn
      · exact List.mem_singleton.mp hn ▸ hfile
    rcases hmade : createDirectories disk [] (targetNames baseDir userDir) with ⟨created, failed⟩
    rw [hmade] at hbetween
    simp only [List.nil_append] at hbetween
    cases failed with
    | true =>
      simp only [if_true, Sandboxed, Prod.mk.injEq, and_true, forall_const]
      constructor
      · intro h; exact ⟨fun _ => h, fun _ => h⟩
      · rintro ⟨hescape, hin⟩
        exact haccept.elim hin hescape
    | false =>
      simp only [Bool.false_eq_true, if_false, Sandboxed, filenames_basePath baseDir hbase,
        filenames_render _ hproper, lexicallyNormal_render _ hproper, isAbsolute_render, Prod.mk.injEq,
        and_false, imp_false, false_imp_iff, implies_true, and_true, true_and]
      constructor
      · rintro ⟨⟨rest, hrest⟩, hne, -⟩ hescape
        refine not_escapes_of_inside _ _ _ ((concat_eq_append_iff _ _ _).mp ⟨rest, ?_, hrest.symm⟩) hescape
        rintro rfl
        exact hne (by simpa using hrest)
      · intro hescape
        have hin := haccept.resolve_right hescape
        obtain ⟨rest, hrest, h⟩ := (concat_eq_append_iff _ _ (sessionFilename searchId timestamp)).mpr hin
        refine ⟨⟨rest, h.symm⟩, ?_, ?_⟩
        · rw [h]; simpa using hrest
        · intro dir hdir
          exact List.prefix_or_prefix_of_prefix hin (hbetween dir hdir)
  · rw [createSessionFilePath_rejected baseDir userDir timestamp disk searchId hbase haccept]
    rw [not_or] at haccept
    exact iff_of_true rfl ⟨fun h => absurd h haccept.2, fun h => absurd h haccept.1⟩

/-- A disk on which `/data` and `/data/loggrid` are there and everything else can be created. -/
def freshDisk : Disk where
  status dir := if dir <+: [ascii "data", ascii "loggrid"] then .directory else .notFound
  mkdir _ := true

theorem createSessionFilePath_sandboxed_iff_logs :
    Sandboxed (ascii "/data/loggrid")
        (createSessionFilePath (ascii "/data/loggrid") 1700000000 freshDisk (ascii "logs/../today") 7) ↔
      (Escapes (ascii "/data/loggrid") (ascii "logs/../today") (sessionFilename 7 1700000000) →
        createDirectories freshDisk [] (targetNames (ascii "/data/loggrid") (ascii "logs/../today")) =
          ([], true)) ∧
      (baseNames (ascii "/data/loggrid") <+: targetNames (ascii "/data/loggrid") (ascii "logs/../today") →
        (createDirectories freshDisk [] (targetNames (ascii "/data/loggrid") (ascii "logs/../today"))).2 = true →
        (createDirectories freshDisk [] (targetNames (ascii "/data/loggrid") (ascii "logs/../today"))).1 = []) :=
  createSessionFilePath_sandboxed_iff _ _ 1700000000 freshDisk 7 (by decide)

/-- **A sibling that shares the text of the base directory** is created and used. -/
theorem createSessionFilePath_escapes :
    createSessionFilePath (ascii "/data/loggrid") 1700000000 freshDisk (ascii "../loggrid-evil") 7 =
        (.ok (ascii "/data/loggrid-evil/search_7_1700000000.log"), [[ascii "data", ascii "loggrid-evil"]]) ∧
      ¬ Sandboxed (ascii "/data/loggrid")
        (createSessionFilePath (ascii "/data/loggrid") 1700000000 freshDisk (ascii "../loggrid-evil") 7) := by
  decide +kernel

end LogGrid.Master
