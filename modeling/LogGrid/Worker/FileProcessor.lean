import LogGrid.Base.Ifstream
import LogGrid.Common.Message

/-!
# `FileProcessor::SearchTask`

What a worker does with one task. The regular expression engine and the file
system are the worker's host: the code calls them and has no part in them.
-/

open LogGrid.Lines LogGrid.Ifstream

namespace LogGrid

/-- What the worker's machine does for `SearchTask`. -/
structure Host where
  /-- `std::ifstream(name)`; `none` when the file does not open. -/
  openFile : Bytes → Option LogFile
  /-- `std::regex(keyword)` and `std::regex_search`; `none` is a `regex_error`. -/
  regex : Bytes → Option (Bytes → Bool)
  /-- What the uninitialized `prevChar` holds. -/
  uninit : UInt8

namespace FileProcessor

/-- `static_cast<uint64_t>` of a stream position. -/
def castPos (pos : Int) : UInt64 := UInt64.ofInt pos

def dropCr (line : Bytes) : Bytes := if line.getLast? = some 13 then line.dropLast else line

/-- `std::format("{}: {}", task.filename, line)`. -/
def formatLine (name line : Bytes) : Bytes := name ++ ascii ": " ++ line

/-- The batch update for one line. -/
def addLine (pattern : Bytes → Bool) (name : Bytes) (maxLineCount : UInt64) (batch : ChunkResult)
    (line : Bytes) : ChunkResult :=
  if pattern line then
    let batch :=
      if batch.linesFound.toUInt64 < maxLineCount then
        { batch with
          lines := batch.lines ++ [formatLine name line]
          linesFound := batch.linesFound + 1 }
      else batch
    { batch with totalMatches := batch.totalMatches + 1 }
  else batch

def searchLoop (pattern : Bytes → Bool) (name : Bytes) (endByte maxLineCount : UInt64)
    (file : Ifstream) (currentPos : UInt64) (batch : ChunkResult) : ChunkResult :=
  if currentPos < endByte then
    let line := file.getline.1
    if _hfail : file.getline.2.failbit = false then
      let batch := addLine pattern name maxLineCount batch (dropCr line)
      if file.getline.2.tellg.1 = -1 then batch
      else
        searchLoop pattern name endByte maxLineCount file.getline.2
          (castPos file.getline.2.tellg.1) batch
    else batch
  else batch
termination_by file.file.bytes.length - file.pos
decreasing_by
  obtain ⟨hf, h1, h2⟩ := getline_advances file _hfail
  rw [hf]
  omega

/-- The stream after the part of `SearchTask` that moves it to the first line of the chunk. -/
def seekStart (uninit : UInt8) (file : LogFile) (startByte : UInt64) : Ifstream :=
  let file := (At file 0).seekg startByte.toInt64.toInt
  if startByte ≠ 0 then
    let file := file.seekg (startByte - 1).toInt64.toInt
    let prev := file.get uninit
    if prev.1 ≠ newline then prev.2.getline.2 else prev.2
  else file

def searchTask (host : Host) (task : TaskPayload) (maxLineCount : UInt64) : ChunkResult :=
  match host.openFile task.filename.cStr with
  | none => {}
  | some file =>
    let file := seekStart host.uninit file task.startOffset
    let (pos, file) := file.tellg
    match host.regex task.keyword.cStr with
    | none => {}
    | some pattern =>
      searchLoop pattern task.filename.cStr task.endOffset maxLineCount file (castPos pos) {}

/-! ## Positions -/

theorem toInt64_toInt (n : UInt64) (h : n.toNat < 2 ^ 63) : n.toInt64.toInt = n.toNat := by
  rw [← UInt64.ofNat_toNat (x := n), UInt64.toInt64_ofNat', Int64.toInt_ofNat_of_lt h]
  simp

theorem castPos_ofNat (n : Nat) (h : n < 2 ^ 64) : (castPos n).toNat = n := by
  simp [castPos, UInt64.ofInt]
  omega

theorem castPos_failed : (castPos (-1)).toNat = 2 ^ 64 - 1 := by decide

/-! ## The loop reads the lines that start in front of `endByte` -/

theorem searchLoop_at (pattern : Bytes → Bool) (name : Bytes) (endByte maxLineCount : UInt64)
    (file : LogFile) (p : Nat) (batch : ChunkResult)
    (hp : StartsAt newline file.bytes p ∨ file.bytes.length ≤ p) (hlt : p < 2 ^ 64) :
    searchLoop pattern name endByte maxLineCount (At file p) (castPos p) batch =
      (linesIn newline file.bytes p endByte.toNat).foldl
        (fun b line => addLine pattern name maxLineCount b (dropCr line)) batch := by
  induction hn : file.bytes.length - p using Nat.strong_induction_on generalizing p batch with
  | _ n ih =>
    have hcond : castPos p < endByte ↔ p < endByte.toNat := by
      rw [UInt64.lt_iff_toNat_lt, castPos_ofNat p hlt]
    rw [searchLoop]
    split
    case isFalse hend =>
      rw [hcond] at hend
      simp [linesIn, starts_of_le_start newline file.bytes p endByte.toNat (by omega)]
    case isTrue hend =>
      rw [hcond] at hend
      rcases hp with hp | hp
      · have hin := hp.1
        have hfile := file.length_lt
        rw [linesIn, starts_cons newline file.bytes p _ hp hend, List.map_cons, List.foldl_cons]
        by_cases hmore : p + (lineAt newline file.bytes p).length < file.bytes.length
        · -- The line ends with a newline: the loop goes on behind it.
          have hrest := ih _ (by omega) (p + (lineAt newline file.bytes p).length + 1)
            (addLine pattern name maxLineCount batch (dropCr (lineAt newline file.bytes p)))
            (startsAt_next newline file.bytes p hmore) (by omega) rfl
          simp only [getline_at file p hmore, tellg_at, failbit_at, dite_true]
          rw [if_neg (by omega), hrest]
          rfl
        · -- The last line has no newline: `tellg` gives -1 and the loop ends.
          obtain ⟨h1, h2, h3⟩ := getline_last file p hin hmore
          have hle := lineAt_length_le newline file.bytes p
          rw [dif_pos h2, if_pos (tellg_of_not_good _ h3), h1,
            starts_past_end newline file.bytes _ _ (by omega)]
          rfl
      · rw [dif_neg (by simp [getline_past_end file p hp]), linesIn,
          starts_past_end newline file.bytes _ _ hp]
        rfl

theorem searchLoop_past (pattern : Bytes → Bool) (name : Bytes) (endByte maxLineCount : UInt64)
    (file : Ifstream) (batch : ChunkResult) (hend : endByte.toNat < 2 ^ 63) :
    searchLoop pattern name endByte maxLineCount file (castPos (-1)) batch = batch := by
  have hno : ¬ castPos (-1) < endByte := by
    rw [UInt64.lt_iff_toNat_lt, castPos_failed]; omega
  rw [searchLoop, if_neg hno]

/-! ## The seek finds the first line of the chunk -/

/-- The stream stands at the first line of the chunk, or has failed and the chunk owns no line. -/
def AtFirstLine (file : LogFile) (start : Nat) (s : Ifstream) : Prop :=
  (∃ p, s = At file p ∧ p < 2 ^ 64 ∧ (StartsAt newline file.bytes p ∨ file.bytes.length ≤ p) ∧
    ∀ e, starts newline file.bytes start e = starts newline file.bytes p e) ∨
  (s.good = false ∧ ∀ e, starts newline file.bytes start e = [])

theorem getline_skips (file : LogFile) (p : Nat)
    (hno : ¬ StartsAt newline file.bytes p) : AtFirstLine file p (At file p).getline.2 := by
  have hfile := file.length_lt
  have hle := lineAt_length_le newline file.bytes p
  by_cases hmore : p + (lineAt newline file.bytes p).length < file.bytes.length
  · left
    refine ⟨p + (lineAt newline file.bytes p).length + 1, ?_, by omega,
      startsAt_next newline file.bytes p hmore, fun e => starts_skip_rest newline file.bytes p e hno⟩
    rw [getline_at file p hmore]
  · right
    have hnone : ∀ e, starts newline file.bytes p e = [] := by
      intro e
      rw [starts_skip_rest newline file.bytes p e hno]
      exact starts_past_end newline file.bytes _ e (by omega)
    rcases Nat.lt_or_ge p file.bytes.length with hlt | hge
    · exact ⟨(getline_last file p hlt hmore).2.2, hnone⟩
    · exact ⟨not_good_of_failbit _ (getline_past_end file p hge), hnone⟩

theorem seekStart_spec (uninit : UInt8) (file : LogFile) (startByte : UInt64)
    (hstart : startByte.toNat < 2 ^ 63) :
    AtFirstLine file startByte.toNat (seekStart uninit file startByte) := by
  unfold seekStart
  simp only [toInt64_toInt _ hstart, seekg_at]
  by_cases h0 : startByte = 0
  · -- The first chunk starts at the first line.
    rw [if_neg (by simpa using h0), h0]
    left
    refine ⟨0, rfl, by omega, ?_, fun e => rfl⟩
    by_cases hempty : file.bytes.length = 0
    · exact Or.inr (by omega)
    · exact Or.inl ⟨by omega, Or.inl rfl⟩
  · have hpos : startByte.toNat ≠ 0 := fun h => h0 (UInt64.toNat_inj.mp (by simpa using h))
    have hprev : (startByte - 1).toNat = startByte.toNat - 1 := by
      have h1 : (1 : UInt64) ≤ startByte := by rw [UInt64.le_iff_toNat_le]; simp; omega
      rw [UInt64.toNat_sub_of_le _ _ h1]; rfl
    rw [if_pos (by simpa using h0), toInt64_toInt _ (by omega), hprev, seekg_at]
    rcases Nat.lt_or_ge (startByte.toNat - 1) file.bytes.length with hlt | hge
    · -- There is a character in front of the chunk.
      rw [get_at file _ _ _ (List.getElem?_eq_getElem hlt), Nat.sub_add_cancel (by omega)]
      by_cases hnl : file.bytes[startByte.toNat - 1] = newline
      · rw [if_neg (by simpa using hnl)]
        left
        refine ⟨startByte.toNat, rfl, by omega, ?_, fun e => rfl⟩
        rcases Nat.lt_or_ge startByte.toNat file.bytes.length with hin | hout
        · exact Or.inl ⟨hin, Or.inr (by rw [List.getElem?_eq_getElem hlt, hnl])⟩
        · exact Or.inr hout
      · rw [if_pos (by simpa using hnl)]
        apply getline_skips file
        rintro ⟨-, h | h⟩
        · exact hpos h
        · rw [List.getElem?_eq_getElem hlt] at h
          exact hnl (by simpa using h)
    · -- The chunk starts behind the end of the file: nothing is read.
      have hbad := get_past_end file (startByte.toNat - 1) uninit hge
      right
      refine ⟨?_, fun e => starts_past_end newline file.bytes _ e (by omega)⟩
      split
      · exact not_good_of_failbit _ (getline_not_good _ hbad)
      · exact hbad

theorem searchTask_eq_foldl (host : Host) (task : TaskPayload) (maxLineCount : UInt64) (file : LogFile)
    (pattern : Bytes → Bool) (hopen : host.openFile task.filename.cStr = some file)
    (hregex : host.regex task.keyword.cStr = some pattern)
    (hstart : task.startOffset.toNat < 2 ^ 63) (hend : task.endOffset.toNat < 2 ^ 63) :
    searchTask host task maxLineCount =
      (linesIn newline file.bytes task.startOffset.toNat task.endOffset.toNat).foldl
        (fun b line => addLine pattern task.filename.cStr maxLineCount b (dropCr line)) {} := by
  rw [searchTask, hopen]
  simp only [hregex]
  rcases seekStart_spec host.uninit file task.startOffset hstart with
    ⟨p, hs, hlt, hp, hstarts⟩ | ⟨hbad, hnone⟩
  · rw [hs, tellg_at, linesIn, hstarts, ← linesIn]
    exact searchLoop_at pattern _ _ maxLineCount file p {} hp hlt
  · rw [tellg_of_not_good _ hbad, searchLoop_past _ _ _ _ _ _ hend, linesIn, hnone]
    rfl

/-! ## What the batch holds -/

def matching (pattern : Bytes → Bool) (name : Bytes) (file : LogFile) (s e : Nat) : List Bytes :=
  (((linesIn newline file.bytes s e).map dropCr).filter pattern).map (formatLine name)

theorem matching_length_le (pattern : Bytes → Bool) (name : Bytes) (file : LogFile) (s e : Nat) :
    (matching pattern name file s e).length ≤ (starts newline file.bytes s e).length := by
  have h := List.length_filter_le pattern ((linesIn newline file.bytes s e).map dropCr)
  simpa [matching, linesIn] using h

theorem matching_append (pattern : Bytes → Bool) (name : Bytes) (file : LogFile) (s m e : Nat)
    (hs : s ≤ m) (he : m ≤ e) :
    matching pattern name file s m ++ matching pattern name file m e =
      matching pattern name file s e := by
  simp only [matching, linesIn, ← List.map_append, ← List.filter_append, starts_append _ _ s m e hs he]

/-- A batch in step with its own line count. -/
def Counted (batch : ChunkResult) : Prop := batch.linesFound.toNat = batch.lines.length

theorem addLine_foldl (pattern : Bytes → Bool) (name : Bytes) (maxLineCount : UInt64)
    (ls : List Bytes) (batch : ChunkResult) (hc : Counted batch)
    (hroom : batch.lines.length + ls.length < 2 ^ 32) :
    let hits := ((ls.map dropCr).filter pattern).map (formatLine name)
    let r := ls.foldl (fun b line => addLine pattern name maxLineCount b (dropCr line)) batch
    Counted r ∧ r.lines = batch.lines ++ hits.take (maxLineCount.toNat - batch.lines.length) ∧
      r.totalMatches = batch.totalMatches + UInt64.ofNat hits.length := by
  induction ls generalizing batch with
  | nil => simp [hc]
  | cons line ls ih =>
    simp only [List.length_cons] at hroom
    simp only [List.foldl_cons, List.map_cons]
    by_cases hmatch : pattern (dropCr line)
    · by_cases hfull : batch.linesFound.toUInt64 < maxLineCount
      · -- The line is kept.
        have hlt : batch.lines.length < maxLineCount.toNat := by
          rw [UInt64.lt_iff_toNat_lt] at hfull
          rw [← hc]; simpa using hfull
        have hstep : Counted { batch with
            lines := batch.lines ++ [formatLine name (dropCr line)]
            linesFound := batch.linesFound + 1
            totalMatches := batch.totalMatches + 1 } := by
          have hc' : batch.linesFound.toNat = batch.lines.length := hc
          simp only [Counted, UInt32.toNat_add, hc', List.length_append, List.length_singleton]
          exact Nat.mod_eq_of_lt (by simp; omega)
        have hadd : addLine pattern name maxLineCount batch (dropCr line) = { batch with
            lines := batch.lines ++ [formatLine name (dropCr line)]
            linesFound := batch.linesFound + 1
            totalMatches := batch.totalMatches + 1 } := by
          simp [addLine, hmatch, hfull]
        rw [hadd]
        obtain ⟨h1, h2, h3⟩ := ih _ hstep (by simp; omega)
        refine ⟨h1, ?_, ?_⟩
        · rw [h2, List.filter_cons_of_pos hmatch, List.map_cons]
          simp only [List.length_append, List.length_singleton, List.append_assoc]
          rw [show maxLineCount.toNat - batch.lines.length =
            (maxLineCount.toNat - (batch.lines.length + 1)) + 1 by omega]
          rfl
        · rw [h3, List.filter_cons_of_pos hmatch, List.map_cons, List.length_cons]
          simp only [UInt64.ofNat_add, UInt64.add_assoc, UInt64.add_comm]
          rfl
      · -- The limit is reached: the match is only counted.
        have hge : maxLineCount.toNat ≤ batch.lines.length := by
          rw [UInt64.lt_iff_toNat_lt] at hfull
          rw [← hc]; simpa using hfull
        have hadd : addLine pattern name maxLineCount batch (dropCr line) =
            { batch with totalMatches := batch.totalMatches + 1 } := by
          simp [addLine, hmatch, hfull]
        rw [hadd]
        obtain ⟨h1, h2, h3⟩ := ih { batch with totalMatches := batch.totalMatches + 1 } hc (by simp; omega)
        refine ⟨h1, ?_, ?_⟩
        · rw [h2]
          simp [Nat.sub_eq_zero_of_le hge]
        · rw [h3, List.filter_cons_of_pos hmatch, List.map_cons, List.length_cons]
          simp only [UInt64.ofNat_add, UInt64.add_assoc, UInt64.add_comm]
          rfl
    · have hadd : addLine pattern name maxLineCount batch (dropCr line) = batch := by
        simp [addLine, hmatch]
      rw [hadd, List.filter_cons_of_neg hmatch]
      exact ih batch hc (by omega)

/-- `SearchTask` counts the matches of the lines it owns and returns the first of them. -/
theorem searchTask_spec (host : Host) (task : TaskPayload) (maxLineCount : UInt64) (file : LogFile)
    (pattern : Bytes → Bool) (hopen : host.openFile task.filename.cStr = some file)
    (hregex : host.regex task.keyword.cStr = some pattern)
    (hstart : task.startOffset.toNat < 2 ^ 63) (hend : task.endOffset.toNat < 2 ^ 63)
    (hcount : (starts newline file.bytes task.startOffset.toNat task.endOffset.toNat).length < 2 ^ 32) :
    let hits := matching pattern task.filename.cStr file task.startOffset.toNat task.endOffset.toNat
    let r := searchTask host task maxLineCount
    r.totalMatches.toNat = hits.length ∧ r.lines = hits.take maxLineCount.toNat ∧
      r.linesFound.toNat = r.lines.length := by
  obtain ⟨h1, h2, h3⟩ := addLine_foldl pattern task.filename.cStr maxLineCount
    (linesIn newline file.bytes task.startOffset.toNat task.endOffset.toNat) {} rfl
    (by simpa [linesIn] using hcount)
  rw [← searchTask_eq_foldl host task maxLineCount file pattern hopen hregex hstart hend] at h1 h2 h3
  refine ⟨?_, by rw [matching]; simpa using h2, h1⟩
  have hle := matching_length_le pattern task.filename.cStr file task.startOffset.toNat
    task.endOffset.toNat
  rw [h3]
  simp only [UInt64.zero_add, UInt64.toNat_ofNat']
  exact Nat.mod_eq_of_lt (by unfold matching at hle; omega)

end FileProcessor

end LogGrid
