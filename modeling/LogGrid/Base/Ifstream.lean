import LogGrid.Base.Lines

/-!
# `std::ifstream` in binary mode

The get position and the two state bits that the standard's unformatted input
functions set. The contents do not change while the stream is open. An offset is
a 63-bit number, so a file's size fits one.
-/

namespace LogGrid

/-- The contents of a regular file; `off_t` bounds its size. -/
structure LogFile where
  bytes : List UInt8
  length_lt : bytes.length < 2 ^ 63

structure Ifstream where
  file : LogFile
  pos : Nat := 0
  eofbit : Bool := false
  failbit : Bool := false

namespace Ifstream

def newline : UInt8 := 10

def good (s : Ifstream) : Bool := !s.eofbit && !s.failbit

/-- `seekg(off)`. It clears `eofbit`, does nothing on a failed stream, and fails on a negative offset. -/
def seekg (s : Ifstream) (off : Int) : Ifstream :=
  let s := { s with eofbit := false }
  if s.failbit then s
  else if off < 0 then { s with failbit := true }
  else { s with pos := off.toNat }

/-- `get(c)`. `c` keeps its value when nothing could be read. -/
def get (s : Ifstream) (c : UInt8) : UInt8 × Ifstream :=
  if s.good then
    match s.file.bytes[s.pos]? with
    | some b => (b, { s with pos := s.pos + 1 })
    | none => (c, { s with eofbit := true, failbit := true })
  else (c, { s with failbit := true })

/-- `std::getline(s, line)`. The newline is taken off the stream and not stored. -/
def getline (s : Ifstream) : List UInt8 × Ifstream :=
  if s.good then
    let line := Lines.lineAt newline s.file.bytes s.pos
    if s.pos + line.length < s.file.bytes.length then
      (line, { s with pos := s.pos + line.length + 1 })
    else
      (line, { s with pos := s.pos + line.length, eofbit := true, failbit := line.isEmpty })
  else ([], { s with failbit := true })

/-- `tellg()`. The sentry fails a stream that is not good, so the end of file gives -1 too. -/
def tellg (s : Ifstream) : Int × Ifstream :=
  if s.good then (s.pos, s) else (-1, { s with failbit := true })

def At (file : LogFile) (p : Nat) : Ifstream := { file, pos := p }

@[simp] theorem eofbit_at (file : LogFile) (p : Nat) : (At file p).eofbit = false := rfl
@[simp] theorem failbit_at (file : LogFile) (p : Nat) : (At file p).failbit = false := rfl
@[simp] theorem good_at (file : LogFile) (p : Nat) : (At file p).good = true := rfl
@[simp] theorem file_at (file : LogFile) (p : Nat) : (At file p).file = file := rfl
@[simp] theorem pos_at (file : LogFile) (p : Nat) : (At file p).pos = p := rfl

theorem seekg_at (file : LogFile) (p q : Nat) : (At file p).seekg q = At file q := by
  simp [seekg, At]

theorem tellg_at (file : LogFile) (p : Nat) : (At file p).tellg = ((p : Int), At file p) := by
  simp [tellg]

theorem tellg_of_not_good (s : Ifstream) (h : s.good = false) : s.tellg.1 = -1 := by
  simp [tellg, h]

theorem get_at (file : LogFile) (p : Nat) (c b : UInt8) (hb : file.bytes[p]? = some b) :
    (At file p).get c = (b, At file (p + 1)) := by
  simp [get, hb]; rfl

theorem get_past_end (file : LogFile) (p : Nat) (c : UInt8) (hp : file.bytes.length ≤ p) :
    ((At file p).get c).2.good = false := by
  simp [get, List.getElem?_eq_none hp, good]

theorem getline_not_good (s : Ifstream) (h : s.good = false) : s.getline.2.failbit = true := by
  simp [getline, h]

theorem not_good_of_failbit (s : Ifstream) (h : s.failbit = true) : s.good = false := by
  simp [good, h]

theorem getline_at (file : LogFile) (p : Nat)
    (h : p + (Lines.lineAt newline file.bytes p).length < file.bytes.length) :
    (At file p).getline = (Lines.lineAt newline file.bytes p,
      At file (p + (Lines.lineAt newline file.bytes p).length + 1)) := by
  simp [getline, h]; rfl

theorem getline_last (file : LogFile) (p : Nat) (hp : p < file.bytes.length)
    (h : ¬ p + (Lines.lineAt newline file.bytes p).length < file.bytes.length) :
    (At file p).getline.1 = Lines.lineAt newline file.bytes p ∧
      (At file p).getline.2.failbit = false ∧ (At file p).getline.2.good = false := by
  have hne : Lines.lineAt newline file.bytes p ≠ [] := by
    intro hnil
    rw [hnil] at h
    exact h (by simpa using hp)
  simp [getline, h, good, hne]

theorem getline_past_end (file : LogFile) (p : Nat) (hp : file.bytes.length ≤ p) :
    (At file p).getline.2.failbit = true := by
  have hnil : Lines.lineAt newline file.bytes p = [] := by simp [Lines.lineAt, List.drop_eq_nil_of_le hp]
  have hend : ¬ p < file.bytes.length := by omega
  simp [getline, hnil, hend]

theorem getline_advances (s : Ifstream) (h : s.getline.2.failbit = false) :
    s.getline.2.file = s.file ∧ s.pos < s.getline.2.pos ∧ s.getline.2.pos ≤ s.file.bytes.length := by
  have hle := Lines.lineAt_length_le newline s.file.bytes s.pos
  unfold getline at h ⊢
  split at h
  · rename_i hgood
    rw [if_pos hgood]
    simp only at h ⊢
    split at h
    · rename_i hin
      rw [if_pos hin]
      exact ⟨rfl, by simp only; omega, by simp only; omega⟩
    · rename_i hend
      rw [if_neg hend]
      have hne : Lines.lineAt newline s.file.bytes s.pos ≠ [] := by simpa using h
      have hpos := List.length_pos_of_ne_nil hne
      exact ⟨rfl, by simp only; omega, by simp only; omega⟩
  · simp at h

end Ifstream

end LogGrid
