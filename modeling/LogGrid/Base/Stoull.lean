import Mathlib.Algebra.Ring.Nat
import Mathlib.Data.List.TakeWhile

/-!
# `std::stoull`

In base 10: white space is skipped, then a sign may come, then the longest run
of digits, and what is behind it does not matter. A zero byte ends the text for
the C function underneath, which makes no difference: it is none of these.
-/

namespace LogGrid.Stoull

def isSpace (b : UInt8) : Bool := b = 32 ∨ 9 ≤ b ∧ b ≤ 13

def isDigit (b : UInt8) : Bool := 48 ≤ b ∧ b ≤ 57

def value (digits : List UInt8) : Nat := digits.foldl (fun n b => 10 * n + (b.toNat - 48)) 0

/-- The two exceptions, both of them `std::logic_error`s. -/
inductive Failure
  | invalidArgument
  | outOfRange
  deriving DecidableEq, Repr

/-- An optional sign, and whether it is a minus. -/
def splitSign : List UInt8 → Bool × List UInt8
  | 45 :: text => (true, text)
  | 43 :: text => (false, text)
  | text => (false, text)

def stoull (text : List UInt8) : Except Failure UInt64 :=
  let (negative, text) := splitSign (text.dropWhile isSpace)
  let digits := text.takeWhile isDigit
  if digits = [] then .error .invalidArgument
  else if 2 ^ 64 ≤ value digits then .error .outOfRange
  else .ok (if negative then 0 - UInt64.ofNat (value digits) else UInt64.ofNat (value digits))

/-- `text` is blanks, a sign or none, digits, and something that is not one more digit. -/
structure Splits (text blanks sign digits rest : List UInt8) : Prop where
  eq : text = blanks ++ (sign ++ (digits ++ rest))
  blanks : ∀ b ∈ blanks, isSpace b = true
  sign : sign = [] ∨ sign = [43] ∨ sign = [45]
  some : digits ≠ []
  digits : ∀ b ∈ digits, isDigit b = true
  stop : ∀ b ∈ rest.head?, isDigit b = false

/-- The number that signed digits stand for modulo `2 ^ 64`. -/
def signed (sign digits : List UInt8) : Nat :=
  if sign = [45] then (2 ^ 64 - value digits) % 2 ^ 64 else value digits

/-- `text` begins with a number that fits, and this is `k`. -/
def ReadsAs (text : List UInt8) (k : Nat) : Prop :=
  ∃ blanks sign digits rest, Splits text blanks sign digits rest ∧ value digits < 2 ^ 64 ∧ k = signed sign digits

/-- `text` is digits and nothing else, and these stand for `k`. -/
def Numeral (text : List UInt8) (k : Nat) : Prop :=
  text ≠ [] ∧ (∀ b ∈ text, isDigit b = true) ∧ value text = k

/-! ## Runs of bytes -/

section

variable {p : UInt8 → Bool} {front back : List UInt8}

theorem takeWhile_stop (hfront : ∀ b ∈ front, p b = true) (hback : ∀ b ∈ back.head?, p b = false) :
    (front ++ back).takeWhile p = front := by
  rw [List.takeWhile_append_of_pos hfront]
  cases back with
  | nil => rw [List.takeWhile_nil, List.append_nil]
  | cons b back =>
    have hb : p b = false := hback b rfl
    rw [List.takeWhile_cons_of_neg (by rw [hb]; exact Bool.false_ne_true), List.append_nil]

theorem dropWhile_stop (hfront : ∀ b ∈ front, p b = true) (hback : ∀ b ∈ back.head?, p b = false) :
    (front ++ back).dropWhile p = back := by
  rw [List.dropWhile_append_of_pos hfront]
  cases back with
  | nil => rfl
  | cons b back =>
    have hb : p b = false := hback b rfl
    exact List.dropWhile_cons_of_neg (by rw [hb]; exact Bool.false_ne_true)

theorem head_dropWhile (text : List UInt8) : ∀ b ∈ (text.dropWhile p).head?, p b = false := by
  intro b hb
  have := List.head?_dropWhile_not p text
  rw [Option.mem_def.mp hb] at this
  simpa using this

end

theorem digit_not_space (b : UInt8) (h : isDigit b = true) : isSpace b = false := by
  unfold isDigit at h
  unfold isSpace
  simp only [decide_eq_true_eq, UInt8.le_iff_toNat_le] at h
  simp only [decide_eq_false_iff_not, not_or, not_and, not_le, UInt8.le_iff_toNat_le, ← UInt8.toNat_inj]
  have h₄₈ : (48 : UInt8).toNat = 48 := rfl
  have h₁₃ : (13 : UInt8).toNat = 13 := rfl
  have h₃₂ : (32 : UInt8).toNat = 32 := rfl
  omega

theorem splitSign_digit (b : UInt8) (text : List UInt8) (h : isDigit b = true) :
    splitSign (b :: text) = (false, b :: text) := by
  unfold splitSign
  split
  · rename_i heq
    cases heq
    exact absurd h (by decide)
  · rename_i heq
    cases heq
    exact absurd h (by decide)
  · rfl

/-! ## What is accepted -/

theorem Splits.behind_blanks {text blanks sign digits rest : List UInt8}
    (h : Splits text blanks sign digits rest) :
    splitSign (text.dropWhile isSpace) = (decide (sign = [45]), digits ++ rest) := by
  obtain ⟨b, tail, hdigits⟩ := List.exists_cons_of_ne_nil h.some
  have hb : isDigit b = true := h.digits b (by rw [hdigits]; exact List.mem_cons_self)
  have hdrop : text.dropWhile isSpace = sign ++ (digits ++ rest) := by
    rw [h.eq]
    refine dropWhile_stop h.blanks fun b' hb' => ?_
    rcases h.sign with rfl | rfl | rfl
    · rw [hdigits] at hb'
      cases hb'
      exact digit_not_space b hb
    · cases hb'
      rfl
    · cases hb'
      rfl
  rw [hdrop]
  rcases h.sign with rfl | rfl | rfl
  · rw [hdigits]
    exact splitSign_digit b (tail ++ rest) hb
  · rfl
  · rfl

theorem splits_self (text : List UInt8) (hdigits : (splitSign (text.dropWhile isSpace)).2.takeWhile isDigit ≠ []) :
    ∃ sign, Splits text (text.takeWhile isSpace) sign ((splitSign (text.dropWhile isSpace)).2.takeWhile isDigit)
      ((splitSign (text.dropWhile isSpace)).2.dropWhile isDigit) ∧
      (splitSign (text.dropWhile isSpace)).1 = decide (sign = [45]) := by
  have hsign : ∃ sign, (sign = [] ∨ sign = [43] ∨ sign = [45]) ∧
      text.dropWhile isSpace = sign ++ (splitSign (text.dropWhile isSpace)).2 ∧
      (splitSign (text.dropWhile isSpace)).1 = decide (sign = [45]) := by
    generalize text.dropWhile isSpace = text
    unfold splitSign
    split
    · exact ⟨[45], Or.inr (Or.inr rfl), rfl, rfl⟩
    · exact ⟨[43], Or.inr (Or.inl rfl), rfl, rfl⟩
    · exact ⟨[], Or.inl rfl, rfl, rfl⟩
  obtain ⟨sign, hcases, heq, hnegative⟩ := hsign
  refine ⟨sign, ⟨?_, fun b => List.mem_takeWhile_imp, hcases, hdigits, fun b => List.mem_takeWhile_imp,
    head_dropWhile _⟩, hnegative⟩
  rw [List.takeWhile_append_dropWhile, ← heq, List.takeWhile_append_dropWhile]

theorem toNat_signed (sign digits : List UInt8) (h : value digits < 2 ^ 64) :
    (if decide (sign = [45]) = true then 0 - UInt64.ofNat (value digits) else UInt64.ofNat (value digits)).toNat =
      signed sign digits := by
  unfold signed
  by_cases hsign : sign = [45]
  · rw [if_pos (decide_eq_true hsign), if_pos hsign, UInt64.toNat_sub, UInt64.toNat_ofNat', UInt64.toNat_zero,
      Nat.mod_eq_of_lt h, Nat.add_zero]
  · rw [if_neg (by simpa using hsign), if_neg hsign, UInt64.toNat_ofNat', Nat.mod_eq_of_lt h]

/-- **What `stoull` accepts**, and what it makes of it. -/
theorem stoull_ok_iff (text : List UInt8) (k : UInt64) : stoull text = .ok k ↔ ReadsAs text k.toNat := by
  constructor
  · intro h
    unfold stoull at h
    simp only at h
    split at h
    · cases h
    · rename_i hdigits
      split at h
      · cases h
      · rename_i hfits
        cases h
        obtain ⟨sign, hsplits, hnegative⟩ := splits_self text hdigits
        have hlt := Nat.lt_of_not_le hfits
        refine ⟨_, sign, _, _, hsplits, hlt, ?_⟩
        rw [hnegative]
        exact toNat_signed sign _ hlt
  · rintro ⟨blanks, sign, digits, rest, hsplits, hfits, hk⟩
    have htake : (digits ++ rest).takeWhile isDigit = digits := takeWhile_stop hsplits.digits hsplits.stop
    unfold stoull
    simp only [hsplits.behind_blanks, htake]
    rw [if_neg hsplits.some, if_neg (Nat.not_le_of_lt hfits)]
    refine congrArg Except.ok (UInt64.toNat_inj.mp ?_)
    rw [hk]
    exact toNat_signed sign digits hfits

theorem readsAs_iff (text : List UInt8) (k : Nat) : ReadsAs text k ↔ ∃ n, stoull text = .ok n ∧ n.toNat = k := by
  constructor
  · intro h
    have hk : k < 2 ^ 64 := by
      obtain ⟨_, sign, digits, _, -, hfits, rfl⟩ := h
      rw [← toNat_signed sign digits hfits]
      exact UInt64.toNat_lt _
    have hn : (UInt64.ofNat k).toNat = k := by rw [UInt64.toNat_ofNat', Nat.mod_eq_of_lt hk]
    exact ⟨UInt64.ofNat k, (stoull_ok_iff text _).mpr (by rwa [hn]), hn⟩
  · rintro ⟨n, h, rfl⟩
    exact (stoull_ok_iff text n).mp h

theorem Numeral.readsAs {text : List UInt8} {k : Nat} (h : Numeral text k) (hk : k < 2 ^ 64) : ReadsAs text k := by
  obtain ⟨hsome, hdigits, rfl⟩ := h
  exact ⟨[], [], text, [], ⟨(List.append_nil text).symm, by simp, Or.inl rfl, hsome, hdigits, by simp⟩, hk, rfl⟩

end LogGrid.Stoull
