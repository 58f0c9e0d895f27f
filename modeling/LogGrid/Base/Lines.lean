import Mathlib.Data.List.Nodup
import Mathlib.Data.List.Range
import Mathlib.Data.List.TakeWhile
import Mathlib.Data.Nat.Init
import Mathlib.Tactic.Ring

/-!
# Lines of a text

A line starts at the first offset of a text and after every newline, as long as
something of the text is left there. The lines that start inside a range of
offsets are what a reader of that range owns: neighbouring ranges own
neighbouring lines, and no line twice.
-/

namespace LogGrid.Lines

variable {α : Type} [DecidableEq α] (nl : α) (text : List α)

def StartsAt (p : Nat) : Prop := p < text.length ∧ (p = 0 ∨ text[p - 1]? = some nl)

instance (p : Nat) : Decidable (StartsAt nl text p) := inferInstanceAs (Decidable (_ ∧ _))

/-- The text from offset `p` up to the next newline or the end. -/
def lineAt (p : Nat) : List α := (text.drop p).takeWhile (· ≠ nl)

/-- The offsets in `[s, e)` at which a line starts. -/
def starts (s e : Nat) : List Nat := (List.range' s (e - s)).filter (StartsAt nl text ·)

/-- The lines that start in `[s, e)`, without their newlines. -/
def linesIn (s e : Nat) : List (List α) := (starts nl text s e).map (lineAt nl text)

theorem mem_starts (s e p : Nat) : p ∈ starts nl text s e ↔ s ≤ p ∧ p < e ∧ StartsAt nl text p := by
  simp only [starts, List.mem_filter, List.mem_range'_1, decide_eq_true_eq]
  constructor
  · rintro ⟨⟨h1, h2⟩, h3⟩; exact ⟨h1, by omega, h3⟩
  · rintro ⟨h1, h2, h3⟩; exact ⟨⟨h1, by omega⟩, h3⟩

theorem starts_length_le (s e : Nat) : (starts nl text s e).length ≤ e - s := by
  have h := List.length_filter_le (fun p => decide (StartsAt nl text p)) (List.range' s (e - s))
  simpa [starts] using h

theorem starts_empty (s : Nat) : starts nl text s s = [] := by simp [starts]

theorem starts_append (s m e : Nat) (hs : s ≤ m) (he : m ≤ e) :
    starts nl text s m ++ starts nl text m e = starts nl text s e := by
  have hsum : e - s = (m - s) + (e - m) := by omega
  have hmid : m = s + 1 * (m - s) := by omega
  rw [starts, starts, starts, ← List.filter_append, hsum]
  conv_lhs => rw [show List.range' m (e - m) = List.range' (s + 1 * (m - s)) (e - m) by rw [← hmid]]
  rw [List.range'_append]

theorem starts_skip (s t e : Nat) (hst : s ≤ t) (hno : ∀ q, s ≤ q → q < t → ¬ StartsAt nl text q) :
    starts nl text s e = starts nl text t e := by
  by_cases ht : t ≤ e
  · rw [← starts_append nl text s t e hst ht]
    have hnil : starts nl text s t = [] := by
      apply List.eq_nil_iff_forall_not_mem.mpr
      intro q hq
      obtain ⟨h1, h2, h3⟩ := (mem_starts nl text s t q).mp hq
      exact hno q h1 h2 h3
    rw [hnil, List.nil_append]
  · have hl : starts nl text s e = [] := by
      apply List.eq_nil_iff_forall_not_mem.mpr
      intro q hq
      obtain ⟨h1, h2, h3⟩ := (mem_starts nl text s e q).mp hq
      exact hno q h1 (by omega) h3
    have hr : starts nl text t e = [] := by simp [starts, show e - t = 0 by omega]
    rw [hl, hr]

theorem starts_of_le_start (s e : Nat) (h : e ≤ s) : starts nl text s e = [] := by
  simp [starts, show e - s = 0 by omega]

theorem starts_past_end (s e : Nat) (h : text.length ≤ s) : starts nl text s e = [] := by
  apply List.eq_nil_iff_forall_not_mem.mpr
  intro q hq
  obtain ⟨h1, -, h3⟩ := (mem_starts nl text s e q).mp hq
  have := h3.1
  omega

theorem lineAt_length_le (p : Nat) : (lineAt nl text p).length ≤ text.length - p := by
  have h := (List.takeWhile_prefix (p := (· ≠ nl)) (l := text.drop p)).length_le
  simpa [lineAt] using h

theorem getElem?_inside (p q : Nat) (hp : p ≤ q) (hq : q < p + (lineAt nl text p).length) :
    text[q]? ≠ some nl := by
  have hlt : q - p < (lineAt nl text p).length := by omega
  have hle := lineAt_length_le nl text p
  have hpre : lineAt nl text p <+: text.drop p := List.takeWhile_prefix _
  have hget : text[q]? = (lineAt nl text p)[q - p]? := by
    have h1 := List.IsPrefix.getElem hpre hlt
    rw [List.getElem?_eq_getElem hlt, h1, List.getElem_drop, List.getElem?_eq_getElem (by omega)]
    congr 2
    omega
  intro heq
  rw [hget] at heq
  have hmem : nl ∈ lineAt nl text p := List.mem_of_getElem? heq
  have := List.mem_takeWhile_imp hmem
  simp at this

theorem getElem?_stop (p : Nat) (h : p + (lineAt nl text p).length < text.length) :
    text[p + (lineAt nl text p).length]? = some nl := by
  have hsplit : lineAt nl text p ++ (text.drop p).dropWhile (· ≠ nl) = text.drop p :=
    List.takeWhile_append_dropWhile
  have hlen := congrArg List.length hsplit
  simp only [List.length_append, List.length_drop] at hlen
  have hne : (text.drop p).dropWhile (· ≠ nl) ≠ [] := by
    intro hnil
    rw [hnil, List.length_nil] at hlen
    omega
  have hhead := List.head_dropWhile_not (· ≠ nl) hne
  have hget : text[p + (lineAt nl text p).length]? = ((text.drop p).dropWhile (· ≠ nl)).head? := by
    rw [← List.getElem?_drop, ← hsplit, List.getElem?_append_right (le_refl _), Nat.sub_self,
      List.head?_eq_getElem?, hsplit]
  rw [hget, List.head?_eq_some_head hne]
  simpa using hhead

theorem startsAt_next (p : Nat) (h : p + (lineAt nl text p).length < text.length) :
    StartsAt nl text (p + (lineAt nl text p).length + 1) ∨
      text.length ≤ p + (lineAt nl text p).length + 1 := by
  by_cases hend : text.length ≤ p + (lineAt nl text p).length + 1
  · exact Or.inr hend
  · exact Or.inl ⟨by omega, Or.inr (by simpa using getElem?_stop nl text p h)⟩

theorem starts_skip_rest (s e : Nat) (hs : ¬ StartsAt nl text s) :
    starts nl text s e = starts nl text (s + (lineAt nl text s).length + 1) e := by
  apply starts_skip nl text s _ e (by omega)
  intro q hq hlt hstart
  rcases Nat.eq_or_lt_of_le hq with rfl | hgt
  · exact hs hstart
  · rcases hstart.2 with h0 | hprev
    · omega
    · exact getElem?_inside nl text s (q - 1) (by omega) (by omega) hprev

theorem starts_cons (p e : Nat) (hp : StartsAt nl text p) (he : p < e) :
    starts nl text p e = p :: starts nl text (p + (lineAt nl text p).length + 1) e := by
  have hone : starts nl text p (p + 1) = [p] := by
    simp [starts, List.range'_succ, hp]
  have hrest : starts nl text (p + 1) e = starts nl text (p + (lineAt nl text p).length + 1) e := by
    apply starts_skip nl text _ _ e (by omega)
    intro q hq hlt hstart
    rcases hstart.2 with h0 | hprev
    · omega
    · exact getElem?_inside nl text p (q - 1) (by omega) (by omega) hprev
  rw [← starts_append nl text p (p + 1) e (by omega) (by omega), hone, hrest]
  rfl

/-- **The lines that start in a range**, with their newlines, are no longer than the range and one line more. -/
theorem linesIn_size_le (limit : Nat) (hlimit : ∀ p, StartsAt nl text p → (lineAt nl text p).length ≤ limit)
    (s e : Nat) : ((linesIn nl text s e).map fun line => line.length + 1).sum ≤ (e - s) + limit := by
  induction hn : e - s using Nat.strong_induction_on generalizing s with
  | _ n ih =>
    subst hn
    by_cases hse : s < e
    · by_cases hstart : StartsAt nl text s
      · have hline := hlimit s hstart
        unfold linesIn at ih ⊢
        rw [starts_cons nl text s e hstart hse, List.map_cons, List.map_cons, List.sum_cons]
        by_cases hnext : s + (lineAt nl text s).length + 1 < e
        · have hrest := ih _ (by omega) (s + (lineAt nl text s).length + 1) rfl
          omega
        · rw [starts_of_le_start nl text _ e (by omega), List.map_nil, List.map_nil, List.sum_nil]
          omega
      · unfold linesIn at ih ⊢
        rw [starts_skip_rest nl text s e hstart]
        have hrest := ih _ (by omega) (s + (lineAt nl text s).length + 1) rfl
        omega
    · rw [linesIn, starts_of_le_start nl text s e (by omega), List.map_nil, List.map_nil, List.sum_nil]
      exact Nat.zero_le _

theorem linesIn_one_line (e : Nat) (htext : text ≠ []) (hno : nl ∉ text) (he : 0 < e) :
    linesIn nl text 0 e = [text] := by
  have hline : lineAt nl text 0 = text := by
    unfold lineAt
    rw [List.drop_zero, List.takeWhile_eq_self_iff]
    intro b hb
    simp only [decide_eq_true_eq]
    rintro rfl
    exact hno hb
  have hstart : StartsAt nl text 0 := ⟨List.length_pos_of_ne_nil htext, Or.inl rfl⟩
  unfold linesIn
  rw [starts_cons nl text 0 e hstart he, hline, starts_past_end nl text _ e (by omega)]
  simp only [List.map_cons, List.map_nil, hline]

end LogGrid.Lines
