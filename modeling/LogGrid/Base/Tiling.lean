import Mathlib.Data.List.Nodup

/-!
# Tilings of a range

A list of intervals `[a, b)` that cover `[lo, hi)` from left to right without a
gap or an overlap.
-/

namespace LogGrid.Tiling

/-- The intervals are non-empty, each begins where the one before it ends, and together they are `[lo, hi)`. -/
def Tiles (lo : Nat) : List (Nat × Nat) → Nat → Prop
  | [], hi => lo = hi
  | (a, b) :: rest, hi => a = lo ∧ lo < b ∧ Tiles b rest hi

theorem Tiles.le {lo hi : Nat} {l : List (Nat × Nat)} (h : Tiles lo l hi) : lo ≤ hi := by
  induction l generalizing lo with
  | nil => exact Nat.le_of_eq h
  | cons i rest ih =>
    obtain ⟨a, b⟩ := i
    obtain ⟨-, hlt, hrest⟩ := h
    exact Nat.le_trans (Nat.le_of_lt hlt) (ih hrest)

theorem Tiles.append {lo mid hi : Nat} {l₁ l₂ : List (Nat × Nat)} (h₁ : Tiles lo l₁ mid)
    (h₂ : Tiles mid l₂ hi) : Tiles lo (l₁ ++ l₂) hi := by
  induction l₁ generalizing lo with
  | nil => rw [Tiles] at h₁; rw [h₁]; exact h₂
  | cons i rest ih =>
    obtain ⟨a, b⟩ := i
    obtain ⟨ha, hlt, hrest⟩ := h₁
    exact ⟨ha, hlt, ih hrest⟩

theorem Tiles.mem_bounds {lo hi : Nat} {l : List (Nat × Nat)} (h : Tiles lo l hi) {i : Nat × Nat}
    (hi' : i ∈ l) : lo ≤ i.1 ∧ i.1 < i.2 ∧ i.2 ≤ hi := by
  induction l generalizing lo with
  | nil => simp at hi'
  | cons j rest ih =>
    obtain ⟨a, b⟩ := j
    obtain ⟨rfl, hlt, hrest⟩ := h
    rcases List.mem_cons.mp hi' with rfl | hmem
    · exact ⟨Nat.le_refl _, hlt, hrest.le⟩
    · obtain ⟨h1, h2, h3⟩ := ih hrest hmem
      exact ⟨by omega, h2, h3⟩

theorem Tiles.nodup {lo hi : Nat} {l : List (Nat × Nat)} (h : Tiles lo l hi) : l.Nodup := by
  induction l generalizing lo with
  | nil => exact List.nodup_nil
  | cons j rest ih =>
    obtain ⟨a, b⟩ := j
    obtain ⟨rfl, hlt, hrest⟩ := h
    refine List.nodup_cons.mpr ⟨?_, ih hrest⟩
    intro hmem
    have := (hrest.mem_bounds hmem).1
    simp only at this
    omega

def hits (x : Nat) (l : List (Nat × Nat)) : Nat := l.countP fun i => i.1 ≤ x ∧ x < i.2

theorem Tiles.hits_outside {lo hi : Nat} {l : List (Nat × Nat)} (h : Tiles lo l hi) {x : Nat}
    (hx : x < lo ∨ hi ≤ x) : hits x l = 0 := by
  rw [hits, List.countP_eq_zero]
  intro i hmem
  obtain ⟨h1, -, h3⟩ := h.mem_bounds hmem
  simp only [decide_eq_true_eq]
  omega

theorem Tiles.hits_inside {lo hi : Nat} {l : List (Nat × Nat)} (h : Tiles lo l hi) {x : Nat}
    (hlo : lo ≤ x) (hhi : x < hi) : hits x l = 1 := by
  induction l generalizing lo with
  | nil => rw [Tiles] at h; omega
  | cons j rest ih =>
    obtain ⟨a, b⟩ := j
    obtain ⟨rfl, hlt, hrest⟩ := h
    rw [hits, List.countP_cons, ← hits]
    by_cases hx : x < b
    · rw [hrest.hits_outside (Or.inl hx)]
      simp [hlo, hx]
    · rw [ih hrest (by omega)]
      simp [hx]

theorem Tiles.flatMap_eq {β : Type} (f : Nat → Nat → List β) (hnil : ∀ a, f a a = [])
    (hadd : ∀ a b c, a ≤ b → b ≤ c → f a b ++ f b c = f a c) {lo hi : Nat} {l : List (Nat × Nat)}
    (h : Tiles lo l hi) : l.flatMap (fun i => f i.1 i.2) = f lo hi := by
  induction l generalizing lo with
  | nil => rw [Tiles] at h; rw [← h, hnil]; rfl
  | cons j rest ih =>
    obtain ⟨a, b⟩ := j
    obtain ⟨rfl, hlt, hrest⟩ := h
    rw [List.flatMap_cons, ih hrest]
    exact hadd _ _ _ (Nat.le_of_lt hlt) hrest.le

/-! ## Pieces of equal size -/

/-- `[lo, hi)` cut into pieces of `size`; the last one is the rest. -/
def pieces (size lo hi : Nat) : List (Nat × Nat) :=
  (List.range ((hi - lo + (size - 1)) / size)).map fun i => (lo + i * size, min (lo + (i + 1) * size) hi)

theorem pieces_length (size lo hi : Nat) : (pieces size lo hi).length = (hi - lo + (size - 1)) / size := by
  unfold pieces
  rw [List.length_map, List.length_range]

theorem pieces_of_le (size lo hi : Nat) (hsize : 0 < size) (h : hi ≤ lo) : pieces size lo hi = [] := by
  unfold pieces
  rw [Nat.sub_eq_zero_of_le h, Nat.zero_add, Nat.div_eq_of_lt (by omega), List.range_zero, List.map_nil]

theorem pieces_cons (size lo hi : Nat) (hsize : 0 < size) (h : lo < hi) :
    pieces size lo hi = (lo, min (lo + size) hi) :: pieces size (lo + size) hi := by
  have hcount : (hi - lo + (size - 1)) / size = (hi - (lo + size) + (size - 1)) / size + 1 := by
    rcases Nat.lt_or_ge hi (lo + size) with hlast | hmore
    · -- The last piece is the rest.
      rw [Nat.sub_eq_zero_of_le (Nat.le_of_lt hlast), Nat.zero_add, Nat.div_eq_of_lt (by omega : size - 1 < size)]
      apply Nat.div_eq_of_lt_le <;> omega
    · have hsplit : hi - lo + (size - 1) = hi - (lo + size) + (size - 1) + size := by omega
      rw [hsplit, Nat.add_div_right _ hsize]
  unfold pieces
  rw [hcount, List.range_succ_eq_map, List.map_cons, List.map_map]
  congr 1
  · simp
  · apply List.map_congr_left
    intro i _
    simp only [Function.comp_apply, Nat.succ_eq_add_one, Nat.add_mul, Nat.one_mul, Prod.mk.injEq]
    constructor
    · omega
    · congr 1
      omega

theorem pieces_le (size lo hi : Nat) : ∀ r ∈ pieces size lo hi, r.2 ≤ r.1 + size := by
  intro r hr
  obtain ⟨i, -, rfl⟩ := List.mem_map.mp hr
  simp only [Nat.add_mul, Nat.one_mul]
  omega

theorem pieces_tiles (size lo hi : Nat) (hsize : 0 < size) (h : lo ≤ hi) : Tiles lo (pieces size lo hi) hi := by
  induction hrest : hi - lo using Nat.strongRecOn generalizing lo with
  | ind n ih =>
    subst hrest
    rcases Nat.eq_or_lt_of_le h with rfl | hlt
    · rw [pieces_of_le size lo lo hsize (Nat.le_refl _)]
      rfl
    · rw [pieces_cons size lo hi hsize hlt]
      refine ⟨rfl, by omega, ?_⟩
      rcases Nat.le_total (lo + size) hi with hle | hle
      · rw [Nat.min_eq_left hle]
        exact ih _ (by omega) _ hle rfl
      · rw [Nat.min_eq_right hle, pieces_of_le size _ hi hsize hle]
        rfl

end LogGrid.Tiling
