import Mathlib.Data.List.AList

/-!
# Maps of maps

An `unordered_map` of `unordered_map`s, and the bag of what it holds: each
operation takes something out of the bag or puts something in.
-/

open List

namespace LogGrid

theorem AList.entries_perm_of_lookup {κ : Type} [DecidableEq κ] {β : κ → Type} (m : AList β) (k : κ) (b : β k)
    (h : m.lookup k = some b) : m.entries ~ ⟨k, b⟩ :: (m.erase k).entries := by
  have hk : k ∈ m.entries.keys := dlookup_isSome.mp (by rw [← AList.lookup, h]; rfl)
  obtain ⟨b', front, back, -, hm, herase⟩ := exists_of_kerase hk
  have hb : b' = b := by
    have : (⟨k, b'⟩ : Sigma β) ∈ m.entries := by rw [hm]; simp
    have hlookup := (mem_dlookup_iff m.nodupKeys).mpr this
    rw [Option.mem_def, ← AList.lookup, h] at hlookup
    exact (Option.some.inj hlookup).symm
  subst hb
  show m.entries ~ ⟨k, b'⟩ :: kerase k m.entries
  rw [herase, hm]
  exact perm_middle

abbrev TwoLevel (κ ι α : Type) := AList fun _ : κ => AList fun _ : ι => α

namespace TwoLevel

variable {κ ι α : Type}

def items (m : TwoLevel κ ι α) : List (κ × ι × α) :=
  m.entries.flatMap fun e => e.2.entries.map fun f => (e.1, f.1, f.2)

@[simp] theorem items_empty : items (∅ : TwoLevel κ ι α) = [] := rfl

/-! ## Rows -/

variable [DecidableEq κ]

/-- `m[k]`, with a missing row empty. -/
def row (m : TwoLevel κ ι α) (k : κ) : AList fun _ : ι => α := (m.lookup k).getD ∅

def setRow (m : TwoLevel κ ι α) (k : κ) (r : AList fun _ : ι => α) : TwoLevel κ ι α := m.insert k r

def dropRow (m : TwoLevel κ ι α) (k : κ) : TwoLevel κ ι α := m.erase k

def rowItems (m : TwoLevel κ ι α) (k : κ) : List (κ × ι × α) :=
  (m.row k).entries.map fun f => (k, f.1, f.2)

@[simp] theorem row_setRow_self (m : TwoLevel κ ι α) (k : κ) (r : AList fun _ : ι => α) :
    (m.setRow k r).row k = r := by simp [row, setRow]

theorem row_setRow_ne (m : TwoLevel κ ι α) (k k' : κ) (r : AList fun _ : ι => α) (h : k' ≠ k) :
    (m.setRow k r).row k' = m.row k' := by simp [row, setRow, AList.lookup_insert_ne h]

@[simp] theorem row_dropRow_self (m : TwoLevel κ ι α) (k : κ) : (m.dropRow k).row k = ∅ := by
  simp [row, dropRow]

theorem row_dropRow_ne (m : TwoLevel κ ι α) (k k' : κ) (h : k' ≠ k) :
    (m.dropRow k).row k' = m.row k' := by
  simp [row, dropRow, AList.lookup_erase_ne h]

theorem items_setRow (m : TwoLevel κ ι α) (k : κ) (r : AList fun _ : ι => α) :
    (m.setRow k r).items = r.entries.map (fun f => (k, f.1, f.2)) ++ (m.dropRow k).items := rfl

theorem items_perm_dropRow (m : TwoLevel κ ι α) (k : κ) :
    m.items ~ m.rowItems k ++ (m.dropRow k).items := by
  unfold rowItems row dropRow
  cases h : m.lookup k with
  | none =>
    have hk : k ∉ m.entries.keys := by rw [← dlookup_eq_none]; exact h
    have herase : m.erase k = m := AList.ext (kerase_of_notMem_keys hk)
    rw [herase]
    exact Perm.refl _
  | some r =>
    have := (AList.entries_perm_of_lookup m k r h).flatMap_right
      fun e => e.2.entries.map fun f => (e.1, f.1, f.2)
    simpa [items] using this

theorem mem_dropRow (m : TwoLevel κ ι α) (k k' : κ) : k' ∈ m.dropRow k ↔ k' ≠ k ∧ k' ∈ m := AList.mem_erase

def Trim (m : TwoLevel κ ι α) : Prop := ∀ k r, m.lookup k = some r → r.entries ≠ []

theorem Trim.setRow {m : TwoLevel κ ι α} (h : m.Trim) (k : κ) (r : AList fun _ : ι => α) (hr : r.entries ≠ []) :
    (m.setRow k r).Trim := by
  intro k' r' hlookup
  unfold TwoLevel.setRow at hlookup
  by_cases hk : k' = k
  · subst hk
    rw [AList.lookup_insert, Option.some.injEq] at hlookup
    exact hlookup ▸ hr
  · rw [AList.lookup_insert_ne hk] at hlookup
    exact h k' r' hlookup

theorem Trim.dropRow {m : TwoLevel κ ι α} (h : m.Trim) (k : κ) : (m.dropRow k).Trim := by
  intro k' r' hlookup
  unfold TwoLevel.dropRow at hlookup
  by_cases hk : k' = k
  · subst hk
    rw [AList.lookup_erase] at hlookup
    cases hlookup
  · rw [AList.lookup_erase_ne hk] at hlookup
    exact h k' r' hlookup

/-! ## Single items -/

variable [DecidableEq ι]

def find (m : TwoLevel κ ι α) (k : κ) (i : ι) : Option α := (m.row k).lookup i

def put (m : TwoLevel κ ι α) (k : κ) (i : ι) (a : α) : TwoLevel κ ι α :=
  m.setRow k ((m.row k).insert i a)

/-- `m[k].erase(i)`, and the row itself when that leaves it empty. -/
def remove (m : TwoLevel κ ι α) (k : κ) (i : ι) : TwoLevel κ ι α :=
  if ((m.row k).erase i).entries = [] then m.dropRow k else m.setRow k ((m.row k).erase i)

theorem items_put (m : TwoLevel κ ι α) (k : κ) (i : ι) (a : α) (hnew : m.find k i = none) :
    (m.put k i a).items ~ (k, i, a) :: m.items := by
  have hrow : ((m.row k).insert i a).entries = ⟨i, a⟩ :: (m.row k).entries :=
    AList.entries_insert_of_notMem (AList.lookup_eq_none.mp hnew)
  rw [put, items_setRow, hrow, map_cons, cons_append]
  exact (m.items_perm_dropRow k).symm.cons _

theorem items_remove (m : TwoLevel κ ι α) (k : κ) (i : ι) (a : α) (h : m.find k i = some a) :
    m.items ~ (k, i, a) :: (m.remove k i).items := by
  have hrow := (AList.entries_perm_of_lookup (m.row k) i a h).map fun f => (k, f.1, f.2)
  have hleft : (m.remove k i).items =
      ((m.row k).erase i).entries.map (fun f => (k, f.1, f.2)) ++ (m.dropRow k).items := by
    unfold remove
    split
    · rename_i hempty; simp [hempty]
    · exact items_setRow m k _
  rw [hleft, ← cons_append]
  exact (m.items_perm_dropRow k).trans (hrow.append_right _)

theorem row_put_self (m : TwoLevel κ ι α) (k : κ) (i : ι) (a : α) :
    (m.put k i a).row k = (m.row k).insert i a := row_setRow_self _ _ _

theorem row_put_ne (m : TwoLevel κ ι α) (k k' : κ) (i : ι) (a : α) (h : k' ≠ k) :
    (m.put k i a).row k' = m.row k' := row_setRow_ne _ _ _ _ h

theorem row_remove_self (m : TwoLevel κ ι α) (k : κ) (i : ι) :
    (m.remove k i).row k = (m.row k).erase i := by
  unfold remove
  split
  · rename_i hempty
    rw [row_dropRow_self]
    exact AList.ext hempty.symm
  · exact row_setRow_self _ _ _

theorem row_remove_ne (m : TwoLevel κ ι α) (k k' : κ) (i : ι) (h : k' ≠ k) :
    (m.remove k i).row k' = m.row k' := by
  unfold remove
  split
  · exact row_dropRow_ne _ _ _ h
  · exact row_setRow_ne _ _ _ _ h

theorem find_remove_self (m : TwoLevel κ ι α) (k : κ) (i : ι) : (m.remove k i).find k i = none := by
  rw [find, row_remove_self, AList.lookup_erase]

theorem find_of_remove (m : TwoLevel κ ι α) (k k' : κ) (i i' : ι) (a : α)
    (h : (m.remove k i).find k' i' = some a) : m.find k' i' = some a ∧ ¬ (k' = k ∧ i' = i) := by
  have hne : ¬ (k' = k ∧ i' = i) := by
    rintro ⟨rfl, rfl⟩
    rw [find_remove_self] at h
    cases h
  refine ⟨?_, hne⟩
  by_cases hk : k' = k
  · subst hk
    rw [find, row_remove_self, AList.lookup_erase_ne fun hi => hne ⟨rfl, hi⟩] at h
    exact h
  · rw [find, row_remove_ne m k k' i hk] at h
    exact h

theorem find_of_put (m : TwoLevel κ ι α) (k k' : κ) (i i' : ι) (a a' : α)
    (h : (m.put k i a).find k' i' = some a') : m.find k' i' = some a' ∨ k' = k := by
  by_cases hk : k' = k
  · exact Or.inr hk
  · rw [find, row_put_ne m k k' i a hk] at h
    exact Or.inl h

theorem mem_row_iff (m : TwoLevel κ ι α) (k : κ) (i : ι) (a : α) :
    (⟨i, a⟩ : Sigma fun _ : ι => α) ∈ (m.row k).entries ↔ m.find k i = some a := by
  rw [find, AList.lookup, ← mem_dlookup_iff (m.row k).nodupKeys, Option.mem_def]

theorem mem_items_iff (m : TwoLevel κ ι α) (k : κ) (i : ι) (a : α) :
    (k, i, a) ∈ m.items ↔ m.find k i = some a := by
  rw [(m.items_perm_dropRow k).mem_iff, mem_append, ← mem_row_iff]
  constructor
  · rintro (h | h)
    · obtain ⟨f, hf, he⟩ := mem_map.mp h
      cases he
      exact hf
    · -- No other row has the key.
      obtain ⟨e, he, hf⟩ := mem_flatMap.mp h
      obtain ⟨f, -, hkey⟩ := mem_map.mp hf
      cases hkey
      exact absurd (mem_keys_of_mem he) (notMem_keys_kerase _ m.nodupKeys)
  · intro h
    exact Or.inl (mem_map.mpr ⟨_, h, rfl⟩)

/-! ## Keys -/

theorem mem_put (m : TwoLevel κ ι α) (k k' : κ) (i : ι) (a : α) : k' ∈ m.put k i a ↔ k' = k ∨ k' ∈ m :=
  AList.mem_insert _

theorem mem_of_find (m : TwoLevel κ ι α) (k : κ) (i : ι) (a : α) (h : m.find k i = some a) : k ∈ m := by
  by_contra hnot
  rw [find, row, AList.lookup_eq_none.mpr hnot] at h
  cases h

theorem mem_of_remove (m : TwoLevel κ ι α) (k k' : κ) (i : ι) (hk : k ∈ m) (h : k' ∈ m.remove k i) : k' ∈ m := by
  unfold remove at h
  split at h
  · exact ((m.mem_dropRow k k').mp h).2
  · rcases (AList.mem_insert _).mp h with rfl | h
    · exact hk
    · exact h

theorem Trim.put {m : TwoLevel κ ι α} (h : m.Trim) (k : κ) (i : ι) (a : α) : (m.put k i a).Trim :=
  h.setRow k _ (cons_ne_nil _ _)

theorem Trim.remove {m : TwoLevel κ ι α} (h : m.Trim) (k : κ) (i : ι) : (m.remove k i).Trim := by
  unfold TwoLevel.remove
  split
  · exact h.dropRow k
  · rename_i hsome
    exact h.setRow k _ hsome

end TwoLevel

end LogGrid
