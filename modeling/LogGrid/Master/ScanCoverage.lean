import LogGrid.Master.DirectoryTree

/-!
# What a scan covers

Every non-empty file that can be reached without a symlink should be cut into
tasks, or an error counted on the way to it. A directory that `is_directory`
fails on and `is_regular_file` then answers `false` for is passed in silence.
-/

open LogGrid.Path LogGrid.Tiling

namespace LogGrid.Master

/-- Whether the iterator fails before the end. -/
def Listing.stopsEarly : Listing → Bool
  | .stop failed => failed
  | .entry _ _ rest => rest.stopsEarly

/-! ## What can be reached -/

mutual

/-- The non-empty regular files that are reached without following a symlink, by their places. -/
def Tree.reach (place : List Name) : Tree → List (List Name × FileSize)
  | .symlink _ _ => []
  | .directory _ entries => entries.reach place
  | .file size _ => if size.val = 0 then [] else [(place, size)]
  | .other => []

def Entries.reach (place : List Name) : Entries → List (List Name × FileSize)
  | .done => []
  | .entry name tree _ _ rest => tree.reach (place ++ [name]) ++ rest.reach place

end

theorem place_unique {place path : List Name} {name other : Name} (h : place ++ [name] <+: path)
    (h' : place ++ [other] <+: path) : name = other := by
  have hprefix := List.prefix_of_prefix_length_le h h' (by simp)
  simpa using hprefix.eq_of_length (by simp)

mutual

theorem Tree.reach_below (place : List Name) (tree : Tree) : ∀ f ∈ tree.reach place, place <+: f.1 := by
  intro f hf
  cases tree with
  | symlink text target => simp [Tree.reach] at hf
  | directory opens entries =>
    rw [Tree.reach] at hf
    obtain ⟨name, -, h⟩ := entries.reach_below place f hf
    exact (List.prefix_append place [name]).trans h
  | file size sizeRead =>
    rw [Tree.reach] at hf
    split at hf
    · simp at hf
    · rw [List.mem_singleton.mp hf]
  | other => simp [Tree.reach] at hf

theorem Entries.reach_below (place : List Name) (entries : Entries) :
    ∀ f ∈ entries.reach place, ∃ name ∈ entries.names, place ++ [name] <+: f.1 := by
  intro f hf
  cases entries with
  | done => simp [Entries.reach] at hf
  | entry name tree calls advances rest =>
    rw [Entries.reach, List.mem_append] at hf
    rw [Entries.names]
    rcases hf with hf | hf
    · exact ⟨name, List.mem_cons_self, tree.reach_below _ f hf⟩
    · obtain ⟨other, hmem, h⟩ := rest.reach_below place f hf
      exact ⟨other, List.mem_cons_of_mem _ hmem, h⟩

end

mutual

theorem Tree.reach_nonempty (place : List Name) (tree : Tree) : ∀ f ∈ tree.reach place, f.2.val ≠ 0 := by
  intro f hf
  cases tree with
  | symlink text target => simp [Tree.reach] at hf
  | directory opens entries =>
    rw [Tree.reach] at hf
    exact entries.reach_nonempty place f hf
  | file size sizeRead =>
    rw [Tree.reach] at hf
    split at hf
    · simp at hf
    · rename_i hsize
      rw [List.mem_singleton.mp hf]
      exact hsize
  | other => simp [Tree.reach] at hf

theorem Entries.reach_nonempty (place : List Name) (entries : Entries) :
    ∀ f ∈ entries.reach place, f.2.val ≠ 0 := by
  intro f hf
  cases entries with
  | done => simp [Entries.reach] at hf
  | entry name tree calls advances rest =>
    rw [Entries.reach, List.mem_append] at hf
    rcases hf with hf | hf
    · exact tree.reach_nonempty _ f hf
    · exact rest.reach_nonempty place f hf

end

theorem Entries.wellFormed_entry {name : Name} {tree : Tree} {calls : EntryCalls} {advances : Bool}
    {rest : Entries} (h : (Entries.entry name tree calls advances rest).wellFormed = true) :
    isEntryName name = true ∧ name ∉ rest.names ∧ tree.wellFormed = true ∧ rest.wellFormed = true := by
  simp only [Entries.wellFormed, Bool.and_eq_true, Bool.not_eq_true', List.contains_eq_mem,
    decide_eq_false_iff_not] at h
  obtain ⟨⟨⟨hname, hnew⟩, htree⟩, hrest⟩ := h
  exact ⟨hname, hnew, htree, hrest⟩

theorem Entries.not_below {place : List Name} {rest : Entries} {name other : Name} (hnew : name ∉ rest.names)
    {path : List Name} (hmem : other ∈ rest.names) (h : place ++ [other] <+: path) :
    ¬ place ++ [name] <+: path := by
  intro h'
  rw [place_unique h' h] at hnew
  exact hnew hmem

mutual

theorem Tree.reach_unique (place : List Name) (tree : Tree) (hwf : tree.wellFormed = true) :
    ∀ f ∈ tree.reach place, ∀ g ∈ tree.reach place, f.1 = g.1 → f = g := by
  intro f hf g hg heq
  cases tree with
  | symlink text target => simp [Tree.reach] at hf
  | directory opens entries =>
    rw [Tree.reach] at hf hg
    rw [Tree.wellFormed] at hwf
    exact entries.reach_unique place hwf f hf g hg heq
  | file size sizeRead =>
    rw [Tree.reach] at hf hg
    split at hf
    · simp at hf
    · rw [if_neg (by assumption)] at hg
      rw [List.mem_singleton.mp hf, List.mem_singleton.mp hg]
  | other => simp [Tree.reach] at hf

theorem Entries.reach_unique (place : List Name) (entries : Entries) (hwf : entries.wellFormed = true) :
    ∀ f ∈ entries.reach place, ∀ g ∈ entries.reach place, f.1 = g.1 → f = g := by
  intro f hf g hg heq
  cases entries with
  | done => simp [Entries.reach] at hf
  | entry name tree calls advances rest =>
    obtain ⟨-, hnew, htree, hrest⟩ := Entries.wellFormed_entry hwf
    rw [Entries.reach, List.mem_append] at hf hg
    rcases hf with hf | hf <;> rcases hg with hg | hg
    · exact tree.reach_unique _ htree f hf g hg heq
    · obtain ⟨other, hmem, h⟩ := rest.reach_below place g hg
      exact absurd (heq ▸ tree.reach_below _ f hf) (Entries.not_below hnew hmem h)
    · obtain ⟨other, hmem, h⟩ := rest.reach_below place f hf
      exact absurd (heq ▸ tree.reach_below _ g hg) (Entries.not_below hnew hmem h)
    · exact rest.reach_unique place hrest f hf g hg heq

end

mutual

theorem Tree.reach_names (place : List Name) (tree : Tree) (hwf : tree.wellFormed = true)
    (hplace : ∀ name ∈ place, isEntryName name = true) :
    ∀ f ∈ tree.reach place, ∀ name ∈ f.1, isEntryName name = true := by
  intro f hf
  cases tree with
  | symlink text target => simp [Tree.reach] at hf
  | directory opens entries =>
    rw [Tree.reach] at hf
    rw [Tree.wellFormed] at hwf
    exact entries.reach_names place hwf hplace f hf
  | file size sizeRead =>
    rw [Tree.reach] at hf
    split at hf
    · simp at hf
    · rw [List.mem_singleton.mp hf]
      exact hplace
  | other => simp [Tree.reach] at hf

theorem Entries.reach_names (place : List Name) (entries : Entries) (hwf : entries.wellFormed = true)
    (hplace : ∀ name ∈ place, isEntryName name = true) :
    ∀ f ∈ entries.reach place, ∀ name ∈ f.1, isEntryName name = true := by
  intro f hf
  cases entries with
  | done => simp [Entries.reach] at hf
  | entry name tree calls advances rest =>
    obtain ⟨hname, -, htree, hrest⟩ := Entries.wellFormed_entry hwf
    rw [Entries.reach, List.mem_append] at hf
    rcases hf with hf | hf
    · refine tree.reach_names _ htree ?_ f hf
      intro name' hmem
      rcases List.mem_append.mp hmem with hmem | hmem
      · exact hplace name' hmem
      · rw [List.mem_singleton.mp hmem]
        exact hname
    · exact rest.reach_names place hrest hplace f hf

end

/-! ## What is found can be reached -/

section

variable (root : Bytes)

theorem searchedFile_reach (place : List Name) (size : FileSize) (sizeRead : Bool) :
    ∀ f ∈ (Node.file (Tree.file size sizeRead).fileSize).found root place,
      f ∈ (Tree.file size sizeRead).reach place := by
  intro f hf
  cases sizeRead with
  | false => simp [Node.found, Tree.fileSize, searchedFile] at hf
  | true =>
    simp only [Node.found, Tree.fileSize, searchedFile] at hf
    split at hf
    · simp at hf
    · rename_i hkept
      rw [Tree.reach, if_neg fun hzero => hkept (Or.inl hzero)]
      simpa using hf

theorem learn_found_reach (place : List Name) (calls : EntryCalls) (tree : Tree)
    (htree : ∀ f ∈ (Node.directory tree.listing).found root place, f ∈ tree.reach place) :
    ∀ f ∈ (learn calls tree tree.listing).found root place, f ∈ tree.reach place := by
  intro f hf
  unfold learn at hf
  split at hf
  · simp [Node.found] at hf
  · split at hf
    · simp [Node.found] at hf
    · split at hf
      · exact htree f hf
      · split at hf
        · simp [Node.found] at hf
        · split at hf
          · cases tree with
            | file size sizeRead => exact searchedFile_reach root place size sizeRead f hf
            | symlink text target => simp [Tree.fileSize, Node.found, searchedFile] at hf
            | directory opens entries => simp [Tree.fileSize, Node.found, searchedFile] at hf
            | other => simp [Tree.fileSize, Node.found, searchedFile] at hf
          · simp [Node.found] at hf

mutual

theorem Tree.found_reach (place : List Name) (tree : Tree) :
    ∀ f ∈ (Node.directory tree.listing).found root place, f ∈ tree.reach place := by
  intro f hf
  cases tree with
  | symlink text target => simp [Tree.listing, Node.found] at hf
  | directory opens entries =>
    cases opens with
    | false => simp [Tree.listing, Node.found] at hf
    | true =>
      simp only [Tree.listing, Node.found, if_true] at hf
      rw [Tree.reach]
      exact entries.found_reach place f hf
  | file size sizeRead => simp [Tree.listing, Node.found] at hf
  | other => simp [Tree.listing, Node.found] at hf

theorem Entries.found_reach (place : List Name) (entries : Entries) :
    ∀ f ∈ entries.listing.found root place, f ∈ entries.reach place := by
  intro f hf
  cases entries with
  | done => simp [Entries.listing, Listing.found] at hf
  | entry name tree calls advances rest =>
    rw [Entries.listing, Listing.found, List.mem_append] at hf
    rw [Entries.reach, List.mem_append]
    rcases hf with hf | hf
    · exact Or.inl (learn_found_reach root _ calls tree (tree.found_reach _) f hf)
    · right
      cases advances with
      | false => simp [Listing.found] at hf
      | true => exact rest.found_reach place f hf

end

/-! ## Where errors are counted -/

mutual

theorem Node.failed_below (place : List Name) (node : Node) : ∀ q ∈ node.failed root place, place <+: q := by
  intro q hq
  cases node with
  | symlink => simp [Node.failed] at hq
  | directory listing =>
    cases listing with
    | none =>
      rw [Node.failed, List.mem_singleton] at hq
      rw [hq]
    | some listing =>
      rw [Node.failed] at hq
      rcases listing.failed_below place q hq with ⟨-, rfl⟩ | ⟨name, -, h⟩
      · exact List.prefix_refl q
      · exact (List.prefix_append place [name]).trans h
  | file size =>
    rw [Node.failed] at hq
    split at hq
    · rw [List.mem_singleton.mp hq]
    · simp at hq
  | other => simp [Node.failed] at hq
  | unexaminable =>
    rw [Node.failed, List.mem_singleton] at hq
    rw [hq]

theorem Listing.failed_below (place : List Name) (listing : Listing) : ∀ q ∈ listing.failed root place,
    listing.stopsEarly = true ∧ q = place ∨ ∃ name ∈ listing.names, place ++ [name] <+: q := by
  intro q hq
  cases listing with
  | stop failed =>
    rw [Listing.failed] at hq
    split at hq
    · rename_i hfailed
      exact Or.inl ⟨hfailed, List.mem_singleton.mp hq⟩
    · simp at hq
  | entry name node rest =>
    rw [Listing.failed, List.mem_append] at hq
    rw [Listing.names, Listing.stopsEarly]
    rcases hq with hq | hq
    · exact Or.inr ⟨name, List.mem_cons_self, node.failed_below _ q hq⟩
    · rcases rest.failed_below place q hq with h | ⟨other, hmem, h⟩
      · exact Or.inl h
      · exact Or.inr ⟨other, List.mem_cons_of_mem _ hmem, h⟩

end

theorem Listing.stopsEarly_failed (place : List Name) (listing : Listing) (h : listing.stopsEarly = true) :
    place ∈ listing.failed root place := by
  cases listing with
  | stop failed =>
    rw [Listing.stopsEarly] at h
    rw [Listing.failed, if_pos h, List.mem_singleton]
  | entry name node rest =>
    rw [Listing.stopsEarly] at h
    rw [Listing.failed, List.mem_append]
    exact Or.inr (rest.stopsEarly_failed place h)

/-! ## What is accounted for -/

/-- Each file of `reach` is found, or an error is counted for it or on the way to it. -/
def Covered (reach found : List (List Name × FileSize)) (failed : List (List Name)) : Prop :=
  ∀ f ∈ reach, f ∈ found ∨ ∃ q ∈ failed, q <+: f.1

theorem covered_of_failed {reach found : List (List Name × FileSize)} {failed : List (List Name)}
    {place : List Name} (hreach : ∀ f ∈ reach, place <+: f.1) (h : place ∈ failed) : Covered reach found failed :=
  fun f hf => Or.inr ⟨place, h, hreach f hf⟩

theorem covered_nothing_iff (reach : List (List Name × FileSize)) : Covered reach [] [] ↔ reach = [] := by
  unfold Covered
  rw [List.eq_nil_iff_forall_not_mem]
  simp

theorem covered_append_iff (region : List Name → Prop)
    {reach₁ found₁ reach₂ found₂ : List (List Name × FileSize)} {failed₁ failed₂ : List (List Name)}
    (hreach₁ : ∀ f ∈ reach₁, region f.1) (hfound₁ : ∀ f ∈ found₁, region f.1)
    (hfailed₁ : ∀ q ∈ failed₁, ∀ p, q <+: p → region p)
    (hreach₂ : ∀ f ∈ reach₂, ¬ region f.1) (hfound₂ : ∀ f ∈ found₂, ¬ region f.1)
    (hfailed₂ : ∀ q ∈ failed₂, ∀ p, q <+: p → ¬ region p) :
    Covered (reach₁ ++ reach₂) (found₁ ++ found₂) (failed₁ ++ failed₂) ↔
      Covered reach₁ found₁ failed₁ ∧ Covered reach₂ found₂ failed₂ := by
  unfold Covered
  constructor
  · intro h
    refine ⟨?_, ?_⟩
    · intro f hf
      rcases h f (List.mem_append_left _ hf) with hfound | ⟨q, hq, hle⟩
      · rcases List.mem_append.mp hfound with hfound | hfound
        · exact Or.inl hfound
        · exact absurd (hreach₁ f hf) (hfound₂ f hfound)
      · rcases List.mem_append.mp hq with hq | hq
        · exact Or.inr ⟨q, hq, hle⟩
        · exact absurd (hreach₁ f hf) (hfailed₂ q hq f.1 hle)
    · intro f hf
      rcases h f (List.mem_append_right _ hf) with hfound | ⟨q, hq, hle⟩
      · rcases List.mem_append.mp hfound with hfound | hfound
        · exact absurd (hfound₁ f hfound) (hreach₂ f hf)
        · exact Or.inl hfound
      · rcases List.mem_append.mp hq with hq | hq
        · exact absurd (hfailed₁ q hq f.1 hle) (hreach₂ f hf)
        · exact Or.inr ⟨q, hq, hle⟩
  · rintro ⟨h₁, h₂⟩ f hf
    rcases List.mem_append.mp hf with hf | hf
    · rcases h₁ f hf with hfound | ⟨q, hq, hle⟩
      · exact Or.inl (List.mem_append_left _ hfound)
      · exact Or.inr ⟨q, List.mem_append_left _ hq, hle⟩
    · rcases h₂ f hf with hfound | ⟨q, hq, hle⟩
      · exact Or.inl (List.mem_append_right _ hfound)
      · exact Or.inr ⟨q, List.mem_append_right _ hq, hle⟩

/-- A directory that passes for a special file: `is_directory` fails, and `is_regular_file` clears the error. -/
def overlooked (calls : EntryCalls) (tree : Tree) : Bool :=
  !tree.isSymlink && tree.isDirectory && calls.isSymlink && !calls.isDirectory && calls.isRegularFile

mutual

/-- No file lies below a directory that is overlooked. Where the listing of a directory stops early, an
error counts for all of it. -/
def Tree.Seen (place : List Name) : Tree → Prop
  | .symlink _ _ => True
  | .directory opens entries => opens = true → entries.listing.stopsEarly = false → entries.Seen place
  | .file _ _ => True
  | .other => True

def Entries.Seen (place : List Name) : Entries → Prop
  | .done => True
  | .entry name tree calls _ rest =>
    (overlooked calls tree = true → tree.reach (place ++ [name]) = []) ∧
      (calls.isSymlink = true → calls.isDirectory = true → tree.Seen (place ++ [name])) ∧ rest.Seen place

end

theorem Entries.listing_names (entries : Entries) : ∀ name ∈ entries.listing.names, name ∈ entries.names := by
  intro name hmem
  cases entries with
  | done => simp [Entries.listing, Listing.names] at hmem
  | entry first tree calls advances rest =>
    rw [Entries.listing, Listing.names, List.mem_cons] at hmem
    rw [Entries.names, List.mem_cons]
    rcases hmem with hmem | hmem
    · exact Or.inl hmem
    · cases advances with
      | false => simp [Listing.names] at hmem
      | true => exact Or.inr (rest.listing_names name hmem)

theorem file_covered (place : List Name) (size : FileSize) (sizeRead : Bool) :
    Covered ((Tree.file size sizeRead).reach place)
      ((Node.file (Tree.file size sizeRead).fileSize).found root place)
      ((Node.file (Tree.file size sizeRead).fileSize).failed root place) := by
  intro f hf
  rw [Tree.reach] at hf
  split at hf
  · simp at hf
  · rename_i hsize
    rw [List.mem_singleton] at hf
    subst hf
    cases sizeRead with
    | false => exact Or.inr ⟨place, by simp [Node.failed, Tree.fileSize, refused], List.prefix_refl place⟩
    | true =>
      by_cases hlong : 256 ≤ (textOf root place).length
      · exact Or.inr ⟨place, by simp [Node.failed, Tree.fileSize, refused, hsize, hlong], List.prefix_refl place⟩
      · exact Or.inl (by simp [Node.found, Tree.fileSize, searchedFile, hsize, hlong])

theorem learn_covered_iff (place : List Name) (calls : EntryCalls) (tree : Tree)
    (htree : Covered (tree.reach place) ((Node.directory tree.listing).found root place)
      ((Node.directory tree.listing).failed root place) ↔ tree.Seen place) :
    Covered (tree.reach place) ((learn calls tree tree.listing).found root place)
        ((learn calls tree tree.listing).failed root place) ↔
      (overlooked calls tree = true → tree.reach place = []) ∧
        (calls.isSymlink = true → calls.isDirectory = true → tree.Seen place) := by
  have hcounted : ∀ found, Covered (tree.reach place) found [place] := fun found =>
    covered_of_failed (tree.reach_below place) (List.mem_singleton_self place)
  obtain ⟨isSymlink, isDirectory, isRegularFile⟩ := calls
  cases isSymlink with
  | false => simpa [learn, overlooked, Node.found, Node.failed] using hcounted []
  | true =>
    cases tree with
    | symlink text target =>
      have hnothing : Covered [] [] [] := (covered_nothing_iff []).mpr rfl
      simpa [learn, overlooked, Tree.isSymlink, Node.found, Node.failed, Tree.reach, Tree.Seen] using hnothing
    | directory opens entries =>
      cases isDirectory with
      | true => simpa [learn, overlooked, Tree.isSymlink, Tree.isDirectory] using htree
      | false =>
        cases isRegularFile with
        | false =>
          simpa [learn, overlooked, Tree.isSymlink, Tree.isDirectory, Node.found, Node.failed] using hcounted []
        | true =>
          have hnothing := covered_nothing_iff ((Tree.directory opens entries).reach place)
          simpa [learn, overlooked, Tree.isSymlink, Tree.isDirectory, Tree.isRegularFile, Node.found,
            Node.failed] using hnothing
    | file size sizeRead =>
      cases isRegularFile with
      | false =>
        simpa [learn, overlooked, Tree.isSymlink, Tree.isDirectory, Tree.Seen, Node.found, Node.failed] using
          hcounted []
      | true =>
        have hfile := file_covered root place size sizeRead
        simpa [learn, overlooked, Tree.isSymlink, Tree.isDirectory, Tree.isRegularFile, Tree.Seen] using hfile
    | other =>
      have hnothing : ∀ failed, Covered [] [] failed := fun failed f hf => absurd hf List.not_mem_nil
      cases isRegularFile with
      | false =>
        simpa [learn, overlooked, Tree.isSymlink, Tree.isDirectory, Tree.Seen, Node.found, Node.failed, Tree.reach]
          using hnothing [place]
      | true =>
        simpa [learn, overlooked, Tree.isSymlink, Tree.isDirectory, Tree.isRegularFile, Tree.Seen, Node.found,
          Node.failed, Tree.reach] using hnothing []

theorem entry_covered_iff (place : List Name) (name : Name) (tree : Tree) (node : Node) (rest : Entries)
    (hnew : name ∉ rest.names) (hfound : ∀ f ∈ node.found root (place ++ [name]), f ∈ tree.reach (place ++ [name]))
    (hstop : rest.listing.stopsEarly = false) :
    Covered (tree.reach (place ++ [name]) ++ rest.reach place)
        (node.found root (place ++ [name]) ++ rest.listing.found root place)
        (node.failed root (place ++ [name]) ++ rest.listing.failed root place) ↔
      Covered (tree.reach (place ++ [name])) (node.found root (place ++ [name]))
        (node.failed root (place ++ [name])) ∧
        Covered (rest.reach place) (rest.listing.found root place) (rest.listing.failed root place) := by
  apply covered_append_iff (place ++ [name] <+: ·)
  · exact tree.reach_below _
  · exact fun f hf => tree.reach_below _ f (hfound f hf)
  · exact fun q hq p hle => (node.failed_below root _ q hq).trans hle
  · intro f hf
    obtain ⟨other, hmem, h⟩ := rest.reach_below place f hf
    exact Entries.not_below hnew hmem h
  · intro f hf
    obtain ⟨other, hmem, h⟩ := rest.reach_below place f (rest.found_reach root place f hf)
    exact Entries.not_below hnew hmem h
  · intro q hq p hle
    rcases rest.listing.failed_below root place q hq with ⟨hstops, -⟩ | ⟨other, hmem, h⟩
    · rw [hstop] at hstops
      cases hstops
    · exact Entries.not_below hnew (rest.listing_names other hmem) (h.trans hle)

mutual

theorem Tree.covered_iff (place : List Name) (tree : Tree) (hwf : tree.wellFormed = true) :
    Covered (tree.reach place) ((Node.directory tree.listing).found root place)
      ((Node.directory tree.listing).failed root place) ↔ tree.Seen place := by
  have hcounted : Covered (tree.reach place) [] [place] :=
    covered_of_failed (tree.reach_below place) (List.mem_singleton_self place)
  cases tree with
  | symlink text target => simpa [Tree.listing, Node.found, Node.failed, Tree.Seen] using hcounted
  | directory opens entries =>
    cases opens with
    | false => simpa [Tree.listing, Node.found, Node.failed, Tree.Seen] using hcounted
    | true =>
      rw [Tree.wellFormed] at hwf
      simpa [Tree.listing, Node.found, Node.failed, Tree.Seen, Tree.reach] using entries.covered_iff place hwf
  | file size sizeRead => simpa [Tree.listing, Node.found, Node.failed, Tree.Seen] using hcounted
  | other => simpa [Tree.listing, Node.found, Node.failed, Tree.Seen] using hcounted

theorem Entries.covered_iff (place : List Name) (entries : Entries) (hwf : entries.wellFormed = true) :
    Covered (entries.reach place) (entries.listing.found root place) (entries.listing.failed root place) ↔
      (entries.listing.stopsEarly = false → entries.Seen place) := by
  cases hstop : entries.listing.stopsEarly with
  | true =>
    refine iff_of_true (covered_of_failed ?_ (entries.listing.stopsEarly_failed root place hstop)) (by simp)
    exact (Tree.directory true entries).reach_below place
  | false =>
    cases entries with
    | done => simp [Entries.reach, Covered, Entries.Seen]
    | entry name tree calls advances rest =>
      obtain ⟨-, hnew, htree, hrest⟩ := Entries.wellFormed_entry hwf
      rw [Entries.listing, Listing.stopsEarly] at hstop
      cases advances with
      | false => simp [Listing.stopsEarly] at hstop
      | true =>
        have hentry := learn_covered_iff root (place ++ [name]) calls tree
          (tree.covered_iff (place ++ [name]) htree)
        have hothers := rest.covered_iff place hrest
        rw [if_pos rfl] at hstop
        rw [Entries.reach, Entries.listing, Listing.found, Listing.failed, if_pos rfl,
          entry_covered_iff root place name tree _ rest hnew
            (learn_found_reach root (place ++ [name]) calls tree (tree.found_reach root (place ++ [name]))) hstop,
          hentry, hothers, Entries.Seen]
        simp [hstop, and_assoc]

end

end

/-! ## Places and paths -/

theorem textOf_cons (root : Bytes) (name : Name) (place : List Name)
    (h : ∀ n ∈ name :: place, isEntryName n = true) :
    textOf root (name :: place) = dirText root ++ name ++ place.flatMap (sep :: ·) := by
  unfold textOf
  rw [List.foldl_cons]
  induction place generalizing root name with
  | nil => simp [append_entryName root name (h name List.mem_cons_self)]
  | cons next place ih =>
    obtain ⟨hname, hplace⟩ := List.forall_mem_cons.mp h
    rw [List.foldl_cons, ih (append root name) next hplace, dirText_append root name hname,
      append_entryName root name hname]
    simp

theorem textOf_under (root : Bytes) (name : Name) (place : List Name)
    (h : ∀ n ∈ name :: place, isEntryName n = true) : Under (dirText root ++ name) (textOf root (name :: place)) :=
  ⟨place.flatMap (sep :: ·), textOf_cons root name place h, head_flatMap_sep place⟩

theorem textOf_cons_ne (root : Bytes) (name : Name) (place : List Name)
    (h : ∀ n ∈ name :: place, isEntryName n = true) : textOf root (name :: place) ≠ root := by
  obtain ⟨below, heq, -⟩ := textOf_under root name place h
  have hname := h name List.mem_cons_self
  simp only [isEntryName, decide_eq_true_eq] at hname
  have hlength := congrArg List.length heq
  have hpos := List.length_pos_iff.mpr hname.1
  have hdir : root.length ≤ (dirText root).length := by
    unfold dirText
    split <;> simp
  intro hroot
  rw [hroot] at hlength
  simp only [List.length_append] at hlength
  omega

theorem textOf_injective (root : Bytes) (place place' : List Name) (h : ∀ n ∈ place, isEntryName n = true)
    (h' : ∀ n ∈ place', isEntryName n = true) (heq : textOf root place = textOf root place') : place = place' := by
  induction place generalizing root place' with
  | nil =>
    cases place' with
    | nil => rfl
    | cons name' place' => exact absurd heq.symm (textOf_cons_ne root name' place' h')
  | cons name place ih =>
    cases place' with
    | nil => exact absurd heq (textOf_cons_ne root name place h)
    | cons name' place' =>
      obtain ⟨hname, hplace⟩ := List.forall_mem_cons.mp h
      obtain ⟨hname', hplace'⟩ := List.forall_mem_cons.mp h'
      have hproper := hname
      have hproper' := hname'
      simp only [isEntryName, decide_eq_true_eq] at hproper hproper'
      have hunder' := textOf_under root name' place' h'
      rw [← heq] at hunder'
      obtain rfl := under_unique (dirText root) _ name name' hproper.2.1 hproper'.2.1
        (textOf_under root name place h) hunder'
      rw [ih (append root name) place' hplace hplace' heq]

mutual

theorem Node.files_eq (root : Bytes) (place : List Name) (node : Node) :
    node.files (textOf root place) = (node.found root place).map fun f => (textOf root f.1, f.2) := by
  cases node with
  | symlink => simp [Node.files, Node.found]
  | directory listing =>
    cases listing with
    | none => simp [Node.files, Node.found]
    | some listing =>
      rw [Node.files, Node.found]
      exact listing.files_eq root place
  | file size =>
    rw [Node.files, Node.found, List.map_map]
    symm
    apply (List.map_congr_left _).trans (List.map_id _)
    intro f hf
    exact Prod.ext (searchedFile_path _ size f hf).symm rfl
  | other => simp [Node.files, Node.found]
  | unexaminable => simp [Node.files, Node.found]

theorem Listing.files_eq (root : Bytes) (place : List Name) (listing : Listing) :
    listing.files (textOf root place) = (listing.found root place).map fun f => (textOf root f.1, f.2) := by
  cases listing with
  | stop failed => simp [Listing.files, Listing.found]
  | entry name node rest =>
    rw [Listing.files, Listing.found, List.map_append, ← node.files_eq, ← rest.files_eq, textOf_concat]

end

mutual

theorem Tree.listing_wellFormed (tree : Tree) (h : tree.wellFormed = true) :
    (Node.directory tree.listing).wellFormed = true := by
  cases tree with
  | symlink text target => simp [Tree.listing, Node.wellFormed]
  | directory opens entries =>
    cases opens with
    | false => simp [Tree.listing, Node.wellFormed]
    | true =>
      rw [Tree.wellFormed] at h
      exact entries.listing_wellFormed h
  | file size sizeRead => simp [Tree.listing, Node.wellFormed]
  | other => simp [Tree.listing, Node.wellFormed]

theorem Entries.listing_wellFormed (entries : Entries) (h : entries.wellFormed = true) :
    entries.listing.wellFormed = true := by
  cases entries with
  | done => rfl
  | entry name tree calls advances rest =>
    obtain ⟨hname, hnew, htree, hrest⟩ := Entries.wellFormed_entry h
    have hnode : (learn calls tree tree.listing).wellFormed = true := by
      unfold learn
      split_ifs
      · rfl
      · rfl
      · exact tree.listing_wellFormed htree
      · rfl
      · rfl
      · rfl
    have hlisting : (if advances then rest.listing else .stop true).wellFormed = true ∧
        name ∉ (if advances then rest.listing else .stop true).names := by
      cases advances with
      | false => exact ⟨rfl, by simp [Listing.names]⟩
      | true => exact ⟨rest.listing_wellFormed hrest, fun hmem => hnew (rest.listing_names name hmem)⟩
    rw [Entries.listing, Listing.wellFormed]
    simp [hname, hnode, hlisting]

end

/-! ## The tasks of one file -/

/-- The tasks among `tasks` that name the file `path`. -/
def tasksOf (tasks : List TaskPayload) (path : Bytes) : List TaskPayload :=
  tasks.filter (·.filename.cStr = path)

/-- The tasks for `path` cut its `size` bytes into chunks of at most `CHUNK_SIZE`. -/
def Tiled (tasks : List TaskPayload) (path : Bytes) (size : FileSize) : Prop :=
  Tiles 0 ((tasksOf tasks path).map range) size.val.toNat ∧
    ∀ t ∈ tasksOf tasks path, t.endOffset.toNat ≤ t.startOffset.toNat + chunkSize.toNat

section

variable (keyword : Bytes) (searchId : Nat) (config : SearchConfig)

theorem tasksOf_eq_nil (files : List (Bytes × FileSize)) (hfit : ∀ f ∈ files, Fits f.1) (path : Bytes)
    (h : path ∉ files.map Prod.fst) : tasksOf (files.flatMap (fileTasks keyword searchId config)) path = [] := by
  unfold tasksOf
  rw [List.filter_eq_nil_iff]
  intro t ht
  obtain ⟨f, hf, ht⟩ := List.mem_flatMap.mp ht
  rw [fileTasks_filename keyword searchId config f (hfit f hf) t ht, decide_eq_true_eq]
  rintro rfl
  exact h (List.mem_map_of_mem hf)

theorem tasksOf_fileTasks (files : List (Bytes × FileSize)) (hnodup : (files.map Prod.fst).Nodup)
    (hfit : ∀ f ∈ files, Fits f.1) (f : Bytes × FileSize) (hf : f ∈ files) :
    tasksOf (files.flatMap (fileTasks keyword searchId config)) f.1 = fileTasks keyword searchId config f := by
  induction files with
  | nil => simp at hf
  | cons first files ih =>
    rw [List.map_cons, List.nodup_cons] at hnodup
    obtain ⟨hfirst, hfits⟩ := List.forall_mem_cons.mp hfit
    unfold tasksOf at ih ⊢
    rw [List.flatMap_cons, List.filter_append]
    rcases List.mem_cons.mp hf with rfl | hf
    · have hothers := tasksOf_eq_nil keyword searchId config files hfits f.1 hnodup.1
      unfold tasksOf at hothers
      rw [hothers, List.append_nil, List.filter_eq_self]
      intro t ht
      rw [fileTasks_filename keyword searchId config f hfirst t ht, decide_eq_true_eq]
    · rw [ih hnodup.2 hfits hf, List.filter_eq_nil_iff.mpr, List.nil_append]
      intro t ht
      rw [fileTasks_filename keyword searchId config first hfirst t ht, decide_eq_true_eq]
      intro heq
      exact hnodup.1 (heq ▸ List.mem_map_of_mem hf)

theorem tiled_of_mem (files : List (Bytes × FileSize)) (hnodup : (files.map Prod.fst).Nodup)
    (hfit : ∀ f ∈ files, Fits f.1) (f : Bytes × FileSize) (hf : f ∈ files) :
    Tiled (files.flatMap (fileTasks keyword searchId config)) f.1 f.2 := by
  unfold Tiled
  rw [tasksOf_fileTasks keyword searchId config files hnodup hfit f hf]
  exact ⟨(fileTasks_spec keyword searchId config f).1, fileTasks_length_le keyword searchId config f⟩

end

/-! ## The whole scan -/

namespace Directory

/-- The non-empty regular files that are reached without following a symlink. -/
def reach (dir : Directory) : List (List Name × FileSize) := (Tree.directory dir.opens dir.entries).reach []

def pathOf (dir : Directory) (place : List Name) : Bytes := textOf dir.path place

/-- No file lies below a directory that is overlooked, except where an error counts for it. -/
def Seen (dir : Directory) : Prop := (Tree.directory dir.opens dir.entries).Seen []

theorem wellFormed (dir : Directory) : (Tree.directory dir.opens dir.entries).wellFormed = true := by
  rw [Tree.wellFormed]
  exact dir.entries_wellFormed

theorem pathOf_unique (dir : Directory) :
    ∀ f ∈ dir.reach, ∀ g ∈ dir.reach, dir.pathOf f.1 = dir.pathOf g.1 → f = g := by
  intro f hf g hg h
  have hnames := Tree.reach_names [] _ dir.wellFormed (by simp)
  exact Tree.reach_unique [] _ dir.wellFormed f hf g hg (textOf_injective dir.path f.1 g.1 (hnames f hf)
    (hnames g hg) h)

def found (dir : Directory) : List (List Name × FileSize) := dir.node.found dir.path []

theorem found_reach (dir : Directory) : ∀ f ∈ dir.found, f ∈ dir.reach := Tree.found_reach dir.path [] _

theorem files_eq (dir : Directory) : dir.node.files dir.path = dir.found.map fun f => (dir.pathOf f.1, f.2) :=
  Node.files_eq dir.path [] dir.node

section

variable (keyword : Bytes) (searchId : Nat) (config : SearchConfig)

def tasks (dir : Directory) : List TaskPayload :=
  (dir.node.files dir.path).flatMap (fileTasks keyword searchId config)

theorem tiled (dir : Directory) (f : List Name × FileSize) (hf : f ∈ dir.found) :
    Tiled (dir.tasks keyword searchId config) (dir.pathOf f.1) f.2 := by
  have hwf := Tree.listing_wellFormed _ dir.wellFormed
  apply tiled_of_mem keyword searchId config (dir.node.files dir.path) (Node.files_nodup dir.path dir.node hwf)
    (Node.files_fit dir.path dir.node hwf dir.path_text) (dir.pathOf f.1, f.2)
  rw [files_eq]
  exact List.mem_map_of_mem hf

theorem tasksOf_unfound (dir : Directory) (f : List Name × FileSize) (hf : f ∈ dir.reach)
    (hunfound : f ∉ dir.found) :
    tasksOf (dir.tasks keyword searchId config) (dir.pathOf f.1) = [] := by
  apply tasksOf_eq_nil keyword searchId config (dir.node.files dir.path)
    (Node.files_fit dir.path dir.node (Tree.listing_wellFormed _ dir.wellFormed) dir.path_text)
  rw [files_eq, List.map_map]
  intro hmem
  obtain ⟨g, hg, heq⟩ := List.mem_map.mp hmem
  rw [dir.pathOf_unique g (dir.found_reach g hg) f hf heq] at hg
  exact hunfound hg

theorem tiled_iff (dir : Directory) (f : List Name × FileSize) (hf : f ∈ dir.reach) :
    Tiled (dir.tasks keyword searchId config) (dir.pathOf f.1) f.2 ↔ f ∈ dir.found := by
  refine ⟨?_, dir.tiled keyword searchId config f⟩
  rintro ⟨htiles, -⟩
  by_contra hunfound
  rw [dir.tasksOf_unfound keyword searchId config f hf hunfound] at htiles
  have hzero : 0 = f.2.val.toNat := htiles
  exact Tree.reach_nonempty [] _ f hf (UInt64.toNat_inj.mp hzero.symm)

/-- **What a scan accounts for.** It ends. Its tasks are of non-empty regular files that are reached without
a symlink, and those of a file cut it into chunks from its first byte to its last. Each such file is cut, or
an error is counted for it or for a directory on the way to it, if and only if no file lies below a directory
that is overlooked. -/
theorem scan_covers_iff (dir : Directory) (s : ScanState) :
    ∃ s' tasks, dir.scan keyword searchId config s = .ok s' ∧ s'.outTasks = s.outTasks ++ tasks ∧
      s'.scanErrors = s.scanErrors + UInt64.ofNat s'.failures.length ∧
      (∀ t ∈ tasks, ∃ f ∈ dir.reach, t.filename.cStr = dir.pathOf f.1) ∧
      (∀ f ∈ dir.reach, tasksOf tasks (dir.pathOf f.1) = [] ∨ Tiled tasks (dir.pathOf f.1) f.2) ∧
      (∀ f ∈ dir.reach, ∀ g ∈ dir.reach, dir.pathOf f.1 = dir.pathOf g.1 → f = g) ∧
      ((∀ f ∈ dir.reach, Tiled tasks (dir.pathOf f.1) f.2 ∨ ∃ place ∈ s'.failures, place <+: f.1) ↔ dir.Seen) ∧
      (dir.Seen → s'.failures.length < 2 ^ 64 → s'.scanErrors = s.scanErrors →
        ∀ f ∈ dir.reach, Tiled tasks (dir.pathOf f.1) f.2) := by
  obtain ⟨s', hs, htasks, hfailures, herrors⟩ := Tree.scan_reads dir.path keyword searchId config []
    (.directory dir.opens dir.entries) { toScanState := s }
  rw [List.nil_append] at hfailures
  rw [← hfailures] at herrors
  have hadded : s'.outTasks = s.outTasks ++ dir.tasks keyword searchId config := by
    rw [htasks, tasks, files_eq, List.flatMap_map]
    rfl
  have hiff : (∀ f ∈ dir.reach, Tiled (dir.tasks keyword searchId config) (dir.pathOf f.1) f.2 ∨
      ∃ place ∈ s'.failures, place <+: f.1) ↔ dir.Seen := by
    rw [Seen, ← Tree.covered_iff dir.path [] _ dir.wellFormed, ← hfailures]
    exact forall₂_congr fun f hf => or_congr_left (dir.tiled_iff keyword searchId config f hf)
  refine ⟨s', dir.tasks keyword searchId config, hs, hadded, herrors, ?_, ?_, dir.pathOf_unique, hiff, ?_⟩
  · intro t ht
    obtain ⟨f, hf, ht⟩ := List.mem_flatMap.mp ht
    have hfit := Node.files_fit dir.path dir.node (Tree.listing_wellFormed _ dir.wellFormed) dir.path_text f hf
    rw [files_eq] at hf
    obtain ⟨g, hg, rfl⟩ := List.mem_map.mp hf
    exact ⟨g, dir.found_reach g hg, fileTasks_filename keyword searchId config _ hfit t ht⟩
  · intro f hf
    by_cases hfound : f ∈ dir.found
    · exact Or.inr (dir.tiled keyword searchId config f hfound)
    · exact Or.inl (dir.tasksOf_unfound keyword searchId config f hf hfound)
  · intro hseen hfew hnone f hf
    have hnil : s'.failures = [] := by
      rw [herrors, UInt64.add_eq_left, ← UInt64.toNat_inj, UInt64.toNat_ofNat', UInt64.toNat_zero,
        Nat.mod_eq_of_lt hfew] at hnone
      exact List.eq_nil_of_length_eq_zero hnone
    rcases hiff.mpr hseen f hf with h | ⟨place, hplace, -⟩
    · exact h
    · rw [hnil] at hplace
      exact absurd hplace List.not_mem_nil

end

end Directory

def oneByte : FileSize := ⟨1, by decide⟩

/-- A file of one byte below a directory that `is_directory` fails on. -/
def lostDirectory : Directory where
  path := ascii "/app/data"
  entries := .entry (ascii "logs")
    (.directory true (.entry (ascii "a.log") (.file oneByte true) {} true .done))
    { isDirectory := false } true .done
  path_text := by decide
  entries_wellFormed := by decide

/-- Nothing is searched, and no error is counted. -/
theorem lost_directory_passed : ∃ s', lostDirectory.scan (ascii "ERROR") 1 {} {} = .ok s' ∧
    s'.scanErrors = 0 ∧ lostDirectory.reach ≠ [] ∧
    ¬ ∀ f ∈ lostDirectory.reach, Tiled s'.outTasks (lostDirectory.pathOf f.1) f.2 ∨
      ∃ place ∈ s'.failures, place <+: f.1 := by
  refine ⟨{}, rfl, rfl, by simp [Directory.reach, lostDirectory, Tree.reach, Entries.reach, oneByte], ?_⟩
  intro h
  have hmem : ([ascii "logs", ascii "a.log"], oneByte) ∈ lostDirectory.reach := by
    simp [Directory.reach, lostDirectory, Tree.reach, Entries.reach, oneByte]
  rcases h _ hmem with ⟨htiles, -⟩ | ⟨place, hplace, -⟩
  · cases htiles
  · cases hplace

end LogGrid.Master
