import Mathlib.Data.List.Infix
import Mathlib.Data.List.DropRight

/-!
# Path names

`std::filesystem::path` on POSIX: splitting at `/`, joining, and the lexical
normal form. The string order of two normal paths says less than the order of
their names, and `render_isPrefix` says how much less.
-/

namespace LogGrid.Path

abbrev Name := List UInt8

def sep : UInt8 := 47
def dot : Name := [46]
def dotdot : Name := [46, 46]

def segments (p : List UInt8) : List Name := p.splitOn sep

/-- The names of a path, without the root and the empty name after a last separator. -/
def filenames (p : List UInt8) : List Name := (segments p).filter (· ≠ [])

def isAbsolute (p : List UInt8) : Bool := p.head? == some sep

def append (p q : List UInt8) : List UInt8 :=
  if isAbsolute q then q
  else if p = [] ∨ p.getLast? = some sep then p ++ q
  else p ++ sep :: q

/-- One more name on the way from the root, or from the current directory, to the end of a path. -/
def enter (root : Bool) (kept : List Name) (name : Name) : List Name :=
  if name = [] ∨ name = dot then kept
  else if name = dotdot then
    match kept.getLast? with
    | none => if root then [] else [dotdot]
    | some top => if top = dotdot then kept ++ [dotdot] else kept.dropLast
  else kept ++ [name]

/-- Where `p` leads from `kept`. -/
def resolve (root : Bool) (kept : List Name) (p : List UInt8) : List Name :=
  (segments p).foldl (enter root) kept

def lexicallyNormal (p : List UInt8) : List UInt8 :=
  if p = [] then []
  else
    let root := isAbsolute p
    let names := resolve root [] p
    let last := (segments p).getLast?
    let trailing := (last = some [] ∨ last = some dot ∨ last = some dotdot) ∧
      names ≠ [] ∧ names.getLast? ≠ some dotdot
    let normal := (if root then [sep] else []) ++ [sep].intercalate names ++
      (if trailing then [sep] else [])
    if normal = [] then dot else normal

/-- `parent_path()` of a normal path. -/
def parentPath (p : List UInt8) : List UInt8 :=
  let dir := (p.rdropWhile (· ≠ sep)).rdropWhile (· = sep)
  if dir = [] ∧ isAbsolute p then [sep] else dir

/-! ## Absolute paths from their names -/

def Proper (name : Name) : Prop := name ≠ [] ∧ name ≠ dot ∧ name ≠ dotdot ∧ sep ∉ name

instance (name : Name) : Decidable (Proper name) :=
  inferInstanceAs (Decidable (name ≠ [] ∧ name ≠ dot ∧ name ≠ dotdot ∧ sep ∉ name))

def render (names : List Name) : List UInt8 := sep :: [sep].intercalate names

theorem render_eq_flatMap (names : List Name) (hne : names ≠ []) :
    render names = names.flatMap (sep :: ·) := by
  unfold render
  induction names with
  | nil => exact absurd rfl hne
  | cons name names ih =>
    cases names with
    | nil => simp
    | cons next names =>
      rw [List.intercalate_cons_cons, List.flatMap_cons, ← ih (List.cons_ne_nil _ _)]
      simp

theorem isAbsolute_render (names : List Name) : isAbsolute (render names) = true := rfl

theorem segments_cons_sep (p : List UInt8) : segments (sep :: p) = [] :: segments p := by
  unfold segments
  have hfront : sep ∉ ([] : List UInt8) := List.not_mem_nil
  exact List.splitOn_append_cons_self_of_not_mem hfront p

theorem segments_append_sep (p q : List UInt8) :
    segments (p ++ sep :: q) = segments p ++ segments q :=
  List.splitOn_append_cons_self p q

theorem not_mem_of_mem_segments (p : List UInt8) (name : Name) (h : name ∈ segments p) : sep ∉ name := by
  unfold segments at h
  induction p generalizing name with
  | nil => simp_all
  | cons b p ih =>
    rw [List.splitOn_cons_eq_if_modifyHead] at h
    split at h
    · rcases List.mem_cons.mp h with rfl | h
      · exact List.not_mem_nil
      · exact ih name h
    · rename_i hb
      obtain ⟨first, rest, hsplit⟩ := List.exists_cons_of_ne_nil (List.splitOn_ne_nil sep p)
      rw [hsplit, List.modifyHead_cons] at h
      rcases List.mem_cons.mp h with rfl | h
      · have := ih first (by rw [hsplit]; exact List.mem_cons_self)
        simp only [List.mem_cons, not_or]
        exact ⟨fun he => hb (by simp [he]), this⟩
      · exact ih name (by rw [hsplit]; exact List.mem_cons_of_mem _ h)

theorem segments_render (names : List Name) (hproper : ∀ name ∈ names, Proper name) (hne : names ≠ []) :
    segments (render names) = [] :: names := by
  rw [render, segments_cons_sep, segments,
    List.splitOn_intercalate sep (fun name h => (hproper name h).2.2.2) hne]

theorem filenames_render (names : List Name) (hproper : ∀ name ∈ names, Proper name) :
    filenames (render names) = names := by
  unfold filenames
  by_cases hne : names = []
  · subst hne; rfl
  · rw [segments_render names hproper hne, List.filter_cons_of_neg (by simp), List.filter_eq_self]
    intro name h
    simpa using (hproper name h).1

/-! ## Following a path -/

theorem enter_proper (kept : List Name) (name : Name) (hkept : ∀ n ∈ kept, Proper n)
    (hname : sep ∉ name) : ∀ n ∈ enter true kept name, Proper n := by
  unfold enter
  intro n hn
  split at hn
  · exact hkept n hn
  · rename_i hplain
    split at hn
    · cases hlast : kept.getLast? with
      | none => simp [hlast] at hn
      | some top =>
        -- A proper name is never `..`, so the last name goes.
        have htop := (hkept top (List.mem_of_getLast? hlast)).2.2.1
        simp only [hlast, if_neg htop] at hn
        exact hkept n (List.mem_of_mem_dropLast hn)
    · rename_i hdots
      rcases List.mem_append.mp hn with hn | hn
      · exact hkept n hn
      · obtain rfl := List.mem_singleton.mp hn
        exact ⟨fun h => hplain (Or.inl h), fun h => hplain (Or.inr h), hdots, hname⟩

theorem resolve_proper (kept : List Name) (p : List UInt8) (hkept : ∀ n ∈ kept, Proper n) :
    ∀ n ∈ resolve true kept p, Proper n := by
  unfold resolve
  have hsegments := not_mem_of_mem_segments p
  generalize segments p = names at hsegments
  induction names generalizing kept with
  | nil => exact hkept
  | cons name names ih =>
    obtain ⟨hname, hnames⟩ := List.forall_mem_cons.mp hsegments
    exact ih (enter true kept name) (enter_proper kept name hkept hname) hnames

theorem enter_of_proper (root : Bool) (kept : List Name) (name : Name) (h : Proper name) :
    enter root kept name = kept ++ [name] := by
  obtain ⟨hne, hdot, hdots, -⟩ := h
  simp [enter, hne, hdot, hdots]

theorem foldl_enter_proper (root : Bool) (kept names : List Name) (h : ∀ n ∈ names, Proper n) :
    names.foldl (enter root) kept = kept ++ names := by
  induction names generalizing kept with
  | nil => simp
  | cons name names ih =>
    obtain ⟨hname, hnames⟩ := List.forall_mem_cons.mp h
    rw [List.foldl_cons, enter_of_proper root kept name hname, ih _ hnames]
    simp

theorem resolve_name (root : Bool) (kept : List Name) (name : Name) (h : Proper name) :
    resolve root kept name = kept ++ [name] := by
  rw [resolve, segments, List.splitOn_eq_singleton h.2.2.2]
  exact enter_of_proper root kept name h

theorem resolve_render (kept names : List Name) (h : ∀ n ∈ names, Proper n) :
    resolve true kept (render names) = kept ++ names := by
  unfold resolve
  by_cases hne : names = []
  · subst hne
    rw [List.append_nil]
    rfl
  · rw [segments_render names h hne, List.foldl_cons, foldl_enter_proper true _ names h]
    simp [enter]

theorem resolve_append (root : Bool) (kept : List Name) (p q : List UInt8) (hp : p ≠ [])
    (hq : isAbsolute q = false) :
    resolve root kept (append p q) = resolve root (resolve root kept p) q := by
  unfold append resolve
  rw [if_neg (by simp [hq])]
  by_cases hlast : p.getLast? = some sep
  · obtain ⟨front, rfl⟩ := List.getLast?_eq_some_iff.mp hlast
    rw [if_pos (Or.inr hlast), List.append_assoc, List.singleton_append, segments_append_sep,
      segments_append_sep, List.foldl_append, List.foldl_append]
    -- The empty name after the separator leads nowhere.
    simp [segments, enter]
  · rw [if_neg (by simp [hp, hlast]), segments_append_sep, List.foldl_append]

theorem ne_nil_of_isAbsolute (p : List UInt8) (h : isAbsolute p = true) : p ≠ [] := by
  rintro rfl
  cases h

theorem isAbsolute_append (p q : List UInt8) (hp : isAbsolute p = true) (hq : isAbsolute q = false) :
    isAbsolute (append p q) = true := by
  obtain ⟨b, rest, rfl⟩ := List.exists_cons_of_ne_nil (ne_nil_of_isAbsolute p hp)
  unfold append
  rw [if_neg (by simp [hq])]
  split <;> exact hp

theorem segments_append_getLast? (p : List UInt8) (name : Name) (hp : p ≠ [])
    (hq : isAbsolute name = false) (hname : Proper name) :
    (segments (append p name)).getLast? = some name := by
  have hsingle : segments name = [name] := List.splitOn_eq_singleton hname.2.2.2
  unfold append
  rw [if_neg (by simp [hq])]
  by_cases hlast : p.getLast? = some sep
  · obtain ⟨front, rfl⟩ := List.getLast?_eq_some_iff.mp hlast
    rw [if_pos (Or.inr hlast), List.append_assoc, List.singleton_append, segments_append_sep, hsingle]
    simp
  · rw [if_neg (by simp [hp, hlast]), segments_append_sep, hsingle]
    simp

/-! ## The normal form -/

/-- The normal form of an absolute path is that of its names, with at most one separator behind. -/
theorem lexicallyNormal_absolute (p : List UInt8) (hp : isAbsolute p = true) :
    lexicallyNormal p = render (resolve true [] p) ∨
      resolve true [] p ≠ [] ∧ lexicallyNormal p = render (resolve true [] p) ++ [sep] := by
  unfold lexicallyNormal render
  simp only [if_neg (ne_nil_of_isAbsolute p hp), hp, if_true]
  split
  · rename_i h; exact Or.inr ⟨h.2.1, by simp⟩
  · exact Or.inl (by simp)

theorem lexicallyNormal_of_last (p : List UInt8) (name : Name) (hp : isAbsolute p = true)
    (hname : Proper name) (hlast : (segments p).getLast? = some name) :
    lexicallyNormal p = render (resolve true [] p) := by
  obtain ⟨hnil, hdot, hdots, -⟩ := hname
  unfold lexicallyNormal render
  simp [ne_nil_of_isAbsolute p hp, hp, hlast, hnil, hdot, hdots]

theorem lexicallyNormal_render (names : List Name) (h : ∀ n ∈ names, Proper n) :
    lexicallyNormal (render names) = render names := by
  have hnames : resolve true [] (render names) = names := by rw [resolve_render [] names h, List.nil_append]
  by_cases hne : names = []
  · subst hne; rfl
  · have hlast : (segments (render names)).getLast? = some (names.getLast hne) := by
      rw [segments_render names h hne, List.getLast?_cons, List.getLast?_eq_some_getLast hne]; rfl
    rw [lexicallyNormal_of_last _ _ (isAbsolute_render names) (h _ (List.getLast_mem hne)) hlast, hnames]

theorem getLast?_render_ne (front : List Name) (name : Name) (h : ∀ n ∈ front ++ [name], Proper n) :
    (render (front ++ [name])).getLast? ≠ some sep := by
  obtain ⟨hne, -, -, hsep⟩ := h name (by simp)
  obtain ⟨start, b, rfl⟩ := (List.eq_nil_or_concat' name).resolve_left hne
  rw [render_eq_flatMap _ (by simp)]
  simp only [List.flatMap_append, List.flatMap_singleton, ← List.cons_append, ← List.append_assoc,
    List.getLast?_concat, ne_eq, Option.some.injEq]
  rintro rfl
  simp at hsep

theorem parentPath_render (names : List Name) (name : Name) (hname : sep ∉ name)
    (h : ∀ n ∈ names, Proper n) : parentPath (render (names ++ [name])) = render names := by
  have hfile : (render (names ++ [name])).rdropWhile (· ≠ sep) = names.flatMap (sep :: ·) ++ [sep] := by
    rw [render_eq_flatMap _ (by simp), List.flatMap_append, List.flatMap_singleton, List.rdropWhile,
      ← List.singleton_append, ← List.append_assoc, List.reverse_append, List.dropWhile_append_of_pos]
    · simp
    · intro b hb
      have : b ≠ sep := fun he => hname (he ▸ List.mem_reverse.mp hb)
      simpa using this
  unfold parentPath
  simp only [hfile, List.rdropWhile_concat, decide_true, if_true]
  by_cases hne : names = []
  · subst hne; rfl
  · -- The directory does not end in a separator, so nothing more goes.
    obtain ⟨front, last, rfl⟩ := (List.eq_nil_or_concat' names).resolve_left hne
    obtain ⟨start, b, rfl⟩ := (List.eq_nil_or_concat' last).resolve_left (h last (by simp)).1
    have hb : b ≠ sep := by
      rintro rfl
      exact (h (start ++ [sep]) (by simp)).2.2.2 (by simp)
    have hdir : (front ++ [start ++ [b]]).flatMap (sep :: ·) =
        (front.flatMap (sep :: ·) ++ sep :: start) ++ [b] := by simp
    rw [render_eq_flatMap _ hne, hdir, List.rdropWhile_concat_neg _ _ _ (by simpa using hb)]
    simp

/-! ## The last name -/

def lastName (p : List UInt8) : Name := p.rtakeWhile (· ≠ sep)

theorem lastName_append (front : List UInt8) (name : Name) (hname : sep ∉ name)
    (hfront : ∀ b ∈ front.getLast?, b = sep) : lastName (front ++ name) = name := by
  have hall : ∀ b ∈ name.reverse, decide (b ≠ sep) = true := by
    intro b hb
    have : b ≠ sep := fun he => hname (he ▸ List.mem_reverse.mp hb)
    simpa using this
  unfold lastName List.rtakeWhile
  rw [List.reverse_append, List.takeWhile_append_of_pos hall]
  rcases List.eq_nil_or_concat' front with rfl | ⟨init, b, rfl⟩
  · simp
  · obtain rfl := hfront b (by simp)
    simp

theorem intercalate_concat (names : List Name) (name : Name) :
    ∃ front, [sep].intercalate (names ++ [name]) = front ++ name ∧ ∀ b ∈ front.getLast?, b = sep := by
  induction names with
  | nil => exact ⟨[], by simp, by simp⟩
  | cons first names ih =>
    obtain ⟨front, heq, hfront⟩ := ih
    obtain ⟨second, rest, hrest⟩ :=
      List.exists_cons_of_ne_nil (List.append_ne_nil_of_right_ne_nil names (List.cons_ne_nil name []))
    refine ⟨first ++ sep :: front, ?_, ?_⟩
    · rw [List.cons_append, hrest, List.intercalate_cons_cons, ← hrest, heq]
      simp
    · intro b hb
      rcases List.eq_nil_or_concat' front with rfl | ⟨init, c, rfl⟩
      · simpa using hb.symm
      · rw [show first ++ sep :: (init ++ [c]) = (first ++ sep :: init) ++ [c] by simp,
          List.getLast?_concat] at hb
        exact hfront b (by rw [List.getLast?_concat]; exact hb)

theorem lastName_lexicallyNormal (p : List UInt8) (name : Name) (hp : p ≠ []) (hname : Proper name) :
    lastName (lexicallyNormal (append p name)) = name := by
  have hrel : isAbsolute name = false := by
    obtain ⟨b, rest, rfl⟩ := List.exists_cons_of_ne_nil hname.1
    have : b ≠ sep := fun he => hname.2.2.2 (by simp [he])
    simp [isAbsolute, this]
  have hlast := segments_append_getLast? p name hp hrel hname
  have hnames : ∀ root, resolve root [] (append p name) = resolve root [] p ++ [name] := by
    intro root
    rw [resolve_append root [] p name hp hrel, resolve_name root _ name hname]
  have hne : append p name ≠ [] := by
    intro hnil
    rw [hnil] at hlast
    cases hlast
    exact hname.1 rfl
  obtain ⟨front, heq, hfront⟩ := intercalate_concat (resolve (isAbsolute (append p name)) [] p) name
  obtain ⟨hnil, hdot, hdots, hsep⟩ := hname
  unfold lexicallyNormal
  simp only [if_neg hne, hnames, hlast, heq, Option.some.injEq, hnil, hdot, hdots, or_self, false_and, if_false,
    List.append_nil]
  rw [if_neg (by simp [hnil]), ← List.append_assoc]
  apply lastName_append _ _ hsep
  intro b hb
  rcases List.eq_nil_or_concat' front with rfl | ⟨init, c, rfl⟩
  · split at hb
    · simpa using hb.symm
    · simp at hb
  · exact hfront b (by simpa [← List.append_assoc] using hb)

/-! ## Prefixes -/

theorem name_isPrefix (name other : Name) (rest : List UInt8) (hname : sep ∉ name)
    (hrest : ∀ b ∈ rest.head?, b = sep) (h : name <+: other ++ rest) : name <+: other := by
  rcases List.prefix_or_prefix_of_prefix h (List.prefix_append other rest) with hle | ⟨beyond, rfl⟩
  · exact hle
  · cases beyond with
    | nil => simp
    | cons b beyond =>
      -- A name that goes on past the other one would hold the separator.
      obtain ⟨more, hmore⟩ := (List.prefix_append_right_inj _).mp h
      obtain rfl := hrest b (by rw [← hmore]; rfl)
      exact absurd (by simp) hname

theorem name_sep_isPrefix (name other : Name) (below rest : List UInt8) (hname : sep ∉ name)
    (hother : sep ∉ other) (hrest : ∀ b ∈ rest.head?, b = sep) :
    name ++ sep :: below <+: other ++ rest ↔ name = other ∧ sep :: below <+: rest := by
  constructor
  · intro h
    obtain ⟨suffix, rfl⟩ := name_isPrefix name other rest hname hrest
      ((List.prefix_append name _).trans h)
    rw [List.append_assoc, List.prefix_append_right_inj] at h
    cases suffix with
    | nil => exact ⟨by simp, h⟩
    | cons b suffix =>
      obtain ⟨rfl, -⟩ := List.cons_prefix_cons.mp h
      exact absurd (by simp) hother
  · rintro ⟨rfl, h⟩
    exact (List.prefix_append_right_inj _).mpr h

theorem head_flatMap_sep (names : List Name) : ∀ b ∈ (names.flatMap (sep :: ·)).head?, b = sep := by
  cases names <;> simp [eq_comm]

theorem flatMap_isPrefix (front names : List Name) (name : Name)
    (hproper : ∀ n ∈ front ++ [name], Proper n) (hnames : ∀ n ∈ names, Proper n) :
    (front ++ [name]).flatMap (sep :: ·) <+: names.flatMap (sep :: ·) ↔
      ∃ suffix rest, names = front ++ (name ++ suffix) :: rest := by
  induction front generalizing names with
  | nil =>
    cases names with
    | nil => simp
    | cons next names =>
      simp only [List.nil_append, List.flatMap_cons, List.flatMap_nil, List.append_nil,
        List.cons_append, List.cons_prefix_cons, true_and, List.cons.injEq]
      constructor
      · intro h
        obtain ⟨suffix, rfl⟩ := name_isPrefix name next _ (hproper name (by simp)).2.2.2
          (head_flatMap_sep names) h
        exact ⟨suffix, names, rfl, rfl⟩
      · rintro ⟨suffix, rest, rfl, rfl⟩
        simp
  | cons first front ih =>
    cases names with
    | nil => simp
    | cons next names =>
      have hbelow : ∃ below, (front ++ [name]).flatMap (sep :: ·) = sep :: below := by
        cases front <;> exact ⟨_, rfl⟩
      obtain ⟨below, hbelow⟩ := hbelow
      have ih := ih names (fun n hn => hproper n (List.mem_cons_of_mem _ hn))
        (fun n hn => hnames n (List.mem_cons_of_mem _ hn))
      simp only [List.cons_append, List.flatMap_cons, List.cons_prefix_cons, true_and, List.cons.injEq]
      rw [hbelow] at ih ⊢
      rw [name_sep_isPrefix first next below _ (hproper first (by simp)).2.2.2
        (hnames next (by simp)).2.2.2 (head_flatMap_sep names), ih]
      constructor
      · rintro ⟨rfl, suffix, rest, rfl⟩; exact ⟨suffix, rest, rfl, rfl⟩
      · rintro ⟨suffix, rest, rfl, rfl⟩; exact ⟨rfl, suffix, rest, rfl⟩

theorem flatMap_sep_isPrefix (front names : List Name) (hfront : ∀ n ∈ front, Proper n)
    (hnames : ∀ n ∈ names, Proper n) :
    front.flatMap (sep :: ·) ++ [sep] <+: names.flatMap (sep :: ·) ↔
      ∃ rest, rest ≠ [] ∧ names = front ++ rest := by
  induction front generalizing names with
  | nil => cases names <;> simp
  | cons first front ih =>
    cases names with
    | nil => simp
    | cons next names =>
      have hbelow : ∃ below, front.flatMap (sep :: ·) ++ [sep] = sep :: below := by
        cases front <;> exact ⟨_, rfl⟩
      obtain ⟨below, hbelow⟩ := hbelow
      have ih := ih names (fun n hn => hfront n (List.mem_cons_of_mem _ hn))
        (fun n hn => hnames n (List.mem_cons_of_mem _ hn))
      simp only [List.cons_append, List.append_assoc, List.flatMap_cons, List.cons_prefix_cons,
        true_and, List.cons.injEq]
      rw [hbelow] at ih ⊢
      rw [name_sep_isPrefix first next below _ (hfront first (by simp)).2.2.2
        (hnames next (by simp)).2.2.2 (head_flatMap_sep names), ih]
      constructor
      · rintro ⟨rfl, rest, hne, rfl⟩; exact ⟨rest, hne, rfl, rfl⟩
      · rintro ⟨rest, hne, rfl, rfl⟩; exact ⟨rfl, rest, hne, rfl⟩

/-- **A path is a string prefix of another one** when the other one's names begin with its names,
the last of which may go on: `/a/b` is a prefix of `/a/bc/d`. -/
theorem render_isPrefix (front names : List Name) (name : Name)
    (hproper : ∀ n ∈ front ++ [name], Proper n) (hnames : ∀ n ∈ names, Proper n) (hne : names ≠ []) :
    render (front ++ [name]) <+: render names ↔
      ∃ suffix rest, names = front ++ (name ++ suffix) :: rest := by
  rw [render_eq_flatMap _ (by simp), render_eq_flatMap _ hne]
  exact flatMap_isPrefix front names name hproper hnames

theorem render_sep_isPrefix (front names : List Name) (hfront : ∀ n ∈ front, Proper n)
    (hnames : ∀ n ∈ names, Proper n) (hne : front ≠ []) (hne' : names ≠ []) :
    render front ++ [sep] <+: render names ↔ ∃ rest, rest ≠ [] ∧ names = front ++ rest := by
  rw [render_eq_flatMap _ hne, render_eq_flatMap _ hne']
  exact flatMap_sep_isPrefix front names hfront hnames

end LogGrid.Path
