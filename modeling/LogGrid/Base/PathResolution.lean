import LogGrid.Base.Path

/-!
# Following a path

How a path leads from a directory to a place, name by name and through
symlinks. A place is the list of the names on the way from the root to it, none
of them a link.
-/

namespace LogGrid.Path

/-- What there is at a place. -/
inductive Kind
  | directory
  | link (text : List UInt8)
  | leaf

section

variable (look : List Name → Option Kind)

/-- `names` leads from the directory `here` to `place`. -/
inductive Leads : List Name → List Name → List Name → Prop
  | arrived (here : List Name) : Leads here [] here
  | stay (here : List Name) (name : Name) (rest place : List Name) (hhere : look here = some .directory)
      (hname : name = [] ∨ name = dot) (h : Leads here rest place) : Leads here (name :: rest) place
  | up (here : List Name) (rest place : List Name) (hhere : look here = some .directory)
      (h : Leads here.dropLast rest place) : Leads here (dotdot :: rest) place
  | enter (here : List Name) (name : Name) (rest place : List Name) (kind : Kind)
      (hhere : look here = some .directory) (hname : Proper name) (hlook : look (here ++ [name]) = some kind)
      (hkind : ∀ text, kind ≠ .link text) (h : Leads (here ++ [name]) rest place) : Leads here (name :: rest) place
  | follow (here : List Name) (name : Name) (rest place : List Name) (text : List UInt8)
      (hhere : look here = some .directory) (hname : Proper name)
      (hlook : look (here ++ [name]) = some (.link text))
      (h : Leads (if isAbsolute text then [] else here) (segments text ++ rest) place) :
      Leads here (name :: rest) place

/-- There is something other than a link at the place. -/
def Real (place : List Name) : Prop :=
  (∀ name ∈ place, Proper name) ∧ ∃ kind, look place = some kind ∧ ∀ text, kind ≠ .link text

end

section

variable {look : List Name → Option Kind} {here names place place' : List Name}

theorem Proper.ne_stay {name : Name} (h : Proper name) : ¬ (name = [] ∨ name = dot) := by
  rintro (rfl | rfl)
  · exact h.1 rfl
  · exact h.2.1 rfl

theorem Leads.unique (h : Leads look here names place) (h' : Leads look here names place') : place = place' := by
  induction h with
  | arrived here => cases h'; rfl
  | stay here name rest place hhere hname h ih =>
    cases h' with
    | stay _ _ _ _ _ _ h' => exact ih h'
    | up _ _ _ _ _ => rcases hname with h | h <;> cases h
    | enter _ _ _ _ _ _ hproper _ _ _ => exact absurd hname hproper.ne_stay
    | follow _ _ _ _ _ _ hproper _ _ => exact absurd hname hproper.ne_stay
  | up here rest place hhere h ih =>
    cases h' with
    | stay _ _ _ _ _ hname _ => rcases hname with h | h <;> cases h
    | up _ _ _ _ h' => exact ih h'
    | enter _ _ _ _ _ _ hproper _ _ _ => exact absurd rfl hproper.2.2.1
    | follow _ _ _ _ _ _ hproper _ _ => exact absurd rfl hproper.2.2.1
  | enter here name rest place kind hhere hproper hlook hkind h ih =>
    cases h' with
    | stay _ _ _ _ _ hname _ => exact absurd hname hproper.ne_stay
    | up _ _ _ _ _ => exact absurd rfl hproper.2.2.1
    | enter _ _ _ _ _ _ _ _ _ h' => exact ih h'
    | follow _ _ _ _ text _ _ hlook' _ =>
      rw [hlook, Option.some.injEq] at hlook'
      exact absurd hlook' (hkind text)
  | follow here name rest place text hhere hproper hlook h ih =>
    cases h' with
    | stay _ _ _ _ _ hname _ => exact absurd hname hproper.ne_stay
    | up _ _ _ _ _ => exact absurd rfl hproper.2.2.1
    | enter _ _ _ _ kind _ _ hlook' hkind _ =>
      rw [hlook, Option.some.injEq] at hlook'
      exact absurd hlook'.symm (hkind text)
    | follow _ _ _ _ text' _ _ hlook' h' =>
      rw [hlook, Option.some.injEq, Kind.link.injEq] at hlook'
      subst hlook'
      exact ih h'

theorem Real.of_directory (hproper : ∀ name ∈ place, Proper name) (h : look place = some .directory) :
    Real look place :=
  ⟨hproper, .directory, h, by simp⟩

theorem Leads.real (hinside : ∀ place name kind, look (place ++ [name]) = some kind → look place = some .directory)
    (hroot : look [] = some .directory) (h : Leads look here names place) (hhere : Real look here) :
    Real look place := by
  induction h with
  | arrived here => exact hhere
  | stay _ _ _ _ _ _ _ ih => exact ih hhere
  | up here rest place hdirectory h ih =>
    apply ih
    rcases List.eq_nil_or_concat' here with rfl | ⟨front, name, rfl⟩
    · exact hhere
    · rw [List.dropLast_concat]
      obtain ⟨hproper, kind, hlook, -⟩ := hhere
      exact .of_directory (fun n hn => hproper n (List.mem_append_left _ hn)) (hinside front name kind hlook)
  | enter here name rest place kind hdirectory hname hlook hkind h ih =>
    apply ih
    refine ⟨?_, kind, hlook, hkind⟩
    intro n hn
    rcases List.mem_append.mp hn with hn | hn
    · exact hhere.1 n hn
    · rw [List.mem_singleton.mp hn]
      exact hname
  | follow here name rest place text hdirectory hname hlook h ih =>
    apply ih
    split
    · exact .of_directory (by simp) hroot
    · exact hhere

end

end LogGrid.Path
