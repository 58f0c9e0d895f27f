import LogGrid.Base.Runs
import Mathlib.Algebra.BigOperators.Group.Finset.Basic
import Mathlib.Algebra.Ring.Nat
import Mathlib.Order.WellFounded

/-!
# Inevitability

Some steps a system takes by itself, others come from outside. What is
inevitable holds at the end of every longest run of internal steps, and each
such run has an end.
-/

namespace LogGrid.Runs

variable {S E : Type} {step : S → E → Option S} {internal : S → E → Prop} {Post : S → Prop}

/-- No internal step is left. -/
def AtRest (step : S → E → Option S) (internal : S → E → Prop) (s : S) : Prop :=
  ∀ e, internal s e → step s e = none

inductive Inevitable (step : S → E → Option S) (internal : S → E → Prop) (Post : S → Prop) : S → Prop
  | intro (s : S) (hrest : AtRest step internal s → Post s)
      (hnext : ∀ e s', internal s e → step s e = some s' → Inevitable step internal Post s') :
      Inevitable step internal Post s

/-- **The ranking rule.** Every internal step keeps the invariant and lowers the rank, and what is wanted
holds at rest. -/
theorem inevitable_of_rank {α : Type} {r : α → α → Prop} (hwf : WellFounded r) (rank : S → α) (Inv : S → Prop)
    (hkeep : ∀ s e s', Inv s → internal s e → step s e = some s' → Inv s')
    (hlower : ∀ s e s', Inv s → internal s e → step s e = some s' → r (rank s') (rank s))
    (hrest : ∀ s, Inv s → AtRest step internal s → Post s) (s : S) (hinv : Inv s) :
    Inevitable step internal Post s := by
  generalize hrank : rank s = n
  induction n using hwf.induction generalizing s with
  | _ n ih =>
    subst hrank
    refine .intro s (hrest s hinv) ?_
    intro e s' he hs
    exact ih (rank s') (hlower s e s' hinv he hs) s' (hkeep s e s' hinv he hs) rfl

theorem Inevitable.possible {s : S} (h : Inevitable step internal Post s) :
    ∃ s', Reaches step internal s s' ∧ AtRest step internal s' ∧ Post s' := by
  induction h with
  | intro s hrest hnext ih =>
    by_cases hat : AtRest step internal s
    · exact ⟨s, .start, hat, hrest hat⟩
    · simp only [AtRest, not_forall] at hat
      obtain ⟨e, he, hstep⟩ := hat
      obtain ⟨s₁, hs₁⟩ := Option.ne_none_iff_exists'.mp hstep
      obtain ⟨s', hreach, hpost⟩ := ih e s₁ he hs₁
      exact ⟨s', (Reaches.start.step e he hs₁).trans hreach, hpost⟩

/-! ## Ranks of several parts -/

/-- A rank with a first part that counts before all others. -/
def Before {β : Type} (r : β → β → Prop) : Nat × β → Nat × β → Prop := Prod.Lex (· < ·) r

theorem before_wf {β : Type} {r : β → β → Prop} (h : WellFounded r) : WellFounded (Before r) :=
  WellFounded.prod_lex Nat.lt_wfRel.wf h

theorem before_of_lt {β : Type} {r : β → β → Prop} {n n' : Nat} {b b' : β} (h : n' < n) :
    Before r (n', b') (n, b) :=
  Prod.Lex.left _ _ h

theorem before_of_le {β : Type} {r : β → β → Prop} {n n' : Nat} {b b' : β} (h : n' ≤ n) (hb : r b' b) :
    Before r (n', b') (n, b) := by
  rcases Nat.lt_or_eq_of_le h with hlt | rfl
  · exact .left _ _ hlt
  · exact .right _ hb

/-! ## Ranks of many parts -/

theorem sum_map_set {β : Type} (f : β → Nat) {l : List β} {i : Nat} {b : β} (h : l[i]? = some b) (b' : β) :
    ((l.set i b').map f).sum + f b = (l.map f).sum + f b' := by
  induction l generalizing i with
  | nil => cases h
  | cons b₀ l ih =>
    cases i with
    | zero =>
      cases h
      simp only [List.set_cons_zero, List.map_cons, List.sum_cons]
      omega
    | succ i =>
      have := ih h
      simp only [List.set_cons_succ, List.map_cons, List.sum_cons]
      omega

theorem sum_of_one {ι : Type} [DecidableEq ι] {s : Finset ι} (f f' : ι → Nat) {i : ι} (hi : i ∈ s)
    (hothers : ∀ j ∈ s, j ≠ i → f' j = f j) : ∑ j ∈ s, f' j + f i = ∑ j ∈ s, f j + f' i := by
  rw [← Finset.add_sum_erase s f hi, ← Finset.add_sum_erase s f' hi]
  have hsame : ∑ j ∈ s.erase i, f' j = ∑ j ∈ s.erase i, f j := by
    refine Finset.sum_congr rfl fun j hj => ?_
    obtain ⟨hne, hmem⟩ := Finset.mem_erase.mp hj
    exact hothers j hmem hne
  rw [hsame]
  omega

end LogGrid.Runs
