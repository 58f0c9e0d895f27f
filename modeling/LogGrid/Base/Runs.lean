import Mathlib.Logic.Basic

/-!
# Runs

States reached by a partial step function, when every step meets a guard.
-/

namespace LogGrid.Runs

variable {S E : Type}

inductive Reaches (step : S → E → Option S) (guard : S → E → Prop) (s₀ : S) : S → Prop
  | start : Reaches step guard s₀ s₀
  | step {s s' : S} (e : E) : Reaches step guard s₀ s → guard s e → step s e = some s' →
      Reaches step guard s₀ s'

/-- The guard that every step meets. -/
def Any : S → E → Prop := fun _ _ => True

instance (s : S) (e : E) : Decidable (Any s e) := inferInstanceAs (Decidable True)

variable {step : S → E → Option S} {guard : S → E → Prop} {s₀ s₁ s₂ : S}

namespace Reaches

/-- **The invariant rule.** What holds of all reached states may be used to keep the invariant. -/
theorem invariant (Inv : S → Prop) (hinit : Inv s₀)
    (hstep : ∀ s e s', Reaches step guard s₀ s → Inv s → guard s e → step s e = some s' → Inv s')
    (h : Reaches step guard s₀ s₁) : Inv s₁ := by
  induction h with
  | start => exact hinit
  | step e hreach hguard hs ih => exact hstep _ e _ hreach ih hguard hs

theorem trans (h₁ : Reaches step guard s₀ s₁) (h₂ : Reaches step guard s₁ s₂) :
    Reaches step guard s₀ s₂ := by
  induction h₂ with
  | start => exact h₁
  | step e _ hguard hs ih => exact ih.step e hguard hs

theorem mono {guard' : S → E → Prop} (hle : ∀ s e, guard s e → guard' s e)
    (h : Reaches step guard s₀ s₁) : Reaches step guard' s₀ s₁ := by
  induction h with
  | start => exact .start
  | step e _ hguard hs ih => exact ih.step e (hle _ _ hguard) hs

theorem any (h : Reaches step guard s₀ s₁) : Reaches step Any s₀ s₁ := h.mono fun _ _ _ => trivial

/-! ### Two systems, of which one remembers more -/

variable {S' : Type} {step' : S' → E → Option S'} {s' : S'}

theorem map (f : S → S') (hstep : ∀ s e, step' (f s) e = (step s e).map f) (h : Reaches step Any s₀ s₁) :
    Reaches step' Any (f s₀) (f s₁) := by
  induction h with
  | start => exact .start
  | step e _ _ hs ih => exact ih.step e trivial (by rw [hstep, hs]; rfl)

theorem of_map (f : S → S') (hstep : ∀ s e, step' (f s) e = (step s e).map f)
    (h : Reaches step' Any (f s₀) s') : ∃ s, Reaches step Any s₀ s ∧ f s = s' := by
  induction h with
  | start => exact ⟨s₀, .start, rfl⟩
  | step e _ _ hs ih =>
    obtain ⟨s, hreach, rfl⟩ := ih
    rw [hstep] at hs
    obtain ⟨s₂, hs₂, rfl⟩ := Option.map_eq_some_iff.mp hs
    exact ⟨s₂, hreach.step e trivial hs₂, rfl⟩

end Reaches

/-- The events of a list, as long as each meets the guard. -/
def run (step : S → E → Option S) (guard : S → E → Prop) [∀ s e, Decidable (guard s e)] (s : S) :
    List E → Option S
  | [] => some s
  | e :: events => if guard s e then (step s e).bind (run step guard · events) else none

theorem reaches_of_run [∀ s e, Decidable (guard s e)] (events : List E)
    (h₁ : Reaches step guard s₀ s₁) (h : run step guard s₁ events = some s₂) :
    Reaches step guard s₀ s₂ := by
  induction events generalizing s₁ with
  | nil => cases h; exact h₁
  | cons e events ih =>
    unfold run at h
    split at h
    · rename_i hguard
      obtain ⟨s, hs, hrest⟩ := Option.bind_eq_some_iff.mp h
      exact ih (h₁.step e hguard hs) hrest
    · cases h

/-- The state after a list of events, as long as each of them can happen. -/
def after (step : S → E → Option S) (guard : S → E → Prop) [∀ s e, Decidable (guard s e)] (s : S)
    (events : List E) : S :=
  (run step guard s events).getD s

theorem reaches_after [∀ s e, Decidable (guard s e)] (events : List E) (h₁ : Reaches step guard s₀ s₁)
    (h : (run step guard s₁ events).isSome = true) : Reaches step guard s₀ (after step guard s₁ events) := by
  obtain ⟨s, hs⟩ := Option.isSome_iff_exists.mp h
  unfold after
  rw [hs]
  exact reaches_of_run events h₁ hs

end LogGrid.Runs
