import LogGrid.Base.Runs
import Mathlib.Data.List.Basic

/-!
# Threads over a shared state

A pool of threads, each known by what it does next. A call starts a thread, and
a step of a thread changes the shared state and leaves the thread at its next
step or ends it. Which thread runs is anyone's choice.
-/

namespace LogGrid.Threads

open Runs

structure Pool (S P : Type) where
  shared : S
  threads : List P

inductive Event (O C : Type)
  | call (op : O)
  | run (thread : Nat) (choice : C)

section

variable {S P O C : Type} (start : S → O → S × Option P) (exec : C → S → P → Option (S × Option P))

def step (p : Pool S P) : Event O C → Option (Pool S P)
  | .call op =>
    let (shared, next) := start p.shared op
    some ⟨shared, next.toList ++ p.threads⟩
  | .run thread choice =>
    match p.threads[thread]? with
    | none => none
    | some pc =>
      (exec choice p.shared pc).map fun (shared, next) =>
        ⟨shared, p.threads.take thread ++ next.toList ++ p.threads.drop (thread + 1)⟩

/-- What is left when a thread runs from `next` to its end with no other thread in between. -/
inductive Alone : S → Option P → S → Prop
  | ended (s : S) : Alone s none s
  | turn {s s₁ s₂ : S} {pc : P} {next : Option P} (choice : C) (h : exec choice s pc = some (s₁, next))
      (hrest : Alone s₁ next s₂) : Alone s (some pc) s₂

variable {start exec}

theorem Alone.of_ended {s s' : S} (h : Alone exec s none s') : s' = s := by
  cases h
  rfl

theorem Alone.turn_iff {s s₁ s' : S} {pc : P} {next : Option P} [Nonempty C]
    (h : ∀ choice, exec choice s pc = some (s₁, next)) : Alone exec s (some pc) s' ↔ Alone exec s₁ next s' := by
  constructor
  · rintro (_ | ⟨choice, hturn, hrest⟩)
    rw [h choice] at hturn
    cases hturn
    exact hrest
  · exact .turn (Classical.arbitrary C) (h _)

theorem step_call {p p' : Pool S P} {op : O} (h : step start exec p (.call op : Event O C) = some p') :
    p'.shared = (start p.shared op).1 ∧ p'.threads = (start p.shared op).2.toList ++ p.threads := by
  cases h
  exact ⟨rfl, rfl⟩

theorem step_run {p p' : Pool S P} {thread : Nat} {choice : C}
    (h : step start exec p (.run thread choice) = some p') :
    ∃ pc rest next, p.threads[thread]? = some pc ∧ p.threads.Perm (pc :: rest) ∧
      exec choice p.shared pc = some (p'.shared, next) ∧ p'.threads.Perm (next.toList ++ rest) := by
  unfold step at h
  simp only at h
  split at h
  · cases h
  · rename_i pc hpc
    obtain ⟨⟨shared, next⟩, hexec, rfl⟩ := Option.map_eq_some_iff.mp h
    obtain ⟨hlt, rfl⟩ := List.getElem?_eq_some_iff.mp hpc
    refine ⟨_, p.threads.take thread ++ p.threads.drop (thread + 1), next, hpc, ?_, hexec, ?_⟩
    · conv_lhs => rw [← List.take_append_drop thread p.threads, List.drop_eq_getElem_cons hlt]
      exact List.perm_middle
    · simp only [List.append_assoc]
      exact List.perm_append_comm_assoc _ _ _

theorem step_single {s s' : S} {pc : P} {next : Option P} {choice : C} (h : exec choice s pc = some (s', next)) :
    step start exec ⟨s, [pc]⟩ (.run 0 choice) = some ⟨s', next.toList⟩ := by
  simp [step, h]

/-! ## Pools that remember more -/

def Pool.map {S' P' : Type} (f : S → S') (g : P → P') (p : Pool S P) : Pool S' P' :=
  ⟨f p.shared, p.threads.map g⟩

section

variable {S' P' : Type} (f : S → S') (g : P → P')

theorem step_run_map {O' C' : Type} {start' : S' → O' → S' × Option P'}
    {exec' : C' → S' → P' → Option (S' × Option P')} (p : Pool S P) (thread : Nat) (choice : C) (choice' : C')
    (hexec : ∀ pc, p.threads[thread]? = some pc →
      exec' choice' (f p.shared) (g pc) = (exec choice p.shared pc).map fun r => (f r.1, r.2.map g)) :
    step start' exec' (p.map f g) (.run thread choice') =
      (step start exec p (.run thread choice)).map (Pool.map f g) := by
  unfold step Pool.map
  simp only
  rw [List.getElem?_map]
  cases hpc : p.threads[thread]? with
  | none => rfl
  | some pc =>
    simp only [Option.map_some, hexec pc hpc]
    cases exec choice p.shared pc with
    | none => rfl
    | some r =>
      simp only [Option.map_some, List.map_append, List.map_take, List.map_drop, Option.toList_map]

theorem step_map {start' : S' → O → S' × Option P'} {exec' : C → S' → P' → Option (S' × Option P')}
    (hexec : ∀ choice s pc, exec' choice (f s) (g pc) = (exec choice s pc).map fun r => (f r.1, r.2.map g))
    (hstart : ∀ s op, start' (f s) op = (f (start s op).1, (start s op).2.map g)) (p : Pool S P) (e : Event O C) :
    step start' exec' (p.map f g) e = (step start exec p e).map (Pool.map f g) := by
  cases e with
  | call op =>
    unfold step Pool.map
    simp only [hstart, Option.map_some, List.map_append, Option.toList_map]
  | run thread choice => exact step_run_map f g p thread choice choice fun pc _ => hexec choice p.shared pc

end

/-- **The invariant rule for a pool.** The assertion is about the bag of threads, so the thread that
runs may be taken to stand first. -/
theorem pool_invariant {guard : Pool S P → Event O C → Prop} {p₀ p : Pool S P} (Inv : S → List P → Prop)
    (hinit : Inv p₀.shared p₀.threads) (hperm : ∀ s l l', l.Perm l' → Inv s l → Inv s l')
    (hcall : ∀ p op, Reaches (step start exec) guard p₀ p → guard p (.call op) → Inv p.shared p.threads →
      Inv (start p.shared op).1 ((start p.shared op).2.toList ++ p.threads))
    (hrun : ∀ p thread choice pc rest s' next, Reaches (step start exec) guard p₀ p →
      guard p (.run thread choice) → p.threads[thread]? = some pc → p.threads.Perm (pc :: rest) →
      Inv p.shared (pc :: rest) → exec choice p.shared pc = some (s', next) → Inv s' (next.toList ++ rest))
    (h : Reaches (step start exec) guard p₀ p) : Inv p.shared p.threads := by
  refine h.invariant (fun p => Inv p.shared p.threads) hinit ?_
  intro p e p' hreach hinv hguard hstep
  cases e with
  | call op =>
    cases hstep
    exact hcall p op hreach hguard hinv
  | run thread choice =>
    obtain ⟨pc, rest, next, hget, hthreads, hexec, hthreads'⟩ := step_run hstep
    exact hperm _ _ _ hthreads'.symm
      (hrun p thread choice pc rest p'.shared next hreach hguard hget hthreads (hperm _ _ _ hthreads hinv) hexec)

end

end LogGrid.Threads
