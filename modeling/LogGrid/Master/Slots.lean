import LogGrid.Master.Workers

/-!
# Slot accounting

`AssignIdleWorkers` takes a worker's free slots for as many dispatches as it
reads, so nobody else may still have dispatches to make for that worker. With
that, the slots and the tasks of a worker add up to what it announced.
-/

open LogGrid.Runs

namespace LogGrid.Master

def SlotLaw (s : Shared) : Prop :=
  ∀ worker threadsCount slots, (worker, threadsCount) ∈ s.history.hellos →
    s.server.workersFreeSlots.lookup worker = some slots →
    slots.toNat + (s.server.tasksOf worker).length = threadsCount.toNat

/-- `OnMessage` runs on the update thread alone. -/
def updating : Pc → Bool
  | .helloRegister .. | .helloDispatch .. | .doneTake .. | .doneDispatch .. | .doneAggregate ..
  | .doneLookup .. | .doneWrite .. | .doneCount .. => true
  | _ => false

def OneUpdate (p : System) : Event → Prop
  | .call (.onMessage _ _) => ∀ pc ∈ p.threads, updating pc = false
  | _ => True

/-- `AssignIdleWorkers` pops no worker for which a thread still has dispatches to make. -/
def WakesAlone (p : System) : Event → Prop
  | .call _ => True
  | .run thread _ => ∀ pc ∈ p.threads[thread]?, ∀ worker ∈ wakes p.shared.server pc,
      ∀ other ∈ p.threads, dispatchesLeft worker other = 0

instance (p : System) (e : Event) : Decidable (OneUpdate p e) :=
  match e with
  | .call (.onMessage _ _) => inferInstanceAs (Decidable (∀ _ ∈ _, _ = _))
  | .call (.onClientDisconnect _) => .isTrue trivial
  | .call (.startSearch _) => .isTrue trivial
  | .run _ _ => .isTrue trivial

instance (p : System) (e : Event) : Decidable (WakesAlone p e) :=
  match e with
  | .call _ => .isTrue trivial
  | .run thread _ => inferInstanceAs (Decidable (∀ pc ∈ p.threads[thread]?, ∀ worker ∈ wakes p.shared.server pc,
      ∀ other ∈ p.threads, dispatchesLeft worker other = 0))

/-! ## The books of one worker -/

/-- The slots and the tasks add up, and there is a slot for every dispatch to come. -/
structure Balanced (threadsCount : UInt64) (d : Desk) : Prop where
  law : ∀ slots, d.slots = some slots → slots.toNat + d.tasks = threadsCount.toNat
  covered : ∀ slots, d.slots = some slots → d.left ≤ slots.toNat
  gone : d.slots = none → d.tasks = 0

theorem balanced_turn (threadsCount : UInt64) (d d' : Desk)
    (h : Desk.Turn (fun d => d.left = 0) (some threadsCount) d d') (hbal : Balanced threadsCount d) :
    Balanced threadsCount d' := by
  obtain ⟨hlaw, hcovered, hgone⟩ := hbal
  have hmax := threadsCount.toNat_lt
  cases h with
  | same => exact ⟨hlaw, hcovered, hgone⟩
  | register n hn =>
    cases hn
    exact ⟨by simp, by simp, by simp⟩
  | sent slots tasks left idle =>
    have hlaw := hlaw slots rfl
    have hcovered := hcovered slots rfl
    simp only at hlaw hcovered
    have hslots : (slots - 1).toNat = slots.toNat - 1 := by
      rw [UInt64.toNat_sub_of_le _ _ (UInt64.le_iff_toNat_le.mpr (by simp; omega))]
      rfl
    constructor
    · rintro _ ⟨⟩; simp only; omega
    · rintro _ ⟨⟩; simp only; omega
    · rintro ⟨⟩
  | queued slots tasks left left' idle hle =>
    refine ⟨hlaw, ?_, hgone⟩
    intro slots' hslots
    exact le_trans hle (hcovered slots' hslots)
  | gone tasks left left' idle hle => exact ⟨by simp, by simp, hgone⟩
  | answered slots tasks left idle =>
    cases slots with
    | none => exact absurd (hgone rfl) (Nat.succ_ne_zero tasks)
    | some slots =>
      have hlaw := hlaw slots rfl
      have hcovered := hcovered slots rfl
      simp only at hlaw hcovered
      -- A slot is still taken, so one more does not wrap.
      have hslots : (slots + 1).toNat = slots.toNat + 1 := by
        rw [UInt64.toNat_add, show (1 : UInt64).toNat = 1 from rfl, Nat.mod_eq_of_lt (by omega)]
      constructor
      · rintro _ ⟨⟩; simp only [Option.getD_some]; omega
      · rintro _ ⟨⟩; simp only [Option.getD_some]; omega
      · rintro ⟨⟩
  | woken slots tasks left idle hleft =>
    refine ⟨hlaw, ?_, hgone⟩
    rintro _ ⟨⟩
    simp only at hleft ⊢
    omega
  | lost => exact ⟨by simp, by simp, fun _ => rfl⟩

/-! ## The result -/

/-- **Slot accounting.** The slot law holds in every run in which workers are woken only when no other
thread has dispatches left for them. -/
theorem slots_accounted (settings : Settings) (p : System)
    (h : Reaches (step settings) (fun q e => OneHello q e ∧ WakesAlone q e) System.initial p) :
    SlotLaw p.shared := by
  intro worker threadsCount slots hhello hslots
  refine (desk_invariant _ Balanced (fun _ _ hguard => hguard.1) ?_ ?_ balanced_turn h worker
    threadsCount hhello).law slots hslots
  · intro q thread choice pc hguard hget client hclient
    have hzero := hguard.2 pc hget client hclient
    show leftFor client q.threads = 0
    unfold leftFor
    rw [List.sum_eq_zero_iff_forall_eq_nat]
    intro n hn
    obtain ⟨other, hother, rfl⟩ := List.mem_map.mp hn
    exact hzero other hother
  · intro threadsCount
    exact ⟨by simp [Desk.blank], by simp [Desk.blank], fun _ => rfl⟩

/-- A worker with two threads gets the one chunk of a search and goes back to the idle queue. -/
def oneTask : List Event :=
  [.call (.onMessage 10000 (helloMessage 2)), .run 0 {}, .run 0 {},
    .call (searchFile oneChunkSize), .run 0 {}, .run 0 {}, .run 0 {}, .run 0 {}, .run 0 {}, .run 0 {}]

def afterOneTask : System :=
  Runs.after (step {}) (fun q e => OneHello q e ∧ WakesAlone q e) System.initial oneTask

theorem slots_accounted_one_task :
    SlotLaw afterOneTask.shared ∧ (afterOneTask.shared.server.tasksOf 10000).length = 1 :=
  ⟨slots_accounted {} afterOneTask (Runs.reaches_after oneTask .start (by decide +kernel)),
    by decide +kernel⟩

/-- Its answer frees the second slot. Before the update thread uses it, a search of three chunks pops the
worker and uses both. -/
def threeTasks : List Event :=
  oneTask ++ [.call (.onMessage 10000 (BatchCodec.taskDoneMessage { taskId := 1 })), .run 0 {},
    .call (searchFile threeChunkSize), .run 0 {}, .run 0 {}, .run 0 {}, .run 0 {}, .run 0 {}, .run 1 {}]

def afterThreeTasks : System :=
  Runs.after (step {}) (fun q e => OneHello q e ∧ OneUpdate q e) System.initial threeTasks

/-- The worker of two threads has three tasks, and its count of free slots has wrapped. -/
theorem slots_overdrawn :
    ∃ p, Reaches (step {}) (fun q e => OneHello q e ∧ OneUpdate q e) System.initial p ∧ ¬ SlotLaw p.shared := by
  refine ⟨afterThreeTasks, Runs.reaches_after threeTasks .start (by decide +kernel), ?_⟩
  intro hlaw
  have htasks : (afterThreeTasks.shared.server.tasksOf 10000).length = 3 := by decide +kernel
  have := hlaw 10000 2 (2 ^ 64 - 1) (by decide +kernel) (by decide +kernel)
  rw [htasks] at this
  exact absurd this (by decide +kernel)

end LogGrid.Master
