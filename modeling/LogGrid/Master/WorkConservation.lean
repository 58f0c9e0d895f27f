import LogGrid.Master.Workers

/-!
# Work conservation

A worker outside the idle queue has as many tasks, and dispatches to come, as
threads. A worker in the queue is popped by `AssignIdleWorkers`, which runs as
long as there are tasks to hand out.
-/

open LogGrid.Runs

namespace LogGrid.Master

/-! ## The idle queue -/

def IdleQueue (m : MasterServer) : Prop :=
  ∀ worker ∈ m.idleWorkersIds, worker ∈ m.idleWorkers ∧ worker ∈ m.workersFreeSlots

theorem idleQueue_section (m m' : MasterServer) (hsection : Section m m') (h : IdleQueue m) : IdleQueue m' := by
  intro worker hidle
  cases hsection with
  | register client n => exact ⟨(h worker hidle).1, AList.mem_insert _ |>.mpr (Or.inr (h worker hidle).2)⟩
  | dispatch client =>
    generalize hr : m.dispatchNextTask client = r at hidle ⊢
    have hspec := hr ▸ m.dispatchNextTask_spec client
    cases hspec with
    | gone _ => exact h worker hidle
    | waiting _ _ _ _ => exact h worker hidle
    | sent _ _ _ _ _ => exact ⟨(h worker hidle).1, AList.mem_insert _ |>.mpr (Or.inr (h worker hidle).2)⟩
    | queued slots hslots _ _ =>
      rcases Finset.mem_insert.mp hidle with rfl | hidle
      · exact ⟨by simp, AList.lookup_isSome.mp (by rw [hslots]; rfl)⟩
      · exact ⟨List.mem_append_left _ (h worker hidle).1, (h worker hidle).2⟩
  | take client taskId _ task htake =>
    obtain ⟨-, rfl⟩ := MasterServer.takeTask_eq_some m client taskId _ task htake
    exact ⟨(h worker hidle).1, AList.mem_insert _ |>.mpr (Or.inr (h worker hidle).2)⟩
  | add searchId batch _ linesToWrite hadd =>
    obtain ⟨_, _, _, rfl⟩ := MasterServer.addBatch_eq_ok m searchId batch _ linesToWrite hadd
    exact h worker hidle
  | count searchId =>
    unfold MasterServer.countChunk at hidle ⊢
    split at hidle <;> exact h worker hidle
  | pop _ woken hpop =>
    have hspec := hpop ▸ m.popIdleWorker_spec
    cases hspec with
    | skip client idleWorkers hqueue hslots =>
      obtain ⟨hmem, hregistered⟩ := h worker hidle
      rw [hqueue] at hmem
      rcases List.mem_cons.mp hmem with rfl | hmem
      · exact absurd hregistered (AList.lookup_eq_none.mp hslots)
      · exact ⟨hmem, hregistered⟩
    | wake client idleWorkers slots hqueue hslots =>
      obtain ⟨hne, hidle⟩ := Finset.mem_erase.mp hidle
      obtain ⟨hmem, hregistered⟩ := h worker hidle
      rw [hqueue] at hmem
      exact ⟨(List.mem_cons.mp hmem).resolve_left hne, hregistered⟩
  | reclaim client order _ =>
    obtain ⟨hne, hidle⟩ := Finset.mem_erase.mp hidle
    exact ⟨(h worker hidle).1, AList.mem_erase.mpr ⟨hne, (h worker hidle).2⟩⟩
  | _ => exact h worker hidle

def assigning : Pc → Prop
  | .assign | .assignDispatch _ _ => True
  | _ => False

/-- Whenever a task and an idle worker wait for each other, a thread is in `AssignIdleWorkers`. -/
def Attended (s : Shared) (threads : List Pc) : Prop :=
  s.server.pendingTasks ≠ [] → s.server.idleWorkers ≠ [] → ∃ pc ∈ threads, assigning pc

section

variable {settings : Settings} {guard : System → Event → Prop} {p : System}

theorem idleQueue (h : Reaches (step settings) guard System.initial p) : IdleQueue p.shared.server :=
  server_invariant IdleQueue (fun _ h => absurd h (Finset.notMem_empty _)) idleQueue_section h

theorem dispatch_queues (m : MasterServer) (client : Nat)
    (hpending : (m.dispatchNextTask client).1.pendingTasks ≠ [])
    (hidle : (m.dispatchNextTask client).1.idleWorkers ≠ []) : m.pendingTasks ≠ [] ∧ m.idleWorkers ≠ [] := by
  have hspec := m.dispatchNextTask_spec client
  generalize m.dispatchNextTask client = r at hspec hpending hidle
  cases hspec with
  | gone _ => exact ⟨hpending, hidle⟩
  | waiting _ _ _ _ => exact ⟨hpending, hidle⟩
  | queued _ _ hnone _ => exact absurd hnone hpending
  | sent _ _ _ _ hsome => exact ⟨by rw [hsome]; simp, hidle⟩

theorem Ran.attends {choice : Choice} {s s' : Shared} {pc : Pc} {next : Option Pc}
    (h : Ran settings choice s pc s' next) (hpending : s'.server.pendingTasks ≠ [])
    (hidle : s'.server.idleWorkers ≠ []) :
    (∃ pc' ∈ next, assigning pc') ∨
      ¬ assigning pc ∧ s.server.pendingTasks ≠ [] ∧ s.server.idleWorkers ≠ [] := by
  cases h with
  | helloDispatch client left => exact Or.inr ⟨not_false, dispatch_queues s.server client hpending hidle⟩
  | doneTake client taskId msg server task htake =>
    obtain ⟨-, rfl⟩ := MasterServer.takeTask_eq_some _ _ _ _ _ htake
    exact Or.inr ⟨not_false, hpending, hidle⟩
  | doneDispatch client task msg => exact Or.inr ⟨not_false, dispatch_queues s.server client hpending hidle⟩
  | doneAggregate task msg batch server linesToWrite hdecode hadd =>
    obtain ⟨_, _, _, rfl⟩ := MasterServer.addBatch_eq_ok _ _ _ _ _ hadd
    exact Or.inr ⟨not_false, hpending, hidle⟩
  | doneWrite task fullPath lines =>
    have hserver : (if choice.opens then { s with files := appendLines s.files fullPath lines } else s).server =
        s.server := by cases choice.opens <;> rfl
    rw [hserver] at hpending hidle
    exact Or.inr ⟨not_false, hpending, hidle⟩
  | doneCount task =>
    refine Or.inr ⟨not_false, ?_⟩
    unfold MasterServer.countChunk at hpending hidle
    split at hpending <;> exact ⟨hpending, by simpa [*] using hidle⟩
  | searchPublish search => exact Or.inl ⟨_, rfl, trivial⟩
  | assignStop hstop =>
    have hspec := hstop ▸ s.server.popIdleWorker_spec
    cases hspec with
    | stop h =>
      rcases h with h | h
      · exact absurd h hpending
      · exact absurd h hidle
  | assignSkip server hpop => exact Or.inl ⟨_, rfl, trivial⟩
  | assignWake server client threadsCount hpop =>
    refine Or.inl ⟨_, rfl, ?_⟩
    rcases assignLoop_cases client threadsCount.toNat with h | h <;> rw [h] <;> trivial
  | assignDispatch client left =>
    refine Or.inl ⟨_, rfl, ?_⟩
    split
    · rcases assignLoop_cases client (left - 1) with h | h <;> rw [h] <;> trivial
    · trivial
  | disconnect client horder => exact Or.inl ⟨_, rfl, trivial⟩
  | _ => exact Or.inr ⟨not_false, hpending, hidle⟩

theorem attended (h : Reaches (step settings) guard System.initial p) : Attended p.shared p.threads := by
  apply system_invariant Attended _ _ _ _ h
  · intro hpending
    exact absurd rfl hpending
  · intro s l l' hperm hinv hpending hidle
    obtain ⟨pc, hpc, hassigning⟩ := hinv hpending hidle
    exact ⟨pc, hperm.mem_iff.mp hpc, hassigning⟩
  · intro p op _ _ hinv hpending hidle
    rw [begin_server] at hpending hidle
    obtain ⟨pc, hpc, hassigning⟩ := hinv hpending hidle
    exact ⟨pc, List.mem_append_right _ hpc, hassigning⟩
  · intro p thread choice pc rest s' next _ _ _ _ hinv hran hpending hidle
    rcases hran.attends hpending hidle with ⟨pc', hpc', hassigning⟩ | ⟨hnot, hpending, hidle⟩
    · exact ⟨pc', List.mem_append_left _ (Option.mem_toList.mpr hpc'), hassigning⟩
    · obtain ⟨other, hother, hassigning⟩ := hinv hpending hidle
      rcases List.mem_cons.mp hother with rfl | hother
      · exact absurd hassigning hnot
      · exact ⟨other, List.mem_append_right _ hother, hassigning⟩

end

/-! ## The threads of one worker -/

/-- The threads of a worker are busy, about to get a task, or the worker is in the idle queue. -/
structure Engaged (threadsCount : UInt64) (d : Desk) : Prop where
  law : ∀ slots, d.slots = some slots → slots + UInt64.ofNat d.tasks = threadsCount
  gone : d.slots = none → d.tasks = 0
  busy : ∀ slots, d.slots = some slots → d.idle = false → threadsCount.toNat ≤ d.tasks + d.left

theorem engaged_turn (threadsCount : UInt64) (d d' : Desk)
    (h : Desk.Turn (fun _ => True) (some threadsCount) d d') (heng : Engaged threadsCount d) :
    Engaged threadsCount d' := by
  obtain ⟨hlaw, hgone, hbusy⟩ := heng
  cases h with
  | same => exact ⟨hlaw, hgone, hbusy⟩
  | register n hn =>
    cases hn
    exact ⟨by simp, by simp, by simp⟩
  | sent slots tasks left idle =>
    have hlaw := hlaw slots rfl
    refine ⟨?_, by simp, ?_⟩
    · rintro _ ⟨⟩
      simp only [UInt64.ofNat_add] at hlaw ⊢
      rw [← hlaw]
      grind
    · rintro _ ⟨⟩ hidle
      have hbusy := hbusy slots rfl hidle
      simp only at hbusy ⊢
      omega
  | queued slots tasks left left' idle hle => exact ⟨hlaw, hgone, by simp⟩
  | gone tasks left left' idle hle => exact ⟨by simp, hgone, by simp⟩
  | answered slots tasks left idle =>
    cases slots with
    | none => exact absurd (hgone rfl) (Nat.succ_ne_zero tasks)
    | some slots =>
      have hlaw := hlaw slots rfl
      refine ⟨?_, by simp, ?_⟩
      · rintro _ ⟨⟩
        simp only [UInt64.ofNat_add] at hlaw ⊢
        rw [← hlaw]
        grind
      · rintro _ ⟨⟩ hidle
        have hbusy := hbusy slots rfl hidle
        simp only at hbusy ⊢
        omega
  | woken slots tasks left idle _ =>
    have hlaw := hlaw slots rfl
    refine ⟨?_, by simp, ?_⟩
    · rintro _ ⟨⟩
      exact hlaw
    · rintro _ ⟨⟩ -
      simp only at hlaw ⊢
      rw [← hlaw, UInt64.toNat_add, UInt64.toNat_ofNat']
      have := Nat.mod_le (slots.toNat + tasks % 2 ^ 64) (2 ^ 64)
      have := Nat.mod_le tasks (2 ^ 64)
      omega
  | lost => exact ⟨by simp, fun _ => rfl, by simp⟩

/-! ## The result -/

/-- **Work conservation.** While no call is running and a task is pending, every registered worker has at
least as many tasks as it announced threads. -/
theorem work_conserved (settings : Settings) (p : System)
    (h : Reaches (step settings) OneHello System.initial p) (hquiet : p.threads = [])
    (hpending : p.shared.server.pendingTasks ≠ []) :
    ∀ worker ∈ p.shared.server.workersFreeSlots, ∀ threadsCount,
      (worker, threadsCount) ∈ p.shared.history.hellos →
      threadsCount.toNat ≤ (p.shared.server.tasksOf worker).length := by
  have hempty : p.shared.server.idleWorkers = [] := by
    by_contra hidle
    obtain ⟨pc, hpc, -⟩ := attended h hpending hidle
    rw [hquiet] at hpc
    cases hpc
  intro worker hregistered threadsCount hhello
  obtain ⟨slots, hslots⟩ := Option.isSome_iff_exists.mp (AList.lookup_isSome.mpr hregistered)
  have heng := desk_invariant (fun _ => True) Engaged (fun _ _ hguard => hguard)
    (fun _ _ _ _ _ _ _ _ => trivial)
    (fun _ => ⟨by simp [Desk.blank], fun _ => rfl, by simp [Desk.blank]⟩) engaged_turn h worker threadsCount hhello
  have hnot : worker ∉ p.shared.server.idleWorkersIds := by
    intro hidle
    have := (idleQueue h worker hidle).1
    rw [hempty] at this
    cases this
  have hbusy := heng.busy slots hslots (decide_eq_false hnot)
  rw [hquiet] at hbusy
  exact hbusy

/-- Two chunks for a worker with one thread: it has the first while the second waits. -/
def oneBusy : List Event :=
  [.call (searchFile twoChunkSize), .run 0 {}, .run 0 {}, .run 0 {},
    .call (.onMessage 10000 (helloMessage 1)), .run 0 {}, .run 0 {}]

def afterOneBusy : System := Runs.after (step {}) OneHello System.initial oneBusy

theorem work_conserved_one_busy : 1 ≤ (afterOneBusy.shared.server.tasksOf 10000).length :=
  work_conserved {} afterOneBusy (Runs.reaches_after oneBusy .start (by decide +kernel))
    (List.length_eq_zero_iff.mp (by decide +kernel)) (List.ne_nil_of_length_pos (by decide +kernel)) 10000
    (by decide +kernel) 1 (by decide +kernel)

end LogGrid.Master
