import LogGrid.Master.Workers

/-!
# The idle queue and the idle set

`DispatchNextTask` and `AssignIdleWorkers` keep the queue and the set together.
A disconnect takes the worker out of the set and leaves it in the queue, where
it stands for a worker that does not come back.
-/

open LogGrid.Runs

namespace LogGrid.Master

/-- The queue and the set say the same of the registered workers, and only these have tasks. -/
structure InSync (m : MasterServer) : Prop where
  queue : ∀ worker ∈ m.workersFreeSlots,
    m.idleWorkers.count worker = if worker ∈ m.idleWorkersIds then 1 else 0
  ids : ∀ worker ∈ m.idleWorkersIds, worker ∈ m.workersFreeSlots
  inFlight : ∀ worker ∈ m.inFlightTasks, worker ∈ m.workersFreeSlots
  rows : m.inFlightTasks.Trim
  gone : ∀ worker, worker ∉ m.workersFreeSlots → m.idleWorkers.count worker ≤ 1

/-! ## Section by section -/

section

variable {m : MasterServer}

theorem InSync.congr {m' : MasterServer} (h : InSync m) (hqueue : m'.idleWorkers = m.idleWorkers)
    (hids : m'.idleWorkersIds = m.idleWorkersIds) (hslots : m'.workersFreeSlots = m.workersFreeSlots)
    (htasks : m'.inFlightTasks = m.inFlightTasks) : InSync m' := by
  obtain ⟨h₁, h₂, h₃, h₄, h₅⟩ := h
  rw [← hqueue, ← hids, ← hslots] at h₁
  rw [← hids, ← hslots] at h₂
  rw [← htasks, ← hslots] at h₃
  rw [← htasks] at h₄
  rw [← hqueue, ← hslots] at h₅
  exact ⟨h₁, h₂, h₃, h₄, h₅⟩

theorem mem_insert_of_mem {client worker : Nat} {slots : UInt64} (hclient : client ∈ m.workersFreeSlots) :
    worker ∈ m.workersFreeSlots.insert client slots ↔ worker ∈ m.workersFreeSlots := by
  rw [AList.mem_insert]
  constructor
  · rintro (rfl | h)
    · exact hclient
    · exact h
  · exact Or.inr

theorem InSync.register (h : InSync m) (client : Nat) (threadsCount : UInt64)
    (hnew : client ∉ m.idleWorkers) (hids : client ∉ m.idleWorkersIds) :
    InSync (m.registerWorker client threadsCount) := by
  unfold MasterServer.registerWorker
  constructor
  · intro worker hworker
    rcases (AList.mem_insert _).mp hworker with rfl | hworker
    · simp only
      rw [List.count_eq_zero_of_not_mem hnew, if_neg hids]
    · exact h.queue worker hworker
  · exact fun worker hworker => (AList.mem_insert _).mpr (Or.inr (h.ids worker hworker))
  · exact fun worker hworker => (AList.mem_insert _).mpr (Or.inr (h.inFlight worker hworker))
  · exact h.rows
  · exact fun worker hworker => h.gone worker fun hmem => hworker ((AList.mem_insert _).mpr (Or.inr hmem))

theorem InSync.dispatch (h : InSync m) (client : Nat) : InSync (m.dispatchNextTask client).1 := by
  have hspec := m.dispatchNextTask_spec client
  generalize m.dispatchNextTask client = r at hspec
  cases hspec with
  | gone _ => exact h
  | waiting _ _ _ _ => exact h
  | sent slots task pendingTasks hslots hpending =>
    have hclient : client ∈ m.workersFreeSlots := AList.lookup_isSome.mp (by rw [hslots]; rfl)
    constructor
    · exact fun worker hworker => h.queue worker ((mem_insert_of_mem hclient).mp hworker)
    · exact fun worker hworker => (mem_insert_of_mem hclient).mpr (h.ids worker hworker)
    · intro worker hworker
      rcases (m.inFlightTasks.mem_put client worker _ _).mp hworker with rfl | hworker
      · exact (mem_insert_of_mem hclient).mpr hclient
      · exact (mem_insert_of_mem hclient).mpr (h.inFlight worker hworker)
    · exact h.rows.put client _ _
    · exact fun worker hworker => h.gone worker fun hmem => hworker ((mem_insert_of_mem hclient).mpr hmem)
  | queued slots hslots hpending hidle =>
    have hclient : client ∈ m.workersFreeSlots := AList.lookup_isSome.mp (by rw [hslots]; rfl)
    constructor
    · intro worker hworker
      have hqueue := h.queue worker hworker
      simp only [List.count_append, Finset.mem_insert]
      by_cases hw : worker = client
      · subst hw
        rw [hqueue, if_neg hidle, if_pos (Or.inl rfl), List.count_singleton_self]
      · rw [hqueue, List.count_cons_of_ne (Ne.symm hw), List.count_nil, Nat.add_zero]
        simp only [hw, false_or]
    · intro worker hworker
      rcases Finset.mem_insert.mp hworker with rfl | hworker
      · exact hclient
      · exact h.ids worker hworker
    · exact h.inFlight
    · exact h.rows
    · intro worker hworker
      have hne : client ≠ worker := fun heq => hworker (heq ▸ hclient)
      simp only [List.count_append]
      rw [List.count_cons_of_ne hne, List.count_nil]
      exact h.gone worker hworker

theorem InSync.take (h : InSync m) (client taskId : Nat) (server : MasterServer) (task : TaskPayload)
    (htake : m.takeTask client taskId = some (server, task)) : InSync server := by
  obtain ⟨hfind, rfl⟩ := MasterServer.takeTask_eq_some m client taskId server task htake
  have hmem := m.inFlightTasks.mem_of_find client taskId task hfind
  have hclient := h.inFlight client hmem
  constructor
  · exact fun worker hworker => h.queue worker ((mem_insert_of_mem hclient).mp hworker)
  · exact fun worker hworker => (mem_insert_of_mem hclient).mpr (h.ids worker hworker)
  · exact fun worker hworker => (mem_insert_of_mem hclient).mpr
      (h.inFlight worker (m.inFlightTasks.mem_of_remove client worker taskId hmem hworker))
  · exact h.rows.remove client taskId
  · exact fun worker hworker => h.gone worker fun hmem => hworker ((mem_insert_of_mem hclient).mpr hmem)

theorem InSync.pop (h : InSync m) (server : MasterServer) (woken : Option (Nat × UInt64))
    (hpop : m.popIdleWorker = some (server, woken)) : InSync server := by
  have hspec := hpop ▸ m.popIdleWorker_spec
  cases hspec with
  | skip client idleWorkers hqueue hslots =>
    have hgone : client ∉ m.workersFreeSlots := AList.lookup_eq_none.mp hslots
    constructor
    · intro worker hworker
      have hne : client ≠ worker := fun heq => hgone (heq ▸ hworker)
      have hcount := h.queue worker hworker
      rw [hqueue, List.count_cons_of_ne hne] at hcount
      exact hcount
    · exact h.ids
    · exact h.inFlight
    · exact h.rows
    · intro worker hworker
      have hcount := h.gone worker hworker
      rw [hqueue] at hcount
      exact le_trans List.count_le_count_cons hcount
  | wake client idleWorkers threadsCount hqueue hslots =>
    have hclient : client ∈ m.workersFreeSlots := AList.lookup_isSome.mp (by rw [hslots]; rfl)
    constructor
    · intro worker hworker
      have hcount := h.queue worker hworker
      rw [hqueue] at hcount
      simp only [Finset.mem_erase]
      by_cases hw : worker = client
      · subst hw
        rw [List.count_cons_self] at hcount
        rw [if_neg fun hmem => hmem.1 rfl]
        split at hcount <;> omega
      · rw [List.count_cons_of_ne (Ne.symm hw)] at hcount
        rw [hcount]
        simp only [hw, ne_eq, not_false_eq_true, true_and]
    · exact fun worker hworker => h.ids worker (Finset.mem_erase.mp hworker).2
    · exact h.inFlight
    · exact h.rows
    · intro worker hworker
      have hcount := h.gone worker hworker
      rw [hqueue] at hcount
      exact le_trans List.count_le_count_cons hcount

theorem InSync.reclaim (h : InSync m) (client : Nat) (order : List TaskPayload) :
    InSync (m.reclaimTasks client order) := by
  unfold MasterServer.reclaimTasks
  constructor
  · intro worker hworker
    obtain ⟨hne, hworker⟩ := AList.mem_erase.mp hworker
    simp only [Finset.mem_erase, hne, ne_eq, not_false_eq_true, true_and]
    exact h.queue worker hworker
  · intro worker hworker
    obtain ⟨hne, hworker⟩ := Finset.mem_erase.mp hworker
    exact AList.mem_erase.mpr ⟨hne, h.ids worker hworker⟩
  · intro worker hworker
    obtain ⟨hne, hworker⟩ := (m.inFlightTasks.mem_dropRow client worker).mp hworker
    exact AList.mem_erase.mpr ⟨hne, h.inFlight worker hworker⟩
  · exact h.rows.dropRow client
  · intro worker hworker
    simp only
    by_cases hregistered : worker ∈ m.workersFreeSlots
    · rw [h.queue worker hregistered]
      split <;> omega
    · exact h.gone worker hregistered

end

/-! ## Who is in the queue -/

section

variable {settings : Settings} {guard : System → Event → Prop} {p : System}

def QueueArrived (s : Shared) (threads : List Pc) : Prop :=
  ∀ worker ∈ s.server.idleWorkers, Arrived s threads worker

theorem dispatch_idleWorkers (m : MasterServer) (client worker : Nat)
    (h : worker ∈ (m.dispatchNextTask client).1.idleWorkers) :
    worker ∈ m.idleWorkers ∨ worker = client ∧ client ∈ m.workersFreeSlots := by
  have hspec := m.dispatchNextTask_spec client
  generalize m.dispatchNextTask client = r at hspec h
  cases hspec with
  | queued slots hslots _ _ =>
    rcases List.mem_append.mp h with h | h
    · exact Or.inl h
    · exact Or.inr ⟨List.mem_singleton.mp h, AList.lookup_isSome.mp (by rw [hslots]; rfl)⟩
  | _ => exact Or.inl h

theorem section_idleWorkers (m m' : MasterServer) (hsection : Section m m') (worker : Nat)
    (h : worker ∈ m'.idleWorkers) : worker ∈ m.idleWorkers ∨ worker ∈ m.workersFreeSlots := by
  cases hsection with
  | dispatch client =>
    rcases dispatch_idleWorkers m client worker h with h | ⟨rfl, h⟩
    · exact Or.inl h
    · exact Or.inr h
  | take client taskId _ task htake =>
    obtain ⟨-, rfl⟩ := MasterServer.takeTask_eq_some m client taskId _ task htake
    exact Or.inl h
  | add searchId batch _ linesToWrite hadd =>
    obtain ⟨_, _, _, rfl⟩ := MasterServer.addBatch_eq_ok m searchId batch _ linesToWrite hadd
    exact Or.inl h
  | count searchId =>
    unfold MasterServer.countChunk at h
    split at h <;> exact Or.inl h
  | pop _ woken hpop =>
    have hspec := hpop ▸ m.popIdleWorker_spec
    cases hspec with
    | skip client idleWorkers hqueue _ => exact Or.inl (by rw [hqueue]; exact List.mem_cons_of_mem _ h)
    | wake client idleWorkers _ hqueue _ => exact Or.inl (by rw [hqueue]; exact List.mem_cons_of_mem _ h)
  | _ => exact Or.inl h

theorem Roll.arrived {s : Shared} {threads : List Pc} (h : Roll s threads) (worker : Nat)
    (hworker : worker ∈ s.server.workersFreeSlots) : Arrived s threads worker := by
  by_contra hnot
  have hslots := congrArg Desk.slots (h.blank worker hnot)
  exact AList.lookup_eq_none.mp hslots hworker

theorem queueArrived (hguard : ∀ q e, guard q e → OneHello q e)
    (h : Reaches (step settings) guard System.initial p) : QueueArrived p.shared p.threads := by
  apply system_invariant QueueArrived _ _ _ _ h
  · intro worker hworker
    cases hworker
  · intro s l l' hperm hinv worker hworker
    obtain ⟨hhello, hcoming⟩ := hinv worker hworker
    exact ⟨hhello, fun hmem => hcoming (((hperm.flatMap_right registering).map _).mem_iff.mpr hmem)⟩
  · intro p op _ hone hinv worker hworker
    rw [begin_server] at hworker
    obtain ⟨hhello, hcoming⟩ := hinv worker hworker
    rcases begin_hello settings p.shared op with ⟨client, msg, n, rfl, hid, hhellos, hnext⟩ | ⟨hhellos, hnext⟩
    · -- The new `Hello` is another worker's.
      rw [Arrived, hhellos, hnext]
      refine ⟨List.mem_cons_of_mem _ hhello, fun hmem => ?_⟩
      rcases List.mem_cons.mp hmem with heq | hmem
      · obtain rfl : worker = client := heq
        exact hguard _ _ hone hid hhello
      · exact hcoming hmem
    · rw [Arrived, hhellos, List.flatMap_append,
        List.flatMap_eq_nil_iff.mpr fun pc hpc => (hnext pc (Option.mem_toList.mp hpc)).1]
      exact ⟨hhello, hcoming⟩
  · intro p thread choice pc rest s' next hreach _ _ hthreads hinv hran worker hworker
    have hroll := (roll hguard hreach).perm hthreads
    have hold : Arrived p.shared (pc :: rest) worker := by
      rcases section_idleWorkers _ _ hran.section worker hworker with hworker | hworker
      · exact hinv worker hworker
      · exact hroll.arrived worker hworker
    obtain ⟨hhello, hcoming⟩ := hold
    rw [List.flatMap_cons, List.map_append, List.mem_append, not_or] at hcoming
    rw [Arrived, hran.history.2.2, List.flatMap_append,
      List.flatMap_eq_nil_iff.mpr fun pc hpc => (hran.registering pc (Option.mem_toList.mp hpc)).1]
    exact ⟨hhello, hcoming.2⟩

end

/-! ## The result -/

/-- **The idle queue and the idle set stay in sync**, when every connection sends at most one `Hello`. -/
theorem idle_in_sync (settings : Settings) (p : System)
    (h : Reaches (step settings) OneHello System.initial p) : InSync p.shared.server := by
  apply system_invariant (fun s _ => InSync s.server) _ _ _ _ h
  · refine ⟨?_, ?_, ?_, ?_, fun _ _ => Nat.zero_le _⟩
    · exact fun worker hworker => absurd hworker (AList.notMem_empty worker)
    · exact fun worker hworker => absurd hworker (Finset.notMem_empty worker)
    · exact fun worker hworker => absurd hworker (AList.notMem_empty worker)
    · exact nofun
  · intro s l l' _ hinv
    exact hinv
  · intro p op _ _ hinv
    rw [begin_server]
    exact hinv
  · intro p thread choice pc rest s' next hreach _ _ hthreads hinv hran
    cases hran with
    | helloRegister client threadsCount =>
      have hcoming : client ∈ (p.threads.flatMap registering).map (·.1) := by
        refine List.mem_map_of_mem (f := (·.1)) (a := (client, threadsCount)) ?_
        exact (hthreads.flatMap_right registering).mem_iff.mpr List.mem_cons_self
      have hnew : ¬ Arrived p.shared p.threads client := fun h => h.2 hcoming
      have hnot : client ∉ p.shared.server.workersFreeSlots := fun hmem =>
        hnew ((roll (fun _ _ => id) hreach).arrived client hmem)
      exact hinv.register client threadsCount (fun hmem => hnew (queueArrived (fun _ _ => id) hreach client hmem))
        fun hmem => hnot (hinv.ids client hmem)
    | helloDispatch client left => exact hinv.dispatch client
    | doneTake client taskId msg server task htake => exact hinv.take client taskId server task htake
    | doneDispatch client task msg => exact hinv.dispatch client
    | doneAggregate task msg batch server linesToWrite hdecode hadd =>
      obtain ⟨_, _, _, rfl⟩ := MasterServer.addBatch_eq_ok _ _ _ _ _ hadd
      exact hinv.congr rfl rfl rfl rfl
    | doneWrite task fullPath lines => cases choice.opens <;> exact hinv
    | doneCount task =>
      unfold MasterServer.countChunk
      split <;> exact hinv.congr rfl rfl rfl rfl
    | assignSkip server hpop => exact hinv.pop server none hpop
    | assignWake server client threadsCount hpop => exact hinv.pop server _ hpop
    | assignDispatch client left => exact hinv.dispatch client
    | disconnect client horder => exact hinv.reclaim client choice.order
    | _ => exact hinv.congr rfl rfl rfl rfl

/-- A worker becomes idle and is lost. -/
def idleLost : List Event :=
  [.call (.onMessage 10000 (helloMessage 1)), .run 0 {}, .run 0 {}, .call (.onClientDisconnect 10000), .run 0 {}]

def afterIdleLost : System := Runs.after (step {}) OneHello System.initial idleLost

/-- It is still in the queue, and not in the set. -/
theorem idle_in_sync_lost : InSync afterIdleLost.shared.server ∧
    afterIdleLost.shared.server.idleWorkers = [10000] ∧ afterIdleLost.shared.server.idleWorkersIds = ∅ :=
  ⟨idle_in_sync {} afterIdleLost (Runs.reaches_after idleLost .start (by decide +kernel)), by decide +kernel,
    by decide +kernel⟩

end LogGrid.Master
