import LogGrid.Master.Ledger
import Mathlib.Algebra.BigOperators.Group.List.Basic

/-!
# The master as one worker sees it

A worker has a number of free slots, its tasks, the dispatches that running
threads still have to make for it, and it is in the idle queue or not. `Turn`
says what can happen to these four, and every step of the master is a turn for
every worker.
-/

open LogGrid.Runs

namespace LogGrid.Master

/-- One worker: its entry in `m_workersFreeSlots`, its number of tasks in `m_inFlightTasks`, the
dispatches that threads still have to make for it, and whether it is in `m_idleWorkersIds`. -/
structure Desk where
  slots : Option UInt64
  tasks : Nat
  left : Nat
  idle : Bool
  deriving DecidableEq

namespace Desk

def blank : Desk := ⟨none, 0, 0, false⟩

/-- What can happen to a worker when only workers that are `wakeable` are woken. Its `Hello`, if there is one
to come, announces `hello`. -/
inductive Turn (wakeable : Desk → Prop) (hello : Option UInt64) : Desk → Desk → Prop
  | same (d : Desk) : Turn wakeable hello d d
  | register (threadsCount : UInt64) (h : hello = some threadsCount) :
      Turn wakeable hello blank ⟨some threadsCount, 0, threadsCount.toNat, false⟩
  | sent (slots : UInt64) (tasks left : Nat) (idle : Bool) : Turn wakeable hello
      ⟨some slots, tasks, left + 1, idle⟩ ⟨some (slots - 1), tasks + 1, left, idle⟩
  | queued (slots : UInt64) (tasks left left' : Nat) (idle : Bool) (h : left' ≤ left) :
      Turn wakeable hello ⟨some slots, tasks, left, idle⟩ ⟨some slots, tasks, left', true⟩
  | gone (tasks left left' : Nat) (idle : Bool) (h : left' ≤ left) :
      Turn wakeable hello ⟨none, tasks, left, idle⟩ ⟨none, tasks, left', idle⟩
  | answered (slots : Option UInt64) (tasks left : Nat) (idle : Bool) : Turn wakeable hello
      ⟨slots, tasks + 1, left, idle⟩ ⟨some (slots.getD 0 + 1), tasks, left + 1, idle⟩
  | woken (slots : UInt64) (tasks left : Nat) (idle : Bool) (h : wakeable ⟨some slots, tasks, left, idle⟩) :
      Turn wakeable hello ⟨some slots, tasks, left, idle⟩ ⟨some slots, tasks, left + slots.toNat, false⟩
  | lost (d : Desk) : Turn wakeable hello d ⟨none, 0, d.left, false⟩

end Desk

/-! ## The desk of a worker -/

/-- The dispatches that a thread makes for a worker before it does anything else. -/
def dispatchesLeft (worker : Nat) : Pc → Nat
  | .helloDispatch client left => if client = worker then left else 0
  | .doneDispatch client _ _ => if client = worker then 1 else 0
  | .assignDispatch client left => if client = worker then left else 0
  | _ => 0

def leftFor (worker : Nat) (threads : List Pc) : Nat := (threads.map (dispatchesLeft worker)).sum

@[simp] theorem leftFor_nil (worker : Nat) : leftFor worker [] = 0 := rfl

@[simp] theorem leftFor_cons (worker : Nat) (pc : Pc) (threads : List Pc) :
    leftFor worker (pc :: threads) = dispatchesLeft worker pc + leftFor worker threads := by
  simp [leftFor]

@[simp] theorem leftFor_append (worker : Nat) (threads threads' : List Pc) :
    leftFor worker (threads ++ threads') = leftFor worker threads + leftFor worker threads' := by
  simp [leftFor]

def MasterServer.desk (m : MasterServer) (worker left : Nat) : Desk where
  slots := m.workersFreeSlots.lookup worker
  tasks := (m.tasksOf worker).length
  left := left
  idle := worker ∈ m.idleWorkersIds

def desk (s : Shared) (threads : List Pc) (worker : Nat) : Desk :=
  s.server.desk worker (leftFor worker threads)

theorem desk_perm (s : Shared) (threads threads' : List Pc) (worker : Nat) (h : threads.Perm threads') :
    desk s threads worker = desk s threads' worker := by
  unfold desk leftFor
  rw [(h.map _).sum_eq]

@[simp] theorem leftFor_helloLoop (worker client left : Nat) :
    leftFor worker (helloLoop client left).toList = if client = worker then left else 0 := by
  unfold helloLoop
  split
  · rename_i h; simp [h]
  · simp [dispatchesLeft]

@[simp] theorem dispatchesLeft_assignLoop (worker client left : Nat) :
    dispatchesLeft worker (assignLoop client left) = if client = worker then left else 0 := by
  unfold assignLoop
  split
  · rename_i h; simp [h, dispatchesLeft]
  · rfl

/-! ## Turns of the fields under the mutex -/

namespace MasterServer

variable {wakeable : Desk → Prop} {hello : Option UInt64}

theorem length_tasksOf_put (m : MasterServer) (client taskId : Nat) (task : TaskPayload)
    (hnew : m.inFlightTasks.find client taskId = none) :
    ((m.inFlightTasks.put client taskId task).row client).entries.length = (m.tasksOf client).length + 1 := by
  rw [TwoLevel.row_put_self, AList.entries_insert_of_notMem (AList.lookup_eq_none.mp hnew)]
  simp [tasksOf]

theorem length_tasksOf_remove (m : MasterServer) (client taskId : Nat) (task : TaskPayload)
    (h : m.inFlightTasks.find client taskId = some task) :
    (m.tasksOf client).length = ((m.inFlightTasks.remove client taskId).row client).entries.length + 1 := by
  rw [TwoLevel.row_remove_self]
  simpa [tasksOf] using (AList.entries_perm_of_lookup (m.inFlightTasks.row client) taskId task h).length_eq

theorem desk_dispatch_ne (m : MasterServer) (client worker left : Nat) (h : worker ≠ client) :
    (m.dispatchNextTask client).1.desk worker left = m.desk worker left := by
  have hspec := m.dispatchNextTask_spec client
  generalize m.dispatchNextTask client = r at hspec
  unfold desk tasksOf
  cases hspec with
  | gone _ => rfl
  | waiting _ _ _ _ => rfl
  | queued slots hslots hpending hidle => simp [h]
  | sent slots task pendingTasks hslots hpending =>
    simp only [AList.lookup_insert_ne h, TwoLevel.row_put_ne _ _ _ _ _ h]

theorem turn_dispatch (m : MasterServer) (wakeable : Desk → Prop) (hello : Option UInt64)
    (client left rest : Nat) (hids : m.TaskIds) :
    ((m.dispatchNextTask client).2.isSome →
      Desk.Turn wakeable hello (m.desk client (left + 1 + rest))
        ((m.dispatchNextTask client).1.desk client (left + rest))) ∧
    ((m.dispatchNextTask client).2 = none →
      Desk.Turn wakeable hello (m.desk client (left + 1 + rest))
        ((m.dispatchNextTask client).1.desk client rest)) := by
  have hspec := m.dispatchNextTask_spec client
  generalize m.dispatchNextTask client = r at hspec
  unfold desk
  constructor
  · intro hsome
    cases hspec with
    | gone _ => cases hsome
    | waiting _ _ _ _ => cases hsome
    | queued _ _ _ _ => cases hsome
    | sent slots task pendingTasks hslots hpending =>
      have htasks := m.length_tasksOf_put client (m.nextTaskId + 1) { task with taskId := m.nextTaskId + 1 }
        (hids.fresh client)
      simp only [tasksOf, AList.lookup_insert, hslots, List.length_map, htasks]
      rw [show left + 1 + rest = left + rest + 1 by omega]
      exact .sent slots _ (left + rest) _
  · intro hnone
    cases hspec with
    | gone hslots =>
      rw [hslots]
      exact .gone _ _ _ _ (by omega)
    | waiting slots hslots hpending hidle =>
      simp only [hslots, hidle, decide_true]
      exact .queued slots _ _ _ _ (by omega)
    | queued slots hslots hpending hidle =>
      simp only [hslots, Finset.mem_insert_self, decide_true]
      exact .queued slots _ _ _ _ (by omega)
    | sent _ _ _ _ _ => cases hnone

theorem turn_take (m server : MasterServer) (client taskId worker left : Nat) (task : TaskPayload)
    (h : m.takeTask client taskId = some (server, task)) :
    Desk.Turn wakeable hello (m.desk worker left)
      (server.desk worker ((if client = worker then 1 else 0) + left)) := by
  obtain ⟨hfind, rfl⟩ := takeTask_eq_some m client taskId server task h
  unfold desk
  by_cases hw : client = worker
  · subst hw
    rw [m.length_tasksOf_remove client taskId task hfind]
    simp only [tasksOf, AList.lookup_insert, List.length_map, if_true, Nat.add_comm 1 left]
    exact .answered _ _ _ _
  · simp only [tasksOf, AList.lookup_insert_ne (Ne.symm hw), TwoLevel.row_remove_ne _ _ _ _ (Ne.symm hw),
      if_neg hw, Nat.zero_add]
    exact .same _

theorem turn_reclaim (m : MasterServer) (client worker left : Nat) (order : List TaskPayload) :
    Desk.Turn wakeable hello (m.desk worker left) ((m.reclaimTasks client order).desk worker left) := by
  unfold desk reclaimTasks
  by_cases hw : worker = client
  · subst hw
    simp only [tasksOf, AList.lookup_erase, TwoLevel.row_dropRow_self, Finset.notMem_erase, decide_false]
    exact .lost ⟨_, _, left, _⟩
  · simp only [tasksOf, AList.lookup_erase_ne hw, TwoLevel.row_dropRow_ne _ _ _ hw, Finset.mem_erase, ne_eq,
      hw, not_false_eq_true, true_and]
    exact .same _

theorem turn_wake (m server : MasterServer) (client worker left : Nat) (slots : UInt64)
    (h : m.popIdleWorker = some (server, some (client, slots)))
    (hwake : worker = client → wakeable (m.desk worker left)) :
    Desk.Turn wakeable hello (m.desk worker left)
      (server.desk worker ((if client = worker then slots.toNat else 0) + left)) := by
  have hspec := h ▸ m.popIdleWorker_spec
  cases hspec with
  | wake _ idleWorkers _ hidle hslots =>
    unfold desk at hwake ⊢
    by_cases hw : worker = client
    · subst hw
      have hwakeable := hwake rfl
      simp only [hslots] at hwakeable
      simp only [tasksOf, hslots, if_true, Finset.notMem_erase, decide_false, Nat.add_comm slots.toNat left]
      exact .woken slots _ _ _ hwakeable
    · simp only [tasksOf, if_neg (Ne.symm hw), Nat.zero_add, Finset.mem_erase, ne_eq, hw, not_false_eq_true,
        true_and]
      exact .same _

end MasterServer

/-! ## The roll -/

def registering : Pc → List (Nat × UInt64)
  | .helloRegister client threadsCount => [(client, threadsCount)]
  | _ => []

/-- A thread does not come to a dispatch with none left. -/
def Ready : Pc → Prop
  | .helloDispatch _ left => left ≠ 0
  | .assignDispatch _ left => left ≠ 0
  | _ => True

/-- The `Hello` of the worker has been handled. -/
def Arrived (s : Shared) (threads : List Pc) (worker : Nat) : Prop :=
  worker ∈ s.history.hellos.map (·.1) ∧ worker ∉ (threads.flatMap registering).map (·.1)

/-- Every connection sends at most one `Hello`. -/
def OneHello (p : System) : Event → Prop
  | .call (.onMessage client msg) => msg.header.id = LogSearchMsg.workerHello.value →
      client ∉ p.shared.history.hellos.map (·.1)
  | _ => True

instance (p : System) (e : Event) : Decidable (OneHello p e) :=
  match e with
  | .call (.onMessage _ _) => inferInstanceAs (Decidable (_ → _))
  | .call (.onClientDisconnect _) => .isTrue trivial
  | .call (.startSearch _) => .isTrue trivial
  | .run _ _ => .isTrue trivial

structure Roll (s : Shared) (threads : List Pc) : Prop where
  hellos : (s.history.hellos.map (·.1)).Nodup
  coming : ((threads.flatMap registering).map (·.1)).Nodup
  announced : threads.flatMap registering ⊆ s.history.hellos
  ready : ∀ pc ∈ threads, Ready pc
  blank : ∀ worker, ¬ Arrived s threads worker → desk s threads worker = Desk.blank

theorem begin_hello (settings : Settings) (s : Shared) (op : Op) :
    (∃ client msg threadsCount, op = .onMessage client msg ∧
      msg.header.id = LogSearchMsg.workerHello.value ∧
      (begin settings s op).1.history.hellos = (client, threadsCount) :: s.history.hellos ∧
      (begin settings s op).2 = some (.helloRegister client threadsCount)) ∨
    ((begin settings s op).1.history.hellos = s.history.hellos ∧
      ∀ pc ∈ (begin settings s op).2, registering pc = [] ∧ Ready pc ∧
        ∀ worker, dispatchesLeft worker pc = 0) := by
  cases op with
  | onMessage client msg =>
    simp only [begin]
    split
    · rename_i hid
      split
      · exact Or.inr ⟨rfl, by simp⟩
      · exact Or.inl ⟨client, msg, _, rfl, hid, rfl, rfl⟩
    · split
      · split
        · exact Or.inr ⟨rfl, by simp⟩
        · exact Or.inr ⟨rfl, by simp [registering, Ready, dispatchesLeft]⟩
      · exact Or.inr ⟨rfl, by simp⟩
  | onClientDisconnect client => exact Or.inr ⟨rfl, by simp [begin, registering, Ready, dispatchesLeft]⟩
  | startSearch request =>
    simp only [begin]
    split
    · exact Or.inr ⟨rfl, by simp⟩
    · exact Or.inr ⟨rfl, by simp [registering, Ready, dispatchesLeft]⟩

theorem begin_desk (settings : Settings) (s : Shared) (op : Op) (threads : List Pc) (worker : Nat) :
    desk (begin settings s op).1 ((begin settings s op).2.toList ++ threads) worker = desk s threads worker := by
  have hleft : leftFor worker (begin settings s op).2.toList = 0 := by
    rcases begin_hello settings s op with ⟨client, _, threadsCount, -, -, -, hnext⟩ | ⟨-, hnext⟩
    · rw [hnext]; rfl
    · cases hpc : (begin settings s op).2 with
      | none => rfl
      | some pc => simpa using (hnext pc hpc).2.2 worker
  unfold desk
  rw [begin_server, leftFor_append, hleft, Nat.zero_add]

/-! ## Turns of the master -/

def wakes (m : MasterServer) : Pc → Option Nat
  | .assign => (m.popIdleWorker.bind Prod.snd).map Prod.fst
  | _ => none

variable {settings : Settings} {wakeable : Desk → Prop}

theorem turn_dispatching {s : Shared} {pc : Pc} {next : Option Pc} {rest : List Pc} {client : Nat}
    (hello : Option UInt64) (worker left : Nat) (hids : s.server.TaskIds)
    (hleft : dispatchesLeft worker pc = if client = worker then left + 1 else 0)
    (hnext : leftFor worker next.toList = if (dispatch s client).2 ∧ client = worker then left else 0) :
    Desk.Turn wakeable hello (desk s (pc :: rest) worker)
      (desk (dispatch s client).1 (next.toList ++ rest) worker) := by
  unfold desk
  rw [leftFor_cons, leftFor_append, hleft, hnext, dispatch_server]
  by_cases hw : client = worker
  · subst hw
    obtain ⟨hsome, hnone⟩ := s.server.turn_dispatch wakeable hello
      client left (leftFor client rest) hids
    rw [if_pos rfl]
    cases hsent : (s.server.dispatchNextTask client).2 with
    | some task =>
      rw [if_pos ⟨by simp [dispatch, hsent], rfl⟩]
      exact hsome (by rw [hsent]; rfl)
    | none =>
      rw [if_neg (by simp [dispatch, hsent]), Nat.zero_add]
      exact hnone hsent
  · rw [if_neg hw, if_neg fun h => hw h.2, s.server.desk_dispatch_ne client worker _ (Ne.symm hw)]
    exact .same _

theorem turn_still {s s' : Shared} {pc : Pc} {next : Option Pc} {rest : List Pc} (hello : Option UInt64)
    (worker : Nat) (hdesk : ∀ left, s'.server.desk worker left = s.server.desk worker left)
    (hleft : leftFor worker next.toList = dispatchesLeft worker pc) :
    Desk.Turn wakeable hello (desk s (pc :: rest) worker) (desk s' (next.toList ++ rest) worker) := by
  unfold desk
  rw [leftFor_append, leftFor_cons, hleft, hdesk]
  exact .same _

theorem Ran.turn {choice : Choice} {s s' : Shared} {pc : Pc} {next : Option Pc} {rest : List Pc}
    (h : Ran settings choice s pc s' next) (wakeable : Desk → Prop) (hids : s.server.TaskIds)
    (hroll : Roll s (pc :: rest))
    (worker : Nat) (hello : Option UInt64) (hhello : ∀ n, (worker, n) ∈ registering pc → hello = some n)
    (hwake : ∀ client ∈ wakes s.server pc, wakeable (desk s (pc :: rest) client)) :
    Desk.Turn wakeable hello (desk s (pc :: rest) worker) (desk s' (next.toList ++ rest) worker) := by
  have hready : Ready pc := hroll.ready pc List.mem_cons_self
  cases h with
  | helloRegister client n =>
    unfold desk
    rw [leftFor_cons, leftFor_append, leftFor_helloLoop]
    by_cases hw : client = worker
    · subst hw
      have hblank := hroll.blank client fun h => h.2 (by simp [registering])
      unfold desk at hblank
      have hleft : leftFor client rest = 0 := by
        have := congrArg Desk.left hblank
        simpa [MasterServer.desk, Desk.blank, dispatchesLeft] using this
      have htasks := congrArg Desk.tasks hblank
      have hidle := congrArg Desk.idle hblank
      simp only [MasterServer.desk, Desk.blank] at htasks hidle
      have hafter : (s.server.registerWorker client n).desk client (n.toNat + 0) =
          ⟨some n, 0, n.toNat, false⟩ := by
        simp only [MasterServer.desk, MasterServer.registerWorker, AList.lookup_insert, Nat.add_zero,
          Desk.mk.injEq, true_and]
        exact ⟨htasks, hidle⟩
      rw [if_pos rfl, hleft]
      rw [leftFor_cons, hleft] at hblank
      rw [hblank, hafter]
      exact .register n (hhello n (List.mem_singleton_self _))
    · rw [if_neg hw]
      simp only [MasterServer.desk, MasterServer.registerWorker, AList.lookup_insert_ne (Ne.symm hw)]
      exact .same _
  | helloDispatch client left =>
    obtain ⟨left, rfl⟩ := Nat.exists_eq_succ_of_ne_zero hready
    apply turn_dispatching hello worker left hids rfl
    cases (dispatch s client).2 <;> simp
  | doneTake client taskId msg server task h =>
    unfold desk
    rw [leftFor_append]
    simpa [dispatchesLeft] using s.server.turn_take server client taskId worker (leftFor worker rest) task h
  | doneDispatch client task msg =>
    apply turn_dispatching hello worker 0 hids rfl
    simp [dispatchesLeft]
  | doneAggregate task msg batch server linesToWrite hdecode hadd =>
    obtain ⟨_, _, _, rfl⟩ := MasterServer.addBatch_eq_ok _ _ _ _ _ hadd
    refine turn_still hello worker (fun _ => rfl) ?_
    split <;> rfl
  | doneWrite task fullPath lines =>
    refine turn_still hello worker (fun _ => ?_) rfl
    cases choice.opens <;> rfl
  | doneCount task =>
    refine turn_still hello worker (fun _ => ?_) rfl
    unfold MasterServer.countChunk
    split <;> rfl
  | assignSkip server h =>
    have hspec := h ▸ s.server.popIdleWorker_spec
    cases hspec with
    | skip _ _ _ _ => exact turn_still hello worker (fun _ => rfl) rfl
  | assignWake server client slots h =>
    have hwoken := hwake client (by simp [wakes, h])
    have hturn : Desk.Turn wakeable hello _ _ := s.server.turn_wake server client worker
      (leftFor worker rest) slots h (by rintro rfl; simpa [desk, dispatchesLeft] using hwoken)
    unfold desk
    rw [leftFor_cons, leftFor_append, Option.toList_some, leftFor_cons, dispatchesLeft_assignLoop]
    simpa [dispatchesLeft] using hturn
  | assignDispatch client left =>
    obtain ⟨left, rfl⟩ := Nat.exists_eq_succ_of_ne_zero hready
    apply turn_dispatching hello worker left hids rfl
    rw [Option.toList_some, leftFor_cons, leftFor_nil, Nat.add_zero]
    split
    · rename_i hsent
      simp [hsent]
    · rename_i hsent
      simp [hsent, dispatchesLeft]
  | disconnect client h =>
    simpa [desk, dispatchesLeft] using s.server.turn_reclaim client worker (leftFor worker rest) choice.order
  | _ => exact turn_still hello worker (fun _ => rfl) rfl

theorem Ran.registering {choice : Choice} {s s' : Shared} {pc : Pc} {next : Option Pc}
    (h : Ran settings choice s pc s' next) :
    ∀ pc' ∈ next, registering pc' = [] ∧ Ready pc' := by
  intro pc' hnext
  cases h with
  | helloRegister client threadsCount =>
    unfold helloLoop at hnext
    split at hnext <;> cases hnext
    rename_i hleft
    exact ⟨rfl, hleft⟩
  | helloDispatch client left =>
    split at hnext
    · unfold helloLoop at hnext
      split at hnext <;> cases hnext
      rename_i hleft
      exact ⟨rfl, hleft⟩
    · cases hnext
  | doneAggregate task msg batch server linesToWrite hdecode hadd =>
    split at hnext <;> cases hnext <;> exact ⟨rfl, trivial⟩
  | assignWake server client threadsCount hpop =>
    cases hnext
    unfold assignLoop
    split
    · exact ⟨rfl, trivial⟩
    · rename_i hleft; exact ⟨rfl, hleft⟩
  | assignDispatch client left =>
    cases hnext
    split
    · unfold assignLoop
      split
      · exact ⟨rfl, trivial⟩
      · rename_i hleft; exact ⟨rfl, hleft⟩
    · exact ⟨rfl, trivial⟩
  | _ => cases hnext <;> exact ⟨rfl, trivial⟩

theorem Desk.Turn.of_blank {d : Desk} (h : Desk.Turn wakeable none Desk.blank d) : d = Desk.blank := by
  generalize hd : Desk.blank = d₀ at h
  cases h with
  | same => rfl
  | register threadsCount h => cases h
  | gone tasks left left' idle hle =>
    cases hd
    rw [Nat.le_zero.mp hle]
  | lost => subst hd; rfl
  | _ => cases hd

theorem Roll.perm {s : Shared} {threads threads' : List Pc} (h : Roll s threads)
    (hperm : threads.Perm threads') : Roll s threads' := by
  have hflat := hperm.flatMap_right registering
  refine ⟨h.hellos, (hflat.map _).nodup_iff.mp h.coming, fun x hx => h.announced (hflat.mem_iff.mpr hx),
    fun pc hpc => h.ready pc (hperm.mem_iff.mpr hpc), ?_⟩
  intro worker hnot
  rw [← desk_perm s threads threads' worker hperm]
  exact h.blank worker fun h => hnot ⟨h.1, fun hmem => h.2 ((hflat.map _).mem_iff.mpr hmem)⟩

theorem roll {guard : System → Event → Prop} {p : System} (hguard : ∀ q e, guard q e → OneHello q e)
    (h : Reaches (step settings) guard System.initial p) : Roll p.shared p.threads := by
  apply system_invariant Roll _ _ _ _ h
  · exact ⟨by simp, by simp, by simp, by simp, fun _ _ => rfl⟩
  · intro s l l' hperm hinv
    exact hinv.perm hperm
  · intro p op _ hone hinv
    rcases begin_hello settings p.shared op with ⟨client, msg, n, rfl, hid, hhellos, hnext⟩ | ⟨hhellos, hnext⟩
    · have hnew : client ∉ p.shared.history.hellos.map (·.1) := hguard _ _ hone hid
      have hdesk := begin_desk settings p.shared (.onMessage client msg) p.threads
      rw [hnext] at hdesk ⊢
      constructor
      · rw [hhellos]; exact List.nodup_cons.mpr ⟨hnew, hinv.hellos⟩
      · exact List.nodup_cons.mpr ⟨fun hmem => hnew (List.map_subset _ hinv.announced hmem), hinv.coming⟩
      · rw [hhellos]; exact List.cons_subset_cons _ hinv.announced
      · exact List.forall_mem_cons.mpr ⟨trivial, hinv.ready⟩
      · intro worker hnot
        rw [hdesk]
        refine hinv.blank worker fun h => hnot ⟨?_, ?_⟩
        · rw [hhellos]; exact List.mem_cons_of_mem _ h.1
        · intro hmem
          rcases List.mem_cons.mp hmem with heq | hmem
          · obtain rfl : worker = client := heq
            exact hnew h.1
          · exact h.2 hmem
    · have hflat : ((begin settings p.shared op).2.toList ++ p.threads).flatMap registering =
          p.threads.flatMap registering := by
        rw [List.flatMap_append, List.flatMap_eq_nil_iff.mpr fun pc hpc => (hnext pc (Option.mem_toList.mp hpc)).1]
        rfl
      constructor
      · rw [hhellos]; exact hinv.hellos
      · rw [hflat]; exact hinv.coming
      · rw [hflat, hhellos]; exact hinv.announced
      · intro pc hpc
        rcases List.mem_append.mp hpc with hpc | hpc
        · exact (hnext pc (Option.mem_toList.mp hpc)).2.1
        · exact hinv.ready pc hpc
      · intro worker hnot
        rw [begin_desk]
        refine hinv.blank worker fun h => hnot ⟨?_, ?_⟩
        · rw [hhellos]; exact h.1
        · rw [hflat]; exact h.2
  · intro p thread choice pc rest s' next hreach _ _ hthreads hinv hran
    have hnext := hran.registering
    have hhellos := hran.history.2.2
    have hflat : (next.toList ++ rest).flatMap registering = rest.flatMap registering := by
      rw [List.flatMap_append, List.flatMap_eq_nil_iff.mpr fun pc hpc => (hnext pc (Option.mem_toList.mp hpc)).1]
      rfl
    have hcoming := hinv.coming
    have hannounced := hinv.announced
    rw [List.flatMap_cons] at hcoming hannounced
    rw [List.map_append] at hcoming
    constructor
    · rw [hhellos]; exact hinv.hellos
    · rw [hflat]; exact hcoming.of_append_right
    · rw [hflat, hhellos]; exact fun x hx => hannounced (List.mem_append_right _ hx)
    · intro pc' hpc'
      rcases List.mem_append.mp hpc' with hpc' | hpc'
      · exact (hnext pc' (Option.mem_toList.mp hpc')).2
      · exact hinv.ready pc' (List.mem_cons_of_mem _ hpc')
    · intro worker hnot
      unfold Arrived at hnot
      rw [hflat, hhellos] at hnot
      -- A worker that registers in this step has arrived.
      have hother : ∀ n, (worker, n) ∉ registering pc := by
        intro n hmem
        refine hnot ⟨List.mem_map_of_mem (hannounced (List.mem_append_left _ hmem)), fun hrest => ?_⟩
        exact (List.nodup_append.mp hcoming).2.2 worker (List.mem_map_of_mem hmem) worker hrest rfl
      have hblank := hinv.blank worker fun h => hnot ⟨h.1, fun hrest => h.2 (by
        rw [List.flatMap_cons, List.map_append]; exact List.mem_append_right _ hrest)⟩
      have hturn := hran.turn (fun _ => True) (taskIds hreach) hinv worker none
        (fun n hmem => absurd hmem (hother n)) (fun _ _ => trivial)
      rw [hblank] at hturn
      exact hturn.of_blank

/-- **The rule for one worker.** What every turn keeps holds of each worker that has said `Hello`. -/
theorem desk_invariant {guard : System → Event → Prop} {p : System} (wakeable : Desk → Prop)
    (Inv : UInt64 → Desk → Prop)
    (hguard : ∀ q e, guard q e → OneHello q e)
    (hwake : ∀ q thread choice pc, guard q (.run thread choice) → q.threads[thread]? = some pc →
      ∀ client ∈ wakes q.shared.server pc, wakeable (desk q.shared q.threads client))
    (hblank : ∀ threadsCount, Inv threadsCount Desk.blank)
    (hturn : ∀ threadsCount d d', Desk.Turn wakeable (some threadsCount) d d' → Inv threadsCount d →
      Inv threadsCount d')
    (h : Reaches (step settings) guard System.initial p) (worker : Nat) (threadsCount : UInt64)
    (hhello : (worker, threadsCount) ∈ p.shared.history.hellos) :
    Inv threadsCount (desk p.shared p.threads worker) := by
  revert worker threadsCount
  apply system_invariant (fun s threads => ∀ worker threadsCount,
    (worker, threadsCount) ∈ s.history.hellos → Inv threadsCount (desk s threads worker)) _ _ _ _ h
  · intro worker threadsCount hmem
    cases hmem
  · intro s l l' hperm hinv worker threadsCount hmem
    rw [← desk_perm s l l' worker hperm]
    exact hinv worker threadsCount hmem
  · intro p op hreach hone hinv worker threadsCount hmem
    rw [begin_desk]
    rcases begin_hello settings p.shared op with ⟨client, msg, n, rfl, hid, hhellos, -⟩ | ⟨hhellos, -⟩
    · rw [hhellos] at hmem
      rcases List.mem_cons.mp hmem with heq | hmem
      · cases heq
        rw [(roll hguard hreach).blank worker fun h => hguard _ _ hone hid h.1]
        exact hblank threadsCount
      · exact hinv worker threadsCount hmem
    · rw [hhellos] at hmem
      exact hinv worker threadsCount hmem
  · intro p thread choice pc rest s' next hreach hg hget hthreads hinv hran worker threadsCount hmem
    have hroll := (roll hguard hreach).perm hthreads
    rw [hran.history.2.2] at hmem
    refine hturn threadsCount _ _ (hran.turn wakeable (taskIds hreach) hroll worker (some threadsCount) ?_ ?_)
      (hinv worker threadsCount hmem)
    · intro n hn
      have hmem' := hroll.announced (List.mem_flatMap.mpr ⟨pc, List.mem_cons_self, hn⟩)
      have heq := List.inj_on_of_nodup_map hroll.hellos hmem hmem' rfl
      exact congrArg some (congrArg Prod.snd heq)
    · intro client hclient
      rw [← desk_perm p.shared _ _ client hthreads]
      exact hwake p thread choice pc hg hget client hclient

end LogGrid.Master
