import LogGrid.Base.Runs
import Mathlib.Data.List.Perm.Basic

/-!
# `ThreadPool`

The workers share a queue under a mutex and wait on a condition variable. One
step is a critical section, a call of `notify_one` or `notify_all`, or the run of
a task; a worker may also wake up for no reason.
-/

open LogGrid.Runs

namespace LogGrid.ThreadPool

variable {Task : Type}

/-! ## Workers -/

/-- What a worker does next: lock the mutex and test what it waits for, wait for a notification, or run
the task it popped. -/
inductive Worker (Task : Type)
  | locking
  | waiting
  | running (task : Task)
  | exited
  deriving DecidableEq

namespace Worker

def isWaiting : Worker Task → Bool
  | .waiting => true
  | _ => false

/-- A notification, which only a worker that waits takes notice of. -/
def wake : Worker Task → Worker Task
  | .waiting => .locking
  | worker => worker

theorem wake_ne_waiting (worker : Worker Task) : worker.wake ≠ .waiting := by
  cases worker <;> simp [wake]

theorem wake_eq_exited (worker : Worker Task) : worker.wake = .exited ↔ worker = .exited := by
  cases worker <;> simp [wake]

/-- The task it popped and has not run, with its number. -/
def held (number : Nat) : Worker Task → List (Nat × Task)
  | .running task => [(number, task)]
  | _ => []

end Worker

/-- The fields of the pool, the notifications that are still to come, and what has happened so far. -/
structure Pool (Task : Type) where
  taskQueue : List Task := []
  stop : Bool := false
  workerThreads : List (Worker Task)
  notifyOnes : Nat := 0
  notifyAll : Bool := false
  enqueued : List Task := []
  popped : List (Nat × Task) := []
  ran : List (Nat × Task) := []

def Pool.create (numThreads : Nat) : Pool Task := { workerThreads := List.replicate numThreads .locking }

/-! ## Steps -/

inductive Event (Task : Type)
  | push (task : Task)
  | notifyOne (woken : Nat)
  | stop
  | notifyAll
  | spurious (worker : Nat)
  | turn (worker : Nat)

namespace Pool

def setWorker (p : Pool Task) (number : Nat) (worker : Worker Task) : Pool Task :=
  { p with workerThreads := p.workerThreads.set number worker }

/-- The critical section of a worker, from the test of `wait` on. -/
def popTask (p : Pool Task) (number : Nat) : Pool Task :=
  match p.taskQueue with
  | [] => if p.stop then p.setWorker number .exited else p.setWorker number .waiting
  | task :: taskQueue =>
    { p.setWorker number (.running task) with taskQueue, popped := p.popped ++ [(number, task)] }

/-- Nothing is enqueued once the destructor runs. `notify_one` wakes any worker that waits. -/
def step (p : Pool Task) : Event Task → Option (Pool Task)
  | .push task =>
    if p.stop then none
    else some { p with
      taskQueue := p.taskQueue ++ [task]
      notifyOnes := p.notifyOnes + 1
      enqueued := p.enqueued ++ [task] }
  | .notifyOne woken =>
    if p.notifyOnes = 0 then none
    else if p.workerThreads.any Worker.isWaiting then
      match p.workerThreads[woken]? with
      | some .waiting => some { p.setWorker woken .locking with notifyOnes := p.notifyOnes - 1 }
      | _ => none
    else some { p with notifyOnes := p.notifyOnes - 1 }
  | .stop => if p.stop then none else some { p with stop := true, notifyAll := true }
  | .notifyAll =>
    if p.notifyAll then some { p with notifyAll := false, workerThreads := p.workerThreads.map Worker.wake }
    else none
  | .spurious worker =>
    match p.workerThreads[worker]? with
    | some .waiting => some (p.setWorker worker .locking)
    | _ => none
  | .turn worker =>
    match p.workerThreads[worker]? with
    | some .locking => some (p.popTask worker)
    | some (.running task) => some { p.setWorker worker .locking with ran := p.ran ++ [(worker, task)] }
    | _ => none

/-- What a step can do. -/
inductive Stepped (p : Pool Task) : Pool Task → Prop
  | push (task : Task) (hstop : p.stop = false) : Stepped p { p with
      taskQueue := p.taskQueue ++ [task]
      notifyOnes := p.notifyOnes + 1
      enqueued := p.enqueued ++ [task] }
  | woken (number notifyOnes : Nat) (h : p.workerThreads[number]? = some .waiting) :
      Stepped p { p.setWorker number .locking with notifyOnes }
  | unheard (h : ∀ worker ∈ p.workerThreads, worker ≠ .waiting) :
      Stepped p { p with notifyOnes := p.notifyOnes - 1 }
  | stop : Stepped p { p with stop := true, notifyAll := true }
  | notifyAll : Stepped p { p with notifyAll := false, workerThreads := p.workerThreads.map Worker.wake }
  | wait (number : Nat) (h : p.workerThreads[number]? = some .locking) (hqueue : p.taskQueue = [])
      (hstop : p.stop = false) : Stepped p (p.setWorker number .waiting)
  | exit (number : Nat) (h : p.workerThreads[number]? = some .locking) (hqueue : p.taskQueue = [])
      (hstop : p.stop = true) : Stepped p (p.setWorker number .exited)
  | pop (number : Nat) (task : Task) (taskQueue : List Task) (h : p.workerThreads[number]? = some .locking)
      (hqueue : p.taskQueue = task :: taskQueue) :
      Stepped p { p.setWorker number (.running task) with taskQueue, popped := p.popped ++ [(number, task)] }
  | ran (number : Nat) (task : Task) (h : p.workerThreads[number]? = some (.running task)) :
      Stepped p { p.setWorker number .locking with ran := p.ran ++ [(number, task)] }

theorem step_stepped (p p' : Pool Task) (e : Event Task) (h : p.step e = some p') : Stepped p p' := by
  unfold step at h
  cases e with
  | push task =>
    simp only at h
    split at h
    · cases h
    · rename_i hstop
      cases h
      exact .push task (eq_false_of_ne_true hstop)
  | notifyOne woken =>
    simp only at h
    split at h
    · cases h
    · split at h
      · split at h
        · rename_i hwaiting
          cases h
          exact .woken woken _ hwaiting
        · cases h
      · rename_i hnone
        cases h
        refine .unheard ?_
        rintro worker hmem rfl
        exact hnone (List.any_eq_true.mpr ⟨_, hmem, rfl⟩)
  | stop =>
    simp only at h
    split at h
    · cases h
    · cases h
      exact .stop
  | notifyAll =>
    simp only at h
    split at h
    · cases h
      exact .notifyAll
    · cases h
  | spurious worker =>
    simp only at h
    split at h
    · rename_i hwaiting
      cases h
      exact .woken worker p.notifyOnes hwaiting
    · cases h
  | turn worker =>
    simp only at h
    split at h
    · rename_i hlocking
      cases h
      unfold popTask
      split
      · rename_i hqueue
        split
        · rename_i hstop
          exact .exit worker hlocking hqueue hstop
        · rename_i hstop
          exact .wait worker hlocking hqueue (eq_false_of_ne_true hstop)
      · rename_i task taskQueue hqueue
        exact .pop worker task taskQueue hlocking hqueue
    · rename_i task hrunning
      cases h
      exact .ran worker task hrunning
    · cases h

theorem step_wake {p p' : Pool Task} {number : Nat}
    (h : p.step (.notifyOne number) = some p' ∨ p.step (.spurious number) = some p') :
    ∃ workerThreads notifyOnes, p' = { p with workerThreads, notifyOnes } := by
  rcases h with h | h
  · simp only [step] at h
    split at h
    · cases h
    · split at h
      · split at h
        · cases h
          exact ⟨_, _, rfl⟩
        · cases h
      · cases h
        exact ⟨_, _, rfl⟩
  · simp only [step] at h
    split at h
    · cases h
      exact ⟨_, p.notifyOnes, rfl⟩
    · cases h

theorem step_push {p p' : Pool Task} {task : Task} (h : p.step (.push task) = some p') : p' = { p with
    taskQueue := p.taskQueue ++ [task]
    notifyOnes := p.notifyOnes + 1
    enqueued := p.enqueued ++ [task] } := by
  simp only [step] at h
  split at h
  · cases h
  · cases h
    rfl

theorem popTask_eq (p : Pool Task) (number : Nat) :
    ∃ workerThreads taskQueue popped, p.popTask number = { p with workerThreads, taskQueue, popped } := by
  unfold popTask
  split
  · split <;> exact ⟨_, p.taskQueue, p.popped, rfl⟩
  · exact ⟨_, _, _, rfl⟩

/-! ## Tasks -/

/-- The tasks in the hands of workers that are numbered from `first` on. -/
def inHand (first : Nat) : List (Worker Task) → List (Nat × Task)
  | [] => []
  | worker :: workers => worker.held first ++ inHand (first + 1) workers

theorem inHand_set (first number : Nat) (workers : List (Worker Task)) (worker worker' : Worker Task)
    (h : workers[number]? = some worker) :
    (worker'.held (first + number) ++ inHand first workers).Perm
      (worker.held (first + number) ++ inHand first (workers.set number worker')) := by
  induction workers generalizing first number with
  | nil => cases h
  | cons head workers ih =>
    cases number with
    | zero =>
      cases h
      simp only [List.set_cons_zero, inHand, Nat.add_zero]
      exact List.perm_append_comm_assoc _ _ _
    | succ number =>
      have ih := ih (first + 1) number h
      rw [show first + 1 + number = first + (number + 1) by omega] at ih
      simp only [List.set_cons_succ, inHand]
      refine (List.perm_append_comm_assoc _ _ _).trans ?_
      exact (ih.append_left _).trans (List.perm_append_comm_assoc _ _ _)

theorem inHand_wake (first : Nat) (workers : List (Worker Task)) :
    inHand first (workers.map Worker.wake) = inHand first workers := by
  induction workers generalizing first with
  | nil => rfl
  | cons worker workers ih =>
    rw [List.map_cons, inHand, inHand, ih]
    cases worker <;> rfl

theorem inHand_exited (first : Nat) (workers : List (Worker Task)) (h : ∀ worker ∈ workers, worker = .exited) :
    inHand first workers = [] := by
  induction workers generalizing first with
  | nil => rfl
  | cons worker workers ih =>
    obtain ⟨rfl, hrest⟩ := List.forall_mem_cons.mp h
    rw [inHand, ih (first + 1) hrest]
    rfl

/-- What was enqueued was popped or waits in order, and what was popped was run or is in a hand. -/
structure Kept (p : Pool Task) : Prop where
  order : p.popped.map Prod.snd ++ p.taskQueue = p.enqueued
  hands : p.popped.Perm (p.ran ++ inHand 0 p.workerThreads)
  numbers : ∀ x ∈ p.popped, x.1 < p.workerThreads.length

theorem inHand_idle (p : Pool Task) (number : Nat) (worker worker' : Worker Task)
    (h : p.workerThreads[number]? = some worker) (hbefore : worker.held number = [])
    (hafter : worker'.held number = []) :
    (inHand 0 p.workerThreads).Perm (inHand 0 (p.setWorker number worker').workerThreads) := by
  have := inHand_set 0 number p.workerThreads worker worker' h
  rwa [Nat.zero_add, hbefore, hafter] at this

theorem Kept.stepped {p p' : Pool Task} (hkept : Kept p) (h : Stepped p p') : Kept p' := by
  obtain ⟨horder, hhands, hnumbers⟩ := hkept
  cases h with
  | push task hstop => exact ⟨by rw [← horder]; simp, hhands, hnumbers⟩
  | woken number notifyOnes h =>
    exact ⟨horder, hhands.trans ((inHand_idle p number _ .locking h rfl rfl).append_left _),
      by simpa [setWorker] using hnumbers⟩
  | unheard h => exact ⟨horder, hhands, hnumbers⟩
  | stop => exact ⟨horder, hhands, hnumbers⟩
  | notifyAll => exact ⟨horder, by simpa [inHand_wake] using hhands, by simpa using hnumbers⟩
  | wait number h hqueue hstop =>
    exact ⟨horder, hhands.trans ((inHand_idle p number _ .waiting h rfl rfl).append_left _),
      by simpa [setWorker] using hnumbers⟩
  | exit number h hqueue hstop =>
    exact ⟨horder, hhands.trans ((inHand_idle p number _ .exited h rfl rfl).append_left _),
      by simpa [setWorker] using hnumbers⟩
  | pop number task taskQueue h hqueue =>
    have hset := inHand_set 0 number p.workerThreads _ (.running task) h
    rw [Nat.zero_add] at hset
    refine ⟨?_, ?_, ?_⟩
    · show (p.popped ++ [(number, task)]).map Prod.snd ++ taskQueue = p.enqueued
      rw [← horder, hqueue]
      simp
    · have hpopped :
          (p.popped ++ [(number, task)]).Perm ([(number, task)] ++ (p.ran ++ inHand 0 p.workerThreads)) :=
        List.perm_append_comm.trans (hhands.append_left _)
      refine hpopped.trans ?_
      exact (List.perm_append_comm_assoc _ _ _).trans (hset.append_left _)
    · intro x hx
      simp only [setWorker, List.length_set]
      rcases List.mem_append.mp hx with hx | hx
      · exact hnumbers x hx
      · rw [List.mem_singleton.mp hx]
        exact (List.getElem?_eq_some_iff.mp h).1
  | ran number task h =>
    have hset := inHand_set 0 number p.workerThreads _ .locking h
    rw [Nat.zero_add] at hset
    refine ⟨horder, ?_, by simpa [setWorker] using hnumbers⟩
    rw [List.append_assoc]
    exact hhands.trans (hset.append_left _)

theorem inHand_none (first : Nat) (workers : List (Worker Task))
    (h : ∀ worker ∈ workers, ∀ task, worker ≠ .running task) : inHand first workers = [] := by
  induction workers generalizing first with
  | nil => rfl
  | cons worker workers ih =>
    obtain ⟨hworker, hrest⟩ := List.forall_mem_cons.mp h
    rw [inHand, ih (first + 1) hrest, List.append_nil]
    cases worker with
    | running task => exact absurd rfl (hworker task)
    | _ => rfl

theorem Kept.ran {p : Pool Task} (h : Kept p) : (p.ran.map Prod.snd).Subperm p.enqueued := by
  have hran := h.hands.map Prod.snd
  rw [List.map_append] at hran
  rw [← h.order]
  exact ((List.sublist_append_left _ _).subperm.trans hran.symm.subperm).trans
    (List.sublist_append_left _ _).subperm

/-! ## Wake-ups -/

/-- A worker leaves only when it is told to and nothing is left; once the workers are told, none waits;
and a task in the queue has a worker that comes to it, or a notification to come. -/
structure Wakeful (p : Pool Task) : Prop where
  exited : Worker.exited ∈ p.workerThreads → p.stop = true ∧ p.taskQueue = []
  stopped : p.stop = true → p.notifyAll = false → Worker.waiting ∉ p.workerThreads
  noticed : p.taskQueue ≠ [] →
    (∃ worker ∈ p.workerThreads, worker ≠ .waiting ∧ worker ≠ .exited) ∨ 0 < p.notifyOnes ∨ p.notifyAll = true

theorem mem_setWorker {p : Pool Task} {number : Nat} {worker worker' : Worker Task}
    (h : worker' ∈ (p.setWorker number worker).workerThreads) : worker' ∈ p.workerThreads ∨ worker' = worker :=
  List.mem_or_eq_of_mem_set h

theorem setWorker_mem {p : Pool Task} {number : Nat} {worker : Worker Task} (worker' : Worker Task)
    (h : p.workerThreads[number]? = some worker) : worker' ∈ (p.setWorker number worker').workerThreads :=
  List.mem_set (List.getElem?_eq_some_iff.mp h).1 worker'

theorem Wakeful.stepped {p p' : Pool Task} (hwakeful : Wakeful p) (hworkers : p.workerThreads ≠ [])
    (h : Stepped p p') : Wakeful p' := by
  obtain ⟨hexited, hstopped, hnoticed⟩ := hwakeful
  cases h with
  | push task hstop =>
    refine ⟨?_, hstopped, fun _ => Or.inr (Or.inl (Nat.succ_pos _))⟩
    intro hmem
    rw [hstop] at hexited
    cases (hexited hmem).1
  | woken number notifyOnes h =>
    refine ⟨?_, ?_, fun _ => Or.inl ⟨.locking, setWorker_mem .locking h, by simp, by simp⟩⟩
    · intro hmem
      rcases mem_setWorker hmem with hmem | heq
      · exact hexited hmem
      · cases heq
    · intro hstop hall hmem
      exact hstopped hstop hall (List.mem_of_getElem? h)
  | unheard h =>
    refine ⟨hexited, hstopped, ?_⟩
    intro hqueue
    -- Nobody waits, and with a task in the queue nobody has left.
    obtain ⟨worker, hmem⟩ := List.exists_mem_of_ne_nil _ hworkers
    refine Or.inl ⟨worker, hmem, h worker hmem, ?_⟩
    rintro rfl
    exact hqueue (hexited hmem).2
  | stop =>
    refine ⟨fun hmem => ⟨rfl, (hexited hmem).2⟩, ?_, fun _ => Or.inr (Or.inr rfl)⟩
    rintro - hall
    cases hall
  | notifyAll =>
    refine ⟨?_, ?_, ?_⟩
    · intro hmem
      obtain ⟨worker, hmem, heq⟩ := List.mem_map.mp hmem
      exact hexited ((Worker.wake_eq_exited worker).mp heq ▸ hmem)
    · intro _ _ hmem
      obtain ⟨worker, -, heq⟩ := List.mem_map.mp hmem
      exact worker.wake_ne_waiting heq
    · intro hqueue
      obtain ⟨worker, hmem⟩ := List.exists_mem_of_ne_nil _ hworkers
      refine Or.inl ⟨worker.wake, List.mem_map_of_mem hmem, worker.wake_ne_waiting, ?_⟩
      rw [ne_eq, Worker.wake_eq_exited]
      rintro rfl
      exact hqueue (hexited hmem).2
  | wait number h hqueue hstop =>
    refine ⟨?_, ?_, fun hne => absurd hqueue hne⟩
    · intro hmem
      rcases mem_setWorker hmem with hmem | heq
      · exact hexited hmem
      · cases heq
    · intro htold
      rw [show p.stop = true from htold] at hstop
      cases hstop
  | exit number h hqueue hstop =>
    refine ⟨fun _ => ⟨hstop, hqueue⟩, ?_, fun hne => absurd hqueue hne⟩
    intro htold hall hmem
    rcases mem_setWorker hmem with hmem | heq
    · exact hstopped htold hall hmem
    · cases heq
  | pop number task taskQueue h hqueue =>
    refine ⟨?_, ?_, fun _ => Or.inl ⟨.running task, setWorker_mem _ h, by simp, by simp⟩⟩
    · intro hmem
      rcases mem_setWorker hmem with hmem | heq
      · rw [hqueue] at hexited
        cases (hexited hmem).2
      · cases heq
    · intro htold hall hmem
      rcases mem_setWorker hmem with hmem | heq
      · exact hstopped htold hall hmem
      · cases heq
  | ran number task h =>
    refine ⟨?_, ?_, fun _ => Or.inl ⟨.locking, setWorker_mem _ h, by simp, by simp⟩⟩
    · intro hmem
      rcases mem_setWorker hmem with hmem | heq
      · exact hexited hmem
      · cases heq
    · intro htold hall hmem
      rcases mem_setWorker hmem with hmem | heq
      · exact hstopped htold hall hmem
      · cases heq

theorem Stepped.workers {p p' : Pool Task} (h : Stepped p p') :
    p'.workerThreads.length = p.workerThreads.length := by
  cases h with
  | notifyAll => exact List.length_map _
  | push task hstop => rfl
  | unheard h => rfl
  | stop => rfl
  | _ => exact List.length_set

/-- A pool that is not told to stop, and where no notification is to come and no worker has a turn, has run all
its tasks. -/
theorem ran_all {p : Pool Task} (hkept : Kept p) (hwakeful : Wakeful p)
    (hnone : p.notifyOnes = 0 ∧ p.notifyAll = false) (hrest : ∀ number, p.step (.turn number) = none) :
    (p.ran.map Prod.snd).Perm p.enqueued := by
  have hidle : ∀ worker ∈ p.workerThreads, worker ≠ .locking ∧ ∀ task, worker ≠ .running task := by
    intro worker hmem
    obtain ⟨number, hnumber⟩ := List.mem_iff_getElem?.mp hmem
    have hturn := hrest number
    simp only [step, hnumber] at hturn
    constructor
    · rintro rfl
      cases hturn
    · rintro task rfl
      cases hturn
  have hqueue : p.taskQueue = [] := by
    by_contra hqueue
    rcases hwakeful.noticed hqueue with ⟨worker, hmem, hawake, hleft⟩ | hpos | hall
    · obtain ⟨hlocking, hrunning⟩ := hidle worker hmem
      cases worker with
      | locking => exact hlocking rfl
      | waiting => exact hawake rfl
      | running task => exact hrunning task rfl
      | exited => exact hleft rfl
    · omega
    · rw [hnone.2] at hall
      cases hall
  have hhands := hkept.hands
  rw [inHand_none 0 p.workerThreads fun worker hmem => (hidle worker hmem).2, List.append_nil] at hhands
  have horder := hkept.order
  rw [hqueue, List.append_nil] at horder
  exact horder ▸ (hhands.symm.map Prod.snd)

/-- What holds in every state of a pool of `numThreads` workers. -/
structure Sound (numThreads : Nat) (p : Pool Task) : Prop where
  workers : p.workerThreads.length = numThreads
  kept : Kept p
  wakeful : Wakeful p

theorem inHand_create (first numThreads : Nat) :
    inHand first (List.replicate numThreads (Worker.locking : Worker Task)) = [] := by
  induction numThreads generalizing first with
  | zero => rfl
  | succ numThreads ih =>
    rw [List.replicate_succ, inHand, ih]
    rfl

theorem sound (numThreads : Nat) (hsome : 0 < numThreads) (p : Pool Task)
    (h : Reaches step Any (create numThreads) p) : Sound numThreads p := by
  refine h.invariant (Sound numThreads) ?_ ?_
  · refine ⟨List.length_replicate, ⟨rfl, ?_, by simp [create]⟩, ⟨?_, ?_, by simp [create]⟩⟩
    · simp [create, inHand_create]
    · intro hmem
      cases List.eq_of_mem_replicate hmem
    · intro hstop
      cases hstop
  · intro p e p' _ hsound _ hstep
    have hstepped := step_stepped p p' e hstep
    refine ⟨hstepped.workers.trans hsound.workers, hsound.kept.stepped hstepped,
      hsound.wakeful.stepped ?_ hstepped⟩
    apply List.ne_nil_of_length_pos
    rw [hsound.workers]
    exact hsome

/-- Every worker that has not left waits, and no notification is to come. -/
def Stuck (p : Pool Task) : Prop :=
  (∃ worker ∈ p.workerThreads, worker ≠ .exited) ∧
    (∀ worker ∈ p.workerThreads, worker ≠ .exited → worker = .waiting) ∧ p.notifyOnes = 0 ∧ p.notifyAll = false

/-- **Every task is run exactly once.** Tasks are popped in the order they were enqueued, each by one worker.
The pool is never stuck with a task in the queue or with the order to stop. When all workers have left, what
was run is what was enqueued. -/
theorem every_task_once (numThreads : Nat) (hsome : 0 < numThreads) (p : Pool Task)
    (h : Reaches step Any (create numThreads) p) :
    (p.popped.map Prod.snd <+: p.enqueued ∧ ∀ x ∈ p.popped, x.1 < numThreads) ∧
      (p.taskQueue ≠ [] ∨ p.stop = true → ¬ Stuck p) ∧
      ((∀ worker ∈ p.workerThreads, worker = .exited) →
        p.ran.Perm p.popped ∧ p.popped.map Prod.snd = p.enqueued ∧ (p.ran.map Prod.snd).Perm p.enqueued) := by
  obtain ⟨hworkers, hkept, hwakeful⟩ := sound numThreads hsome p h
  refine ⟨⟨⟨p.taskQueue, hkept.order⟩, hworkers ▸ hkept.numbers⟩, ?_, ?_⟩
  · rintro hwork ⟨⟨worker, hmem, hleft⟩, hwaiting, hnone, hall⟩
    rcases hwork with hqueue | hstop
    · rcases hwakeful.noticed hqueue with ⟨worker, hmem, hawake, hleft⟩ | hpos | htold
      · exact hawake (hwaiting worker hmem hleft)
      · omega
      · rw [hall] at htold
        cases htold
    · exact hwakeful.stopped hstop hall (hwaiting worker hmem hleft ▸ hmem)
  · intro hexited
    have hhands := hkept.hands
    rw [inHand_exited 0 p.workerThreads hexited, List.append_nil] at hhands
    have hne : p.workerThreads ≠ [] := List.ne_nil_of_length_pos (by omega)
    obtain ⟨worker, hmem⟩ := List.exists_mem_of_ne_nil _ hne
    have hqueue := (hwakeful.exited (hexited worker hmem ▸ hmem)).2
    have horder := hkept.order
    rw [hqueue, List.append_nil] at horder
    exact ⟨hhands.symm, horder, horder ▸ (hhands.symm.map Prod.snd)⟩

/-- Two workers, three tasks, a spurious wake-up and a stop that overtakes the last task. -/
def twoWorkers : List (Event Nat) :=
  [.turn 0, .turn 1, .push 7, .spurious 0, .turn 0, .notifyOne 1, .turn 1, .turn 0, .push 8, .push 9, .turn 0,
    .notifyOne 1, .stop, .turn 1, .notifyOne 0, .notifyAll, .turn 0, .turn 0, .turn 1, .turn 1]

def afterTwoWorkers : Pool Nat := Runs.after step Any (create 2) twoWorkers

theorem every_task_once_two_workers :
    (∀ worker ∈ afterTwoWorkers.workerThreads, worker = .exited) ∧
    (afterTwoWorkers.ran.map Prod.snd).Perm [7, 8, 9] := by
  have hreach : Reaches step Any (create 2) afterTwoWorkers := Runs.reaches_after twoWorkers .start (by decide)
  have hexited : ∀ worker ∈ afterTwoWorkers.workerThreads, worker = .exited := by decide
  have henqueued : afterTwoWorkers.enqueued = [7, 8, 9] := by decide
  obtain ⟨-, -, hran⟩ := every_task_once 2 (by decide) afterTwoWorkers hreach
  exact ⟨hexited, henqueued ▸ (hran hexited).2.2⟩

end Pool

end LogGrid.ThreadPool
