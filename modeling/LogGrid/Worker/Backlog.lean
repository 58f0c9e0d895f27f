import LogGrid.Base.Inevitable
import LogGrid.Net.Backlog
import LogGrid.Worker.WorkerNode

/-!
# The backlog of a worker

What a worker has before it, counted in steps: to connect, to send what was
posted, to wake its threads and run its tasks. A message counts the steps it
takes on its way to the master and there.
-/

open LogGrid.Runs LogGrid.Net LogGrid.Net.Link LogGrid.FileProcessor

namespace LogGrid

/-! ## The pool -/

namespace ThreadPool

variable {Task : Type} {p p' : Pool Task} {number : Nat}

def Worker.load : Worker Task → Nat
  | .locking => 1
  | .running _ => 16
  | .waiting | .exited => 0

def Pool.load (p : Pool Task) : Nat :=
  16 * p.taskQueue.length + 2 * p.notifyOnes + (p.workerThreads.map Worker.load).sum

theorem Pool.load_push {task : Task} (h : p.step (.push task) = some p') : p'.load = p.load + 18 := by
  obtain rfl := step_push h
  simp only [load, List.length_append, List.length_singleton]
  omega

theorem Pool.load_notifyOne (h : p.step (.notifyOne number) = some p') : p'.load < p.load := by
  simp only [step] at h
  split at h
  · cases h
  · rename_i hpos
    split at h
    · split at h
      · rename_i hwaiting
        cases h
        have hsum := sum_map_set Worker.load hwaiting .locking
        simp only [load, setWorker, Worker.load] at hsum ⊢
        omega
      · cases h
    · cases h
      simp only [load]
      omega

theorem Pool.load_popTask (h : p.workerThreads[number]? = some .locking) : (p.popTask number).load < p.load := by
  have hsum := sum_map_set Worker.load h
  unfold popTask
  split
  · split
    · have := hsum .exited
      simp only [load, setWorker, Worker.load] at this ⊢
      omega
    · have := hsum .waiting
      simp only [load, setWorker, Worker.load] at this ⊢
      omega
  · rename_i task taskQueue hqueue
    have := hsum (.running task)
    simp only [load, setWorker, hqueue, List.length_cons, Worker.load] at this ⊢
    omega

theorem Pool.load_ran {task : Task} (h : p.workerThreads[number]? = some (.running task)) :
    (p.setWorker number .locking).load + 15 = p.load := by
  have hsum := sum_map_set Worker.load h .locking
  simp only [load, setWorker, Worker.load] at hsum ⊢
  omega

end ThreadPool

/-! ## The process -/

namespace WorkerNode

variable {host : Host} {n n' : WorkerNode}

def load (n : WorkerNode) : Nat := (if n.connecting then 15 else 0) + 14 * n.posted.length + n.threadPool.load

theorem load_send (n : WorkerNode) (msg : Message) : (n.send msg).load ≤ n.load + 14 := by
  unfold send
  split
  · simp only [load, List.length_append, List.length_singleton]
    omega
  · omega

theorem send_frame (n : WorkerNode) (msg : Message) : (n.send msg).connection = n.connection ∧
    (n.send msg).sent = n.sent ∧ (n.send msg).received = n.received := by
  unfold send
  split <;> exact ⟨rfl, rfl, rfl⟩

theorem load_handled {msg : Message} (h : Handled n msg n') : n'.load ≤ n.load + 18 := by
  cases h with
  | task task threadPool htask hpush =>
    have hload := ThreadPool.Pool.load_push hpush
    simp only [load, hload]
    omega
  | other shouldDisconnect terminated htask hfinished hmalformed => exact Nat.le_add_right _ _

end WorkerNode

end LogGrid
