import LogGrid.Base.Inevitable
import LogGrid.Master.WorkConservation
import Mathlib.Algebra.BigOperators.Group.List.Basic

/-!
# Calls return

`AssignIdleWorkers` loops until the tasks or the idle workers run out, while
other threads queue workers and put tasks back. However the threads take their
turns, each call comes to its end.
-/

open LogGrid.Runs

namespace LogGrid.Master

/-! ## The rank -/

/-- How often a thread may still add to the pending tasks. -/
def refills : Pc → Nat
  | .searchAllocate _ _ => 2
  | .searchPublish _ => 1
  | .disconnect _ => 1
  | _ => 0

/-- The sections that a thread has before it, apart from those that take a pending task. -/
def turnsLeft : Pc → Nat
  | .doneTake _ _ _ => 8
  | .doneDispatch _ _ _ => 7
  | .doneAggregate _ _ => 6
  | .doneLookup _ _ => 5
  | .doneWrite _ _ _ => 4
  | .doneCount _ => 3
  | .helloRegister _ _ => 2
  | .assignDispatch _ _ => 2
  | .helloDispatch _ _ => 1
  | .assign => 1
  | _ => 0

/-- The turns that `AssignIdleWorkers` may take for the workers in the idle queue. -/
def idleTurns (m : MasterServer) : Nat := if m.pendingTasks = [] then 0 else 2 * m.idleWorkers.length

def refillsLeft (threads : List Pc) : Nat := (threads.map refills).sum

def workLeft (m : MasterServer) (threads : List Pc) : Nat := (threads.map turnsLeft).sum + idleTurns m

/-- A step of a thread uses up a refill or a pending task, or it sends nothing and there is less work left. -/
inductive Lowered (s s' : Shared) (threads threads' : List Pc) : Prop
  | refilled (h : refillsLeft threads' < refillsLeft threads) : Lowered s s' threads threads'
  | dispatched (hrefills : refillsLeft threads' = refillsLeft threads)
      (h : s'.server.pendingTasks.length < s.server.pendingTasks.length) : Lowered s s' threads threads'
  | worked (hrefills : refillsLeft threads' = refillsLeft threads)
      (hpending : s'.server.pendingTasks = s.server.pendingTasks) (hsent : s'.sent = s.sent)
      (h : workLeft s'.server threads' < workLeft s.server threads) : Lowered s s' threads threads'

section

variable {settings : Settings} {s s' : Shared} {pc : Pc} {next : Option Pc} {rest : List Pc}

theorem refillsLeft_perm {threads threads' : List Pc} (h : threads.Perm threads') :
    refillsLeft threads = refillsLeft threads' :=
  (h.map refills).sum_eq

theorem workLeft_perm {threads threads' : List Pc} (m : MasterServer) (h : threads.Perm threads') :
    workLeft m threads = workLeft m threads' := by
  unfold workLeft
  rw [(h.map turnsLeft).sum_eq]

theorem Lowered.perm {threads threads' before after : List Pc} (h : Lowered s s' before after)
    (hbefore : threads.Perm before) (hafter : threads'.Perm after) : Lowered s s' threads threads' := by
  have hrefills := refillsLeft_perm hbefore
  have hrefills' := refillsLeft_perm hafter
  have hwork := workLeft_perm s.server hbefore
  have hwork' := workLeft_perm s'.server hafter
  cases h with
  | refilled h => exact .refilled (by omega)
  | dispatched heq h => exact .dispatched (by omega) h
  | worked heq hpending hsent h => exact .worked (by omega) hpending hsent (by omega)

theorem Lowered.refill (hrefills : (next.toList.map refills).sum < refills pc) :
    Lowered s s' (pc :: rest) (next.toList ++ rest) := by
  refine .refilled ?_
  unfold refillsLeft
  rw [List.map_append, List.sum_append, List.map_cons, List.sum_cons]
  omega

theorem Lowered.turn (hrefills : (next.toList.map refills).sum = refills pc)
    (hpending : s'.server.pendingTasks = s.server.pendingTasks) (hsent : s'.sent = s.sent)
    (hturns : (next.toList.map turnsLeft).sum + idleTurns s'.server < turnsLeft pc + idleTurns s.server) :
    Lowered s s' (pc :: rest) (next.toList ++ rest) := by
  refine .worked ?_ hpending hsent ?_
  · unfold refillsLeft
    rw [List.map_append, List.sum_append, List.map_cons, List.sum_cons, hrefills]
  · unfold workLeft
    rw [List.map_append, List.sum_append, List.map_cons, List.sum_cons]
    omega

theorem Lowered.dispatch (client : Nat) (hrefills : (next.toList.map refills).sum = refills pc)
    (hturns : (dispatch s client).2 = false → (next.toList.map turnsLeft).sum < turnsLeft pc) :
    Lowered s (dispatch s client).1 (pc :: rest) (next.toList ++ rest) := by
  unfold Master.dispatch at *
  have hspec := s.server.dispatchNextTask_spec client
  generalize s.server.dispatchNextTask client = r at hspec hturns ⊢
  cases hspec with
  | gone _ => exact .turn hrefills rfl rfl (Nat.add_lt_add_right (hturns rfl) _)
  | waiting _ _ _ _ => exact .turn hrefills rfl rfl (Nat.add_lt_add_right (hturns rfl) _)
  | queued slots hslots hpending hidle =>
    have hnone : idleTurns s.server = 0 := if_pos hpending
    refine .turn hrefills rfl rfl ?_
    rw [hnone, idleTurns, if_pos hpending]
    exact hturns rfl
  | sent slots task pendingTasks hslots hpending =>
    refine .dispatched ?_ ?_
    · unfold refillsLeft
      rw [List.map_append, List.sum_append, List.map_cons, List.sum_cons, hrefills]
    · simp only [hpending, List.length_cons, Nat.lt_succ_self]

theorem refills_helloLoop (client left : Nat) : ((helloLoop client left).toList.map refills).sum = 0 := by
  unfold helloLoop
  split <;> rfl

theorem refills_assignLoop (client left : Nat) : refills (assignLoop client left) = 0 := by
  rcases assignLoop_cases client left with h | h <;> rw [h] <;> rfl

theorem turnsLeft_assignLoop (client left : Nat) : turnsLeft (assignLoop client left) ≤ 2 := by
  rcases assignLoop_cases client left with h | h <;> rw [h] <;> simp [turnsLeft]

theorem turnsLeft_helloLoop (client left : Nat) : ((helloLoop client left).toList.map turnsLeft).sum ≤ 1 := by
  unfold helloLoop
  split <;> simp [turnsLeft]

theorem popIdleWorker_pending {m server : MasterServer} {woken : Option (Nat × UInt64)}
    (h : m.popIdleWorker = some (server, woken)) : m.pendingTasks ≠ [] := by
  intro hnone
  unfold MasterServer.popIdleWorker at h
  rw [hnone] at h
  cases h

theorem idleTurns_pop {m server : MasterServer} {woken : Option (Nat × UInt64)}
    (h : m.popIdleWorker = some (server, woken)) :
    server.pendingTasks = m.pendingTasks ∧ idleTurns m = idleTurns server + 2 := by
  have hpending := popIdleWorker_pending h
  have hspec := h ▸ m.popIdleWorker_spec
  cases hspec with
  | skip client idleWorkers hidle hslots =>
    refine ⟨rfl, ?_⟩
    simp only [idleTurns, if_neg hpending, hidle, List.length_cons]
    omega
  | wake client idleWorkers threadsCount hidle hslots =>
    refine ⟨rfl, ?_⟩
    simp only [idleTurns, if_neg hpending, hidle, List.length_cons]
    omega

/-- **Every section of a thread lowers the rank.** -/
theorem Ran.lowered {choice : Choice} (h : Ran settings choice s pc s' next) :
    Lowered s s' (pc :: rest) (next.toList ++ rest) := by
  cases h with
  | helloRegister client threadsCount =>
    refine .turn (refills_helloLoop client _) rfl rfl ?_
    have := turnsLeft_helloLoop client threadsCount.toNat
    exact Nat.add_lt_add_right (by simp only [turnsLeft]; omega) _
  | helloDispatch client left =>
    refine .dispatch client ?_ ?_
    · split
      · exact refills_helloLoop client _
      · rfl
    · intro hfalse
      rw [hfalse]
      exact Nat.one_pos
  | doneTake client taskId msg server task htake =>
    obtain ⟨-, rfl⟩ := MasterServer.takeTask_eq_some _ _ _ _ _ htake
    exact .turn rfl rfl rfl (Nat.add_lt_add_right (Nat.lt_succ_self 7) _)
  | doneDispatch client task msg => exact .dispatch client rfl fun _ => Nat.lt_succ_self 6
  | doneAggregate task msg batch server linesToWrite hdecode hadd =>
    obtain ⟨_, _, _, rfl⟩ := MasterServer.addBatch_eq_ok _ _ _ _ _ hadd
    split
    · exact .turn rfl rfl rfl (Nat.add_lt_add_right (Nat.lt_succ_self 5) _)
    · exact .turn rfl rfl rfl (Nat.add_lt_add_right (show 3 < 6 by decide) _)
  | doneWrite task fullPath lines =>
    cases choice.opens <;> exact .turn rfl rfl rfl (Nat.add_lt_add_right (Nat.lt_succ_self 3) _)
  | doneCount task =>
    unfold MasterServer.countChunk
    split <;> exact .turn rfl rfl rfl (Nat.add_lt_add_right (show 0 < 3 by decide) _)
  | searchFailed request target => exact .refill (show 0 < 2 by decide)
  | searchAllocate request target session newTasks hprepare => exact .refill (Nat.lt_succ_self 1)
  | searchPublish search => exact .refill Nat.one_pos
  | assignStop hstop => exact .turn rfl rfl rfl (Nat.add_lt_add_right Nat.one_pos _)
  | assignSkip server hpop =>
    obtain ⟨hpending, hidle⟩ := idleTurns_pop hpop
    refine .turn rfl hpending rfl ?_
    rw [hidle]
    simp only [Option.toList_some, List.map_singleton, List.sum_singleton, turnsLeft]
    omega
  | assignWake server client threadsCount hpop =>
    obtain ⟨hpending, hidle⟩ := idleTurns_pop hpop
    refine .turn ?_ hpending rfl ?_
    · rw [Option.toList_some, List.map_singleton, List.sum_singleton, refills_assignLoop]
      rfl
    · have := turnsLeft_assignLoop client threadsCount.toNat
      rw [hidle, Option.toList_some, List.map_singleton, List.sum_singleton]
      show turnsLeft (assignLoop client threadsCount.toNat) + idleTurns server < 1 + (idleTurns server + 2)
      omega
  | assignDispatch client left =>
    refine .dispatch client ?_ ?_
    · rw [Option.toList_some, List.map_singleton, List.sum_singleton]
      split
      · exact refills_assignLoop client _
      · rfl
    · intro hfalse
      rw [hfalse]
      exact Nat.lt_succ_self 1
  | disconnect client horder => exact .refill Nat.one_pos
  | unknownTask client taskId msg hnone => exact .turn rfl rfl rfl (Nat.add_lt_add_right (show 0 < 8 by decide) _)
  | batchLost task msg hlost => exact .turn rfl rfl rfl (Nat.add_lt_add_right (show 3 < 6 by decide) _)
  | sessionLost task lines hnone => exact .turn rfl rfl rfl (Nat.add_lt_add_right (show 3 < 5 by decide) _)
  | doneLookup task lines session hsession => exact .turn rfl rfl rfl (Nat.add_lt_add_right (Nat.lt_succ_self 4) _)

theorem step_lowered {p p' : System} {thread : Nat} {choice : Choice}
    (h : step settings p (.run thread choice) = some p') : Lowered p.shared p'.shared p.threads p'.threads := by
  obtain ⟨pc, rest, next, -, hthreads, hexec, hthreads'⟩ := Threads.step_run h
  exact (exec_ran settings choice _ _ pc next hexec).lowered.perm hthreads hthreads'

theorem exec_isSome (settings : Settings) (s : Shared) (pc : Pc) :
    ∃ choice, choice.opens = true ∧ (exec settings choice s pc).isSome = true := by
  cases pc with
  | disconnect client =>
    refine ⟨{ order := s.server.tasksOf client }, rfl, ?_⟩
    rw [exec, if_pos (List.Perm.refl _)]
    rfl
  | _ =>
    refine ⟨{}, rfl, ?_⟩
    simp only [exec]
    (repeat' split) <;> rfl

theorem step_run_isSome (settings : Settings) (p : System) (hne : p.threads ≠ []) :
    ∃ choice, choice.opens = true ∧ (step settings p (.run 0 choice)).isSome = true := by
  obtain ⟨pc, rest, hthreads⟩ := List.exists_cons_of_ne_nil hne
  obtain ⟨choice, hopens, hexec⟩ := exec_isSome settings p.shared pc
  refine ⟨choice, hopens, ?_⟩
  have hget : p.threads[0]? = some pc := by rw [hthreads]; rfl
  simp only [Threads.step, hget, Option.isSome_map]
  exact hexec

end

/-! ## The result -/

/-- Threads take their turns, and nobody calls. -/
def NoCall (_ : System) : Event → Prop
  | .call _ => False
  | .run _ _ => True

/-- **Every call returns**, in whatever order the threads take their turns, and then no idle worker waits for
a task that is pending. -/
theorem calls_return (settings : Settings) (p : System) (h : Reachable settings p) :
    Inevitable (step settings) NoCall (fun p' => p'.threads = [] ∧
      (p'.shared.server.pendingTasks = [] ∨ p'.shared.server.idleWorkers = [])) p := by
  refine inevitable_of_rank (before_wf (before_wf Nat.lt_wfRel.wf))
    (fun p => (refillsLeft p.threads, p.shared.server.pendingTasks.length, workLeft p.shared.server p.threads))
    (Reachable settings) ?_ ?_ ?_ p h
  · intro p e p' hreach _ hstep
    exact hreach.step e trivial hstep
  · intro p e p' _ hturn hstep
    cases e with
    | call op => exact absurd hturn id
    | run thread choice =>
      cases step_lowered hstep with
      | refilled h => exact before_of_lt h
      | dispatched hrefills h => exact before_of_le hrefills.le (before_of_lt h)
      | worked hrefills hpending _ h =>
        exact before_of_le hrefills.le (before_of_le (by rw [hpending]) h)
  · intro p hreach hrest
    have hthreads : p.threads = [] := by
      by_contra hne
      obtain ⟨choice, -, hsome⟩ := step_run_isSome settings p hne
      rw [hrest (.run 0 choice) trivial] at hsome
      cases hsome
    refine ⟨hthreads, ?_⟩
    by_contra hboth
    rw [not_or] at hboth
    obtain ⟨pc, hpc, -⟩ := attended hreach hboth.1 hboth.2
    rw [hthreads] at hpc
    cases hpc

theorem calls_return_two_chunks : ∃ p', Reaches (step {}) NoCall afterTwoChunks p' ∧ p'.threads = [] := by
  obtain ⟨p', hreach, -, hthreads, -⟩ :=
    (calls_return {} afterTwoChunks afterTwoChunks_reachable).possible
  exact ⟨p', hreach, hthreads⟩

end LogGrid.Master
