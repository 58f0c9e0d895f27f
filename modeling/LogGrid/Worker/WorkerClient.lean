import LogGrid.BatchCodec
import LogGrid.Worker.FileProcessor

/-!
# `WorkerClient`

A worker answers a task with the batch that `SearchTask` makes of it.
-/

open LogGrid.StandardLayout LogGrid.BatchCodec LogGrid.FileProcessor

namespace LogGrid.WorkerClient

/-- What the worker sends when the job for a task has run. -/
def answer (host : Host) (task : TaskPayload) : Message :=
  taskDoneMessage { searchTask host task task.maxResults with
    searchId := UInt64.ofNat task.searchId
    taskId := UInt64.ofNat task.taskId }

/-- `OnMessage`, with the answer that the job it starts will send. -/
def onMessage (host : Host) (msg : Message) : Option Message :=
  if msg.header.id = LogSearchMsg.serverSearchTask.value then
    match msg.pop TaskPayload with
    | .error _ => none
    | .ok (task, _) => some (answer host task)
  else none

/-- What the master has left of an answer when it has taken the task id off. -/
def AnswerRest (host : Host) (task : TaskPayload) (msg : Message) : Prop :=
  (answer host task).pop UInt64 = .ok (UInt64.ofNat task.taskId, msg)

theorem answer_body (host : Host) (task : TaskPayload) :
    (answer host task).body = (((encodeLines (searchTask host task task.maxResults).lines ++
      toBytes (searchTask host task task.maxResults).linesFound) ++
      toBytes (searchTask host task task.maxResults).totalMatches) ++ toBytes (UInt64.ofNat task.searchId)) ++
      toBytes (UInt64.ofNat task.taskId) := rfl

theorem answer_pop (host : Host) (task : TaskPayload) : ∃ msg, AnswerRest host task msg :=
  ⟨_, Message.pop_of_body _ _ _ (answer_body host task) trivial⟩

theorem deserialize_answer (host : Host) (task : TaskPayload) (msg : Message) (h : AnswerRest host task msg)
    (hcount : (searchTask host task task.maxResults).linesFound.toNat =
      (searchTask host task task.maxResults).lines.length)
    (hlines : ∀ line ∈ (searchTask host task task.maxResults).lines, line.length < 2 ^ 32) :
    ∃ reads, deserializeBatch msg = .ok ({ searchTask host task task.maxResults with
      searchId := UInt64.ofNat task.searchId, taskId := 0 }, reads) := by
  have hpop := Message.pop_of_body (answer host task) _ _ (answer_body host task) trivial
  rw [AnswerRest, hpop, Except.ok.injEq, Prod.mk.injEq] at h
  obtain ⟨-, rfl⟩ := h
  exact ⟨_, deserializeBatch_of_body _ { searchTask host task task.maxResults with
    searchId := UInt64.ofNat task.searchId, taskId := UInt64.ofNat task.taskId } rfl hcount hlines⟩

end LogGrid.WorkerClient
