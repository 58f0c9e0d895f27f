import LogGrid.Base.Runs
import Mathlib.Algebra.Order.BigOperators.Group.List
import Mathlib.Algebra.Order.Ring.Nat
import Mathlib.Data.List.Flatten
import Mathlib.Logic.Function.Basic

/-!
# What a search service is for

A search is published with all its chunks at once, and each chunk is answered at
most once. What the service has to say about a search is what the chunks that
were answered have in them.
-/

open LogGrid.Runs

namespace LogGrid

/-- A search with its limit of lines, its chunks, and those of them that were answered, the last one first. -/
@[ext] structure Job (Chunk : Type) where
  limit : Nat
  chunks : List Chunk
  answered : List Chunk
  once : answered.Subperm chunks

namespace Job

variable {Chunk Line : Type}

def publish (limit : Nat) (chunks : List Chunk) : Job Chunk := ⟨limit, chunks, [], List.nil_subperm⟩

theorem answer_once [DecidableEq Chunk] (job : Job Chunk) {chunk : Chunk}
    (h : job.answered.count chunk < job.chunks.count chunk) : (chunk :: job.answered).Subperm job.chunks := by
  rw [List.subperm_ext_iff]
  intro other _
  have hle := job.once.count_le other
  rw [List.count_cons]
  split
  · rename_i heq
    obtain rfl : chunk = other := by simpa using heq
    exact h
  · exact hle

def answer [DecidableEq Chunk] (job : Job Chunk) (chunk : Chunk)
    (h : job.answered.count chunk < job.chunks.count chunk) : Job Chunk :=
  { job with answered := chunk :: job.answered, once := job.answer_once h }

/-! ## What was found -/

variable (found : Chunk → List Line) (job : Job Chunk)

def total : Nat := (job.answered.map fun chunk => (found chunk).length).sum

/-- An answer brings as many lines as the limit allows. -/
def lines : List Line := job.answered.flatMap fun chunk => (found chunk).take job.limit

def all : List Line := job.chunks.flatMap found

theorem total_le : job.total found ≤ (job.all found).length := by
  obtain ⟨chunks, hperm, hsub⟩ := job.once
  unfold total all
  rw [List.length_flatMap, ← (hperm.map fun chunk => (found chunk).length).sum_eq]
  exact (hsub.map _).sum_le_sum fun _ _ => Nat.zero_le _

theorem lines_subperm : (job.lines found).Subperm (job.all found) := by
  obtain ⟨chunks, hperm, hsub⟩ := job.once
  have hlines : (job.lines found).Subperm (job.chunks.flatMap fun chunk => (found chunk).take job.limit) :=
    ⟨_, hperm.flatMap_right _, hsub.flatMap _⟩
  exact hlines.trans (List.Sublist.flatMap_right _ fun chunk _ => List.take_sublist _ _).subperm

theorem total_of_done (hdone : job.answered.length = job.chunks.length) : job.total found = (job.all found).length := by
  have hperm := job.once.perm_of_length_le hdone.ge
  unfold total all
  rw [List.length_flatMap, (hperm.map fun chunk => (found chunk).length).sum_eq]

end Job

/-- The searches that were published. -/
abbrev SearchService (Id Chunk : Type) := Id → Option (Job Chunk)

namespace SearchService

variable {Id Chunk : Type} [DecidableEq Id] [DecidableEq Chunk]

def empty : SearchService Id Chunk := fun _ => none

inductive Event (Id Chunk : Type)
  | publish (id : Id) (limit : Nat) (chunks : List Chunk)
  | answer (id : Id) (chunk : Chunk)

def step (service : SearchService Id Chunk) : Event Id Chunk → Option (SearchService Id Chunk)
  | .publish id limit chunks =>
    match service id with
    | none => some (Function.update service id (some (.publish limit chunks)))
    | some _ => none
  | .answer id chunk =>
    match service id with
    | none => none
    | some job =>
      if h : job.answered.count chunk < job.chunks.count chunk then
        some (Function.update service id (some (job.answer chunk h)))
      else none

end SearchService

end LogGrid
