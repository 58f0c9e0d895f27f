import LogGrid.Master.ResultFile

/-!
# The line count and the lines on disk

`AggregateTaskResult` raises a session's line count under the lock and opens
the result file after it. The count is what is on disk as long as the file
opens whenever there is something to write.
-/

open LogGrid.Threads

namespace LogGrid.Master

/-! ## One call -/

/-- `WriteResults`; `opens` is what `OpenResultFile` comes to. -/
def writeResults (s : Shared) (searchId : Nat) (lines : List Bytes) (opens : Bool) : Shared :=
  match s.server.sessions.lookup searchId with
  | none => s
  | some session => if opens then { s with files := appendLines s.files session.path lines } else s

/-- `AggregateTaskResult` from the decoded batch on. -/
def aggregateTaskResult (s : Shared) (searchId : Nat) (batch : ChunkResult) (opens : Bool) : Shared :=
  match s.server.addBatch searchId batch with
  | .error _ => s
  | .ok (server, linesToWrite) =>
    let s := { s with server }
    if linesToWrite > 0 then writeResults s searchId (batch.lines.take linesToWrite) opens else s

/-- The lines that a call appends to the result file of its session. -/
def linesAppended (s : Shared) (searchId : Nat) (batch : ChunkResult) (opens : Bool) : List Bytes :=
  match s.server.addBatch searchId batch with
  | .error _ => []
  | .ok (_, linesToWrite) => if opens then batch.lines.take linesToWrite else []

theorem alone_doneAggregate {settings : Settings} {s s' : Shared} {task : TaskPayload} {msg : Message}
    {batch : ChunkResult} (hdecode : ∀ choice, decodeBatch choice msg = some batch)
    (h : Alone (exec settings) s (some (.doneAggregate task msg)) s') :
    ∃ opens s₁, Alone (exec settings) s₁ (some (.doneCount task)) s' ∧
      s₁.server = (aggregateTaskResult s task.searchId batch opens).server ∧
      s₁.files = (aggregateTaskResult s task.searchId batch opens).files := by
  rcases h with _ | ⟨_, hturn, hrest⟩
  unfold aggregateTaskResult
  cases hadd : s.server.addBatch task.searchId batch with
  | error e =>
    simp only [exec, hdecode, hadd] at hturn
    cases hturn
    exact ⟨true, s, hrest, rfl, rfl⟩
  | ok added =>
    obtain ⟨server, linesToWrite⟩ := added
    simp only [exec, hdecode, hadd] at hturn
    cases hturn
    simp only
    split at hrest
    · rename_i hpos
      simp only [if_pos hpos]
      rcases hrest with _ | ⟨_, hturn, hrest⟩
      unfold writeResults
      cases hlookup : server.sessions.lookup task.searchId with
      | none =>
        simp only [exec, hlookup] at hturn
        cases hturn
        simp only
        exact ⟨true, _, hrest, rfl, rfl⟩
      | some session =>
        simp only [exec, hlookup] at hturn
        cases hturn
        simp only
        rcases hrest with _ | ⟨choice, hturn, hrest⟩
        cases hturn
        refine ⟨choice.opens, _, hrest, ?_, ?_⟩
        · split <;> rfl
        · split <;> rfl
    · rename_i hpos
      simp only [if_neg hpos]
      exact ⟨true, _, hrest, rfl, rfl⟩

/-! ## Many calls -/

/-- The state of the master, and the lines appended so far to the file of one session. -/
structure Aggregation where
  shared : Shared
  appended : List Bytes := []

/-- One more batch for the session, with what opening its file comes to. -/
def Aggregation.add (searchId : Nat) (a : Aggregation) (result : ChunkResult × Bool) : Aggregation where
  shared := aggregateTaskResult a.shared searchId result.1 result.2
  appended := a.appended ++ linesAppended a.shared searchId result.1 result.2

/-- The session's line count is the number of lines appended, and is no more than allowed. -/
def Aggregation.Agrees (searchId : Nat) (a : Aggregation) : Prop :=
  ∃ session, a.shared.server.sessions.lookup searchId = some session ∧
    session.lineCount.toNat = a.appended.length ∧ session.lineCount ≤ session.maxResults

/-- Each batch finds its file open, or has nothing to write: no lines, or no room left for them. -/
def OpensWhenNeeded (maxResults : Nat) : Nat → List (ChunkResult × Bool) → Prop
  | _, [] => True
  | received, (batch, opens) :: results =>
    (opens = true ∨ batch.lines = [] ∨ maxResults ≤ received) ∧
      OpensWhenNeeded maxResults (received + batch.lines.length) results

/-- The session after `received` lines in all. -/
def Received (s : Shared) (searchId : Nat) (path : Bytes) (maxResults : UInt64) (received : Nat) : Prop :=
  ∃ session, s.server.sessions.lookup searchId = some session ∧ session.path = path ∧
    session.maxResults = maxResults ∧ session.lineCount.toNat = min maxResults.toNat received

section

variable {s : Shared} {searchId received : Nat} {path : Bytes} {maxResults : UInt64}

theorem addBatch_received (h : Received s searchId path maxResults received) (batch : ChunkResult) :
    ∃ server, s.server.addBatch searchId batch =
        .ok (server, min batch.lines.length (maxResults.toNat - min maxResults.toNat received)) ∧
      Received { s with server } searchId path maxResults (received + batch.lines.length) := by
  obtain ⟨session, hsession, hpath, hmax, hcount⟩ := h
  cases hadd : s.server.addBatch searchId batch with
  | error e =>
    have hmem : searchId ∈ s.server.sessions := AList.lookup_isSome.mp (by rw [hsession]; rfl)
    exact absurd hadd (s.server.addBatch_ne_error searchId batch e hmem)
  | ok r =>
    obtain ⟨server, linesToWrite⟩ := r
    obtain ⟨session', hsession', hlines, rfl⟩ := MasterServer.addBatch_eq_ok _ _ _ _ _ hadd
    obtain rfl : session' = session := Option.some.inj (hsession'.symm.trans hsession)
    have hlt := maxResults.toNat_lt
    rw [hmax, hcount] at hlines
    rw [hlines]
    refine ⟨_, rfl, _, AList.lookup_insert _, hpath, hmax, ?_⟩
    simp only
    rw [UInt64.toNat_add, UInt64.toNat_ofNat', hcount]
    omega

theorem aggregate_step (h : Received s searchId path maxResults received) (batch : ChunkResult) (opens : Bool) :
    let room := min batch.lines.length (maxResults.toNat - min maxResults.toNat received)
    linesAppended s searchId batch opens = (if opens then batch.lines.take room else []) ∧
      Received (aggregateTaskResult s searchId batch opens) searchId path maxResults
        (received + batch.lines.length) ∧
      (aggregateTaskResult s searchId batch opens).files path =
        s.files path ++ fileOf (linesAppended s searchId batch opens) := by
  obtain ⟨server, hadd, hafter⟩ := addBatch_received h batch
  intro room
  have happended : linesAppended s searchId batch opens = if opens then batch.lines.take room else [] := by
    unfold linesAppended
    rw [hadd]
  refine ⟨happended, ?_⟩
  rw [happended]
  unfold aggregateTaskResult
  rw [hadd]
  simp only
  split
  · obtain ⟨session, hsession, rfl, -⟩ := id hafter
    unfold writeResults
    simp only at hsession
    simp only [hsession]
    cases opens with
    | true => exact ⟨hafter, Function.update_self _ _ _⟩
    | false => exact ⟨hafter, (List.append_nil _).symm⟩
  · rename_i hnone
    have hroom : room = 0 := Nat.eq_zero_of_not_pos hnone
    rw [hroom]
    refine ⟨hafter, ?_⟩
    cases opens <;> exact (List.append_nil _).symm

theorem agrees_iff (h : Received s searchId path maxResults received) (appended : List Bytes)
    (hcount : appended.length = min maxResults.toNat received) (results : List (ChunkResult × Bool)) :
    (∀ done, done <+: results → (done.foldl (Aggregation.add searchId) ⟨s, appended⟩).Agrees searchId) ↔
      OpensWhenNeeded maxResults.toNat received results := by
  induction results generalizing s appended received with
  | nil =>
    refine iff_of_true ?_ trivial
    intro done hdone
    rw [List.prefix_nil.mp hdone]
    obtain ⟨session, hsession, -, hmax, hlines⟩ := h
    refine ⟨session, hsession, by rw [hlines]; exact hcount.symm, ?_⟩
    rw [UInt64.le_iff_toNat_le, hlines, hmax]
    exact Nat.min_le_left _ _
  | cons result results ih =>
    obtain ⟨batch, opens⟩ := result
    obtain ⟨happended, hafter, -⟩ := aggregate_step h batch opens
    have hadd : Aggregation.add searchId ⟨s, appended⟩ (batch, opens) =
        ⟨aggregateTaskResult s searchId batch opens, appended ++ linesAppended s searchId batch opens⟩ := rfl
    -- The count is right after this batch if the file opens or there is nothing to write.
    have hnow : (appended ++ linesAppended s searchId batch opens).length =
        min maxResults.toNat (received + batch.lines.length) ↔
          opens = true ∨ batch.lines = [] ∨ maxResults.toNat ≤ received := by
      rw [List.length_append, hcount, happended, ← List.length_eq_zero_iff]
      cases opens with
      | true =>
        simp only [if_true, List.length_take, true_or, iff_true]
        omega
      | false =>
        simp only [Bool.false_eq_true, if_false, List.length_nil, false_or]
        omega
    unfold OpensWhenNeeded
    constructor
    · intro hall
      have hone := hall [(batch, opens)] ⟨results, rfl⟩
      rw [List.foldl_cons, hadd, List.foldl_nil] at hone
      obtain ⟨session, hsession, hlines, -⟩ := hone
      obtain ⟨session', hsession', -, -, hlines'⟩ := id hafter
      obtain rfl : session' = session := Option.some.inj (hsession'.symm.trans hsession)
      have hright := hlines.symm.trans hlines'
      refine ⟨hnow.mp hright, (ih hafter _ hright).mp ?_⟩
      intro done hdone
      have := hall ((batch, opens) :: done) (List.cons_prefix_cons.mpr ⟨rfl, hdone⟩)
      rwa [List.foldl_cons, hadd] at this
    · rintro ⟨hneeded, hrest⟩ done hdone
      have hright := hnow.mpr hneeded
      cases done with
      | nil =>
        obtain ⟨session, hsession, -, hmax, hlines⟩ := h
        refine ⟨session, hsession, by rw [hlines]; exact hcount.symm, ?_⟩
        rw [UInt64.le_iff_toNat_le, hlines, hmax]
        exact Nat.min_le_left _ _
      | cons first done =>
        obtain ⟨hfirst, hdone'⟩ := List.cons_prefix_cons.mp hdone
        rw [hfirst, List.foldl_cons, hadd]
        exact (ih hafter _ hright).mpr hrest done hdone'

theorem files_foldl_add (h : Received s searchId path maxResults received) (results : List (ChunkResult × Bool))
    (appended : List Bytes) (old : Bytes) (hfile : s.files path = old ++ fileOf appended) :
    (results.foldl (Aggregation.add searchId) ⟨s, appended⟩).shared.files path =
      old ++ fileOf (results.foldl (Aggregation.add searchId) ⟨s, appended⟩).appended := by
  induction results generalizing s appended received with
  | nil => exact hfile
  | cons result results ih =>
    obtain ⟨-, hafter, hgrown⟩ := aggregate_step h result.1 result.2
    rw [List.foldl_cons]
    apply ih hafter
    rw [hgrown, hfile, fileOf_append, List.append_assoc]

end

/-- **The line count is the number of lines on disk** after every batch, exactly when the file opens for
each batch that has lines to write. -/
theorem lines_on_disk_iff (s : Shared) (searchId : Nat) (session : SearchSession)
    (hsession : s.server.sessions.lookup searchId = some session) (hnew : session.lineCount = 0)
    (results : List (ChunkResult × Bool)) :
    (∀ done : List (ChunkResult × Bool),
      (done.foldl (Aggregation.add searchId) ⟨s, []⟩).shared.files session.path =
      s.files session.path ++ fileOf (done.foldl (Aggregation.add searchId) ⟨s, []⟩).appended) ∧
    ((∀ done, done <+: results → (done.foldl (Aggregation.add searchId) ⟨s, []⟩).Agrees searchId) ↔
      OpensWhenNeeded session.maxResults.toNat 0 results) := by
  have hreceived : Received s searchId session.path session.maxResults 0 :=
    ⟨session, hsession, rfl, rfl, by rw [hnew, Nat.min_zero]; rfl⟩
  constructor
  · intro done
    exact files_foldl_add hreceived done [] _ (List.append_nil _).symm
  · exact agrees_iff hreceived [] (Nat.min_zero _).symm results

/-! ## Two batches -/

def smallSession : Shared :=
  { server := { sessions := (∅ : AList fun _ => SearchSession).insert 0 { path := ascii "/r", maxResults := 2 } } }

def oneLine : ChunkResult := { lines := [ascii "a: E"], totalMatches := 1, linesFound := 1 }

/-- The file fails to open for a batch without lines, and for one that comes when there is no room left. -/
theorem lines_on_disk_failures :
    let results := [(oneLine, true), ({}, false), (oneLine, true), (oneLine, false)]
    ∀ done, done <+: results → (done.foldl (Aggregation.add 0) ⟨smallSession, []⟩).Agrees 0 := by
  intro results
  apply (lines_on_disk_iff smallSession 0 { path := ascii "/r", maxResults := 2 } rfl rfl results).2.mpr
  simp [results, OpensWhenNeeded, oneLine]

/-- One line, and a file that does not open: the session counts a line that is nowhere. -/
theorem counted_and_not_written :
    ¬ ((Aggregation.add 0 ⟨smallSession, []⟩ (oneLine, false)).Agrees 0) := by
  rintro ⟨session, hsession, hlines, -⟩
  have hcounted : ((Aggregation.add 0 ⟨smallSession, []⟩ (oneLine, false)).shared.server.sessions.lookup 0).map
      (·.lineCount.toNat) = some 1 := by decide +kernel
  have hnone : (Aggregation.add 0 ⟨smallSession, []⟩ (oneLine, false)).appended.length = 0 := by decide +kernel
  rw [hsession, Option.map_some, hlines, hnone] at hcounted
  cases hcounted

end LogGrid.Master
