import LogGrid.BatchFits
import LogGrid.Cluster.Rest
import LogGrid.Master.Refinement

/-!
# What polls say

A worker answers what was published, and with files of short lines its answers
fit their frames. What a poll says is then true of the files, whatever fails, and
the cluster is a search service.
-/

open LogGrid.Runs LogGrid.Master LogGrid.FileProcessor LogGrid.BatchSize

namespace LogGrid.Cluster

section

variable {settings : Settings} {host : Host} {guard : Cluster → Event → Prop} {c : Cluster} {client : Nat}
  {peer : Peer}

/-! ## Batches fit -/

theorem running_inChunk (h : Reaches (step settings host) guard {} c) (hwired : Wired (fun _ => Linked host) c)
    (hpeer : c.peers.lookup client = some peer) {number : Nat} {task : TaskPayload}
    (hrunning : peer.node.running number = some task) : InChunk task := by
  have hsound := (hwired.links client peer hpeer).node
  have hkept := hsound.poolSound.kept
  have hworker : peer.node.threadPool.workerThreads[number]? = some (.running task) := by
    unfold WorkerNode.running at hrunning
    split at hrunning
    · rename_i hget
      cases hrunning
      exact hget
    · cases hrunning
  have hhand := ThreadPool.Pool.inHand_set 0 number _ _ .locking hworker
  have hpopped : (0 + number, task) ∈ peer.node.threadPool.popped :=
    hkept.hands.mem_iff.mpr (List.mem_append_right _ (hhand.mem_iff.mpr List.mem_cons_self))
  have hqueued : task ∈ peer.node.received.filterMap WorkerNode.taskIn := by
    rw [← hsound.tasks, ← hkept.order]
    exact List.mem_append_left _ (List.mem_map_of_mem hpopped)
  obtain ⟨msg, hmsg, hin⟩ := List.mem_filterMap.mp hqueued
  obtain ⟨hsent, -⟩ := received_tasks h hwired hpeer msg hmsg
  obtain ⟨t, ht, taskId, rfl⟩ := sentPublished (master_reaches h) _ hsent
  obtain ⟨search, hsearch, ht⟩ := List.mem_flatMap.mp ht
  rw [taskIn_taskMessage, Option.some.injEq] at hin
  have hchunk := ((allPrepared (master_reaches h)).searches search hsearch).inChunk t ht
  exact hin ▸ hchunk

theorem batchesFit (hlines : ShortLines host) (h : Reaches (step settings host) guard {} c)
    (hwired : Wired (fun _ => Linked host) c) (e : Event) : BatchesFit host c e := by
  unfold BatchesFit
  split
  · rename_i client number
    intro peer hpeer task htask
    exact answer_fits host task (running_inChunk h hwired hpeer htask) hlines
  · trivial

theorem reaches_fitting (hlines : ShortLines host) (h : Reaches (step settings host) guard {} c) :
    Reaches (step settings host) (fun q e => BatchesFit host q e ∧ guard q e) {} c := by
  induction h with
  | start => exact .start
  | step e _ hg hstep ih => exact ih.step e ⟨batchesFit hlines ih (wired (fun _ _ hg => hg.1) ih) e, hg⟩ hstep

end

/-! ## The result -/

/-- **No poll says too much.** At every moment, and wherever connections have failed, each published search has a
status with no more matches and lines than its files have, its result file holds lines of these files, each as often
as they have it or less, and a status that says `Done` is exact. -/
theorem polls_truthful (settings : Settings) (host : Host) (c : Cluster) (hlines : ShortLines host)
    (h : Reaches (step settings host) FilesOpen {} c) (hfit : IdsFit c.network.system.shared.server) (search : Search)
    (hsearch : search ∈ c.network.system.shared.history.searches) (hunchanged : Unchanged host search)
    (hlt : search.newTasks.length < 2 ^ 31) :
    ∃ status, c.network.system.shared.server.getStatus search.session.searchId = some status ∧
      Truthful host c.network.system.shared search status := by
  have hmeant := master_meant (fun _ _ => id) (reaches_fitting hlines h)
  have hchunks := ((allPrepared hmeant).searches search hsearch).inChunk
  obtain ⟨session, hsession, -⟩ := session_of_search hmeant search hsearch
  have hstatus : (c.network.system.shared.server.getStatus search.session.searchId).isSome = true := by
    rw [MasterServer.getStatus, hsession]
    rfl
  obtain ⟨status, hstatus⟩ := Option.isSome_iff_exists.mp hstatus
  exact ⟨status, hstatus, truthful (fun _ _ hg => hg.1.1) hmeant hfit search hsearch hunchanged hlt
    (fun t ht => results_short host t (hchunks t ht) hlines) status hstatus⟩

theorem smallHost_shortLines : ShortLines smallHost := shortLines_of_files fun name file hopen => by
  unfold smallHost oneFileHost at hopen
  simp only at hopen
  split at hopen
  · cases hopen
    decide
  · cases hopen

/-- The worker's connection is lost while it has the task. -/
def afterLoss : Cluster :=
  Runs.after (step {} smallHost) FilesOpen afterTask [.master (.read 10000 false [])]

theorem polls_truthful_lost : ∃ search ∈ afterLoss.network.system.shared.history.searches,
    ∃ status, afterLoss.network.system.shared.server.getStatus search.session.searchId = some status ∧
      status.totalMatches.toNat ≤ (allMatches smallHost search).length := by
  have hreach : Reaches (step {} smallHost) FilesOpen {} afterLoss :=
    Runs.reaches_after _ (afterTask_reached.mono fun _ _ hg => hg.2.1) (by decide +kernel)
  obtain ⟨search, hsearch⟩ : ∃ search, search ∈ afterLoss.network.system.shared.history.searches :=
    List.exists_mem_of_length_pos (by decide +kernel)
  have hfiles : ∀ search ∈ afterLoss.network.system.shared.history.searches,
      search.files = [(smallTarget, ⟨8, smallSize_lt⟩)] := by
    decide +kernel
  have hfew : ∀ search ∈ afterLoss.network.system.shared.history.searches, search.newTasks.length < 2 ^ 31 := by
    decide +kernel
  have hunchanged : Unchanged smallHost search := by
    intro f hf
    rw [hfiles search hsearch, List.mem_singleton] at hf
    subst hf
    exact ⟨ChunkedSearch.smallFile, rfl, rfl⟩
  obtain ⟨status, hstatus, htruth⟩ := polls_truthful {} smallHost afterLoss smallHost_shortLines hreach
    ⟨by decide +kernel, by decide +kernel⟩ search hsearch hunchanged (hfew search hsearch)
  exact ⟨search, hsearch, status, hstatus, htruth.total⟩

/-- **The cluster is a search service**, whatever fails: each of its states is one of the service, in which searches
are published whole and chunks are answered once, and each poll says what the service has found. -/
theorem refines_service (settings : Settings) (host : Host) (c : Cluster) (hlines : ShortLines host)
    (h : Reaches (step settings host) FilesOpen {} c) (hfit : IdsFit c.network.system.shared.server) :
    ∃ service : SearchService Nat TaskPayload, Reaches SearchService.step Any SearchService.empty service ∧
      Implements c.network.system.shared service ∧
      ∀ search ∈ c.network.system.shared.history.searches, ∀ job status,
        service search.session.searchId = some job →
        c.network.system.shared.server.getStatus search.session.searchId = some status → ShowsJob host job status := by
  have hmeant := master_meant (fun _ _ => id) (reaches_fitting hlines h)
  obtain ⟨service, hservice, himplements⟩ := implements (fun _ _ hg => hg.1.1) hmeant hfit
  refine ⟨service, hservice, himplements, ?_⟩
  intro search hsearch job status hjob hstatus
  obtain ⟨job', hjob', hjobOf⟩ := himplements.published search hsearch
  obtain rfl : job' = job := Option.some.inj (hjob'.symm.trans hjob)
  have hchunks := ((allPrepared hmeant).searches search hsearch).inChunk
  exact hjobOf.shows (fun _ _ hg => hg.1.1) hmeant hfit hsearch
    (fun t ht => results_short host t (hchunks t ht) hlines) status hstatus

/-- The search of the small file is published, and its one chunk is answered. -/
theorem refines_service_small : ∃ service : SearchService Nat TaskPayload,
    Reaches SearchService.step Any SearchService.empty service ∧
    ∃ search ∈ afterSearch.network.system.shared.history.searches,
      ∃ job, service search.session.searchId = some job ∧ job.answered.length = 1 := by
  have hreach : Reaches (step {} smallHost) FilesOpen {} afterSearch := afterSearch_reached.mono fun _ _ hg => hg.2.1
  obtain ⟨service, hservice, himplements, -⟩ := refines_service {} smallHost afterSearch smallHost_shortLines hreach
    ⟨by decide +kernel, by decide +kernel⟩
  obtain ⟨search, hsearch⟩ : ∃ search, search ∈ afterSearch.network.system.shared.history.searches :=
    List.exists_mem_of_length_pos (by decide +kernel)
  have hone : ∀ search ∈ afterSearch.network.system.shared.history.searches,
      (answeredTasks afterSearch.network.system.shared.history search.session.searchId).length = 1 := by
    decide +kernel
  obtain ⟨job, hjob, hjobOf⟩ := himplements.published search hsearch
  exact ⟨service, hservice, search, hsearch, job, hjob, by rw [hjobOf.answered]; exact hone search hsearch⟩

end LogGrid.Cluster
