import LogGrid.BatchFits
import LogGrid.Cluster.ExactlyOnce
import LogGrid.Master.CallsReturn
import LogGrid.Master.IdleSync
import LogGrid.Master.ResultsSoFar

/-!
# A cluster at rest

A worker whose connection has not failed keeps reading and writing. When nothing
is left to do, every task that it got has been run and answered, and if there is
such a worker, no task is pending.
-/

open LogGrid.StandardLayout LogGrid.Runs LogGrid.Net LogGrid.Net.Link LogGrid.Master LogGrid.FileProcessor
open LogGrid.BatchSize

namespace LogGrid.Cluster

/-! ## Links that do not fail -/

/-- Both ends read, and whatever was sent is written or in a queue. -/
structure Flowing (sent _received : List Message) (conn : Connection) (peer : Peer) : Prop where
  opened : peer.node.connection.isOpen = true
  down : Pumps sent conn
  up : Pumps peer.node.sent peer.node.connection
  masterReads : conn.reading ≠ none
  workerReads : peer.node.connecting = false → peer.node.connection.reading ≠ none

section

variable {host : Host} {sent received : List Message} {conn conn' : Connection} {peer : Peer}

theorem Flowing.write (h : Flowing sent received conn peer) {sent' : List Message} (hdown : Pumps sent' conn')
    (hwrite : conn.WriteOnly conn') : Flowing sent' received conn' peer :=
  { h with
    down := hdown
    masterReads := hwrite.reading ▸ h.masterReads }

theorem Flowing.read (h : Flowing sent received conn peer) (bytes : Bytes) (part : Part) (received' : List Message)
    (toMaster : Nat) :
    Flowing sent received' (conn.onRead .server true bytes part).1 { peer with toMaster } := by
  obtain ⟨hqueue, hwriting, hwritten⟩ := conn.onRead_writer .server true bytes part
  exact { h with
    down := h.down.congr hqueue hwriting hwritten
    masterReads := conn.onRead_reading .server bytes part }

theorem Flowing.workerRead (h : Flowing sent received conn peer) (bytes : Bytes) (part : Part) {node : WorkerNode}
    (hunnoticed : WorkerNode.Unnoticed { peer.node with
      connection := (peer.node.connection.onRead WorkerNode.owner true bytes part).1 } node) (toWorker : Nat) :
    Flowing sent received conn { peer with node, toWorker } := by
  obtain ⟨hqueue, hwriting, hwritten⟩ := peer.node.connection.onRead_writer WorkerNode.owner true bytes part
  obtain ⟨hconnection, -, -, hsent⟩ := hunnoticed
  refine ⟨?_, h.down, ?_, h.masterReads, fun _ => ?_⟩
  · simp only [hconnection, Connection.isOpen_onRead, Bool.true_and]
    exact h.opened
  · simp only [hconnection, hsent]
    exact h.up.congr hqueue hwriting hwritten
  · simp only [hconnection]
    exact peer.node.connection.onRead_reading WorkerNode.owner bytes part

theorem Flowing.worker (h : Flowing sent received conn peer) {e : WorkerNode.Event} {node : WorkerNode}
    (hnode : WorkerNode.Stepped host peer.node e node) (hok : e.Succeeds) (toWorker : Nat) :
    Flowing sent received conn { peer with node, toWorker } := by
  cases hnode with
  | connected hconnecting =>
    unfold WorkerNode.sendHello WorkerNode.send
    split
    · exact { h with
        up := h.up.congr rfl rfl rfl
        workerReads := fun _ => Option.some_ne_none _ }
    · exact { h with
        up := h.up.congr rfl rfl rfl
        workerReads := fun _ => Option.some_ne_none _ }
  | refused hconnecting => cases hok
  | sendPosted msg posted hposted =>
    exact { h with
      opened := (peer.node.connection.isOpen_send msg).trans h.opened
      up := h.up.send msg
      workerReads := fun hconnected =>
        (peer.node.connection.writeOnly_send msg).reading ▸ h.workerReads hconnected }
  | wrote ok connection hwrote =>
    cases hok
    exact { h with
      opened := (Connection.isOpen_wrote hwrote).trans h.opened
      up := h.up.wrote hwrote
      workerReads := fun hconnected => (Connection.writeOnly_wrote hwrote).reading ▸ h.workerReads hconnected }
  | got ok bytes part hpart hsize hnone =>
    cases hok
    exact h.workerRead bytes part ⟨rfl, rfl, rfl, rfl⟩ toWorker
  | handed ok bytes part hpart hsize msg hsome _ hhandled =>
    cases hok
    exact h.workerRead bytes part hhandled.frame.2 toWorker
  | notified woken threadPool hstep => exact { h with }
  | spurious worker threadPool hstep => exact { h with }
  | locked worker hlocking => exact { h with }
  | finished worker task hrunning =>
    unfold WorkerNode.send
    split <;> exact { h with }

theorem flowing_launch : AtLaunch Flowing := fun _ =>
  ⟨rfl, ⟨[], rfl, rfl⟩, pumps_initial, Option.some_ne_none _, fun h => by cases h⟩

theorem flowing_law (host : Host) : LinkLaw host True Flowing where
  send _ _ conn _ msg h := h.write (h.down.send msg) (conn.writeOnly_send msg)
  wrote _ _ _ _ _ ok h hok hwrote := by
    obtain rfl : ok = true := hok trivial
    exact h.write (h.down.wrote hwrote) (Connection.writeOnly_wrote hwrote)
  read _ _ _ _ ok bytes part h hok _ _ _ := by
    obtain rfl : ok = true := hok trivial
    exact h.read bytes part _ _
  worker _ _ _ _ _ _ h hok _ hnode _ _ := h.worker hnode (hok trivial) _

end

section

variable {settings : Settings} {host : Host} {guard : Cluster → Event → Prop} {spared : Nat → Prop} {c : Cluster}
  {client : Nat} {peer : Peer}

theorem flowing (hguard : ∀ q e, guard q e → Spares host spared q e) (h : Reaches (step settings host) guard {} c)
    (hpeer : c.peers.lookup client = some peer) (hspared : spared client) :
    Flowing (c.sentTo client) (c.receivedFrom client) (c.connection client) peer :=
  (link_invariant (fun _ => (flowing_law host).given fun hspared _ => hspared) (fun _ _ _ => flowing_launch _)
    (fun q e hg => ⟨(hguard q e hg).1, (hguard q e hg).2.2⟩) h).links client peer hpeer hspared

end

/-! ## Steps that nobody has to ask for -/

def ByItself : Event → Prop
  | .launch _ | .master (.startSearch _) | .worker _ (.spurious _) => False
  | _ => True

/-- What the cluster does by itself, when nothing fails. -/
def Internal (c : Cluster) (e : Event) : Prop := NoFailure c e ∧ FilesOpen c e ∧ ByItself e

section

variable {settings : Settings} {host : Host} {c : Cluster} {client : Nat} {peer : Peer}

theorem rest_threads (hrest : AtRest (step settings host) Internal c) : c.network.system.threads = [] := by
  by_contra hne
  obtain ⟨choice, hopens, hsome⟩ := step_run_isSome settings c.network.system hne
  have hnone := hrest (.master (.run 0 choice)) ⟨trivial, hopens, trivial⟩
  simp only [step, Network.step, Option.map_map, Option.map_eq_none_iff] at hnone
  rw [hnone] at hsome
  cases hsome

theorem rest_messagesIn (hrest : AtRest (step settings host) Internal c) : c.network.messagesIn = [] := by
  have hthreads := rest_threads hrest
  have hnone := hrest (.master .update) ⟨trivial, trivial, trivial⟩
  cases hmessages : c.network.messagesIn with
  | nil => rfl
  | cons x messagesIn =>
    simp [step, Network.step, hthreads, hmessages, Threads.step] at hnone

theorem rest_accepted (hrest : AtRest (step settings host) Internal c) : c.nextPeer ≤ c.network.nIDCounter := by
  by_contra hlt
  have hnone := hrest (.master .accept) ⟨trivial, trivial, trivial⟩
  simp only [step, if_pos (Nat.lt_of_not_le hlt)] at hnone
  cases hnone

theorem rest_posted (hrest : AtRest (step settings host) Internal c)
    (hclients : ∀ x ∈ c.network.system.shared.sent, x.1 ∈ c.network.connections) : c.network.posted = [] := by
  have hnone := hrest (.master .sendPosted) ⟨trivial, trivial, trivial⟩
  cases hposted : c.network.posted with
  | nil => rfl
  | cons x posted =>
    obtain ⟨client, msg⟩ := x
    have hmem : (client, msg) ∈ c.network.posted := hposted ▸ List.mem_cons_self
    obtain ⟨conn, hconn⟩ := Option.isSome_iff_exists.mp
      (AList.lookup_isSome.mpr (hclients _ (List.mem_reverse.mp (List.mem_of_mem_drop hmem))))
    simp [step, Network.step, hposted, hconn] at hnone

theorem rest_wrote (hrest : AtRest (step settings host) Internal c) {conn : Connection}
    (hconn : c.network.connections.lookup client = some conn) : conn.writing = none := by
  have hnone := hrest (.master (.wrote client true)) ⟨rfl, trivial, trivial⟩
  cases hwriting : conn.writing with
  | none => rfl
  | some part => cases part <;> simp [step, Network.step, hconn, Framing.writerStep, hwriting] at hnone

theorem rest_read (hrest : AtRest (step settings host) Internal c) {conn : Connection}
    (hpeer : c.peers.lookup client = some peer) (hconn : c.network.connections.lookup client = some conn) {part : Part}
    (hpart : conn.reading = some part) (bytes : Bytes)
    (hbytes : bytes <+: peer.node.connection.written.drop peer.toMaster) :
    bytes.length ≠ Framing.bufferSize conn part := by
  intro hsize
  have hnone := hrest (.master (.read client true bytes)) ⟨rfl, trivial, trivial⟩
  simp [step, Network.step, hpeer, hconn, hpart, arrived, hbytes, hsize] at hnone

/-! ### Workers -/

theorem rest_node (hrest : AtRest (step settings host) Internal c) (hpeer : c.peers.lookup client = some peer)
    (e : WorkerNode.Event) (hok : e.Succeeds) (hself : ByItself (.worker client e))
    (hread : ∀ ok bytes, e ≠ .read ok bytes) : peer.node.step host e = none := by
  have hnone := hrest (.worker client e) ⟨hok, trivial, hself⟩
  cases e with
  | read ok bytes => exact absurd rfl (hread ok bytes)
  | _ => simpa [step, hpeer] using hnone

theorem onMessage_isSome (n : WorkerNode) (msg : Message) (hstop : n.threadPool.stop = false) :
    (n.onMessage msg).isSome = true := by
  unfold WorkerNode.onMessage
  simp only
  split
  · split
    · rfl
    · simp [ThreadPool.Pool.step, hstop]
  · split <;> rfl

theorem rest_nodeRead (hrest : AtRest (step settings host) Internal c) (hpeer : c.peers.lookup client = some peer)
    (halive : peer.node.terminated = false) (hstop : peer.node.threadPool.stop = false) {part : Part}
    (hpart : peer.node.connection.reading = some part) (bytes : Bytes)
    (hbytes : bytes <+: (c.connection client).written.drop peer.toWorker) :
    bytes.length ≠ Framing.bufferSize peer.node.connection part := by
  intro hsize
  have hnone := hrest (.worker client (.read true bytes)) ⟨rfl, trivial, trivial⟩
  simp only [step, hpeer, Option.bind_some, arrived, if_true, if_pos hbytes, Option.map_eq_none_iff,
    WorkerNode.step, halive, hpart] at hnone
  rw [if_neg (by simp), if_neg (by simp [hsize])] at hnone
  split at hnone
  · cases hnone
  · rename_i msg hsome
    exact absurd hnone (Option.isSome_iff_ne_none.mp (onMessage_isSome _ msg hstop))

theorem rest_worker (hrest : AtRest (step settings host) Internal c) (hpeer : c.peers.lookup client = some peer)
    (halive : peer.node.terminated = false) (hsound : peer.node.Sound host) :
    peer.node.connecting = false ∧ peer.node.posted = [] ∧ peer.node.connection.writing = none ∧
      (peer.node.threadPool.ran.map Prod.snd).Perm peer.node.threadPool.enqueued := by
  have hstep : ∀ e, e.Succeeds → ByItself (.worker client e) → (∀ ok bytes, e ≠ .read ok bytes) →
      peer.node.step host e = none := fun e => rest_node hrest hpeer e
  refine ⟨?_, ?_, ?_, ?_⟩
  · have hnone := hstep (.connected true) rfl trivial (by simp)
    simpa [WorkerNode.step, halive] using hnone
  · have hnone := hstep .sendPosted trivial trivial (by simp)
    cases hposted : peer.node.posted with
    | nil => rfl
    | cons msg posted => simp [WorkerNode.step, halive, hposted] at hnone
  · have hnone := hstep (.wrote true) rfl trivial (by simp)
    cases hwriting : peer.node.connection.writing with
    | none => rfl
    | some part => cases part <;> simp [WorkerNode.step, halive, Framing.writerStep, hwriting] at hnone
  · have hpool := hsound.poolSound
    refine ThreadPool.Pool.ran_all hpool.kept hpool.wakeful ⟨?_, hsound.working.2⟩ ?_
    · by_contra hpos
      by_cases hany : peer.node.threadPool.workerThreads.any ThreadPool.Worker.isWaiting = true
      · obtain ⟨worker, hmem, hwaiting⟩ := List.any_eq_true.mp hany
        obtain ⟨number, hnumber⟩ := List.mem_iff_getElem?.mp hmem
        have hnone := hstep (.notifyOne number) trivial trivial (by simp)
        cases worker with
        | waiting => simp [WorkerNode.step, halive, ThreadPool.Pool.step, hpos, hany, hnumber] at hnone
        | _ => cases hwaiting
      · have hnone := hstep (.notifyOne 0) trivial trivial (by simp)
        simp [WorkerNode.step, halive, ThreadPool.Pool.step, hpos, hany] at hnone
    · intro number
      have hnone := hstep (.turn number) trivial trivial (by simp)
      simpa [WorkerNode.step, halive] using hnone

end

/-! ## Links at rest -/

/-- What was sent over a link has arrived, and was run and answered. -/
structure Settled (host : Host) (c : Cluster) (client : Nat) (peer : Peer) : Prop where
  received : peer.node.received = c.sentTo client
  ran : (peer.node.threadPool.ran.map Prod.snd).Perm (peer.node.received.filterMap WorkerNode.taskIn)
  connected : peer.node.connecting = false
  heard : ofClient client c.heard = peer.node.toSay host

section

variable {settings : Settings} {host : Host} {guard : Cluster → Event → Prop} {spared : Nat → Prop} {c : Cluster}
  {client : Nat} {peer : Peer}

theorem rest_connection (hwired : Wired (fun _ => Linked host) c) (hrest : AtRest (step settings host) Internal c)
    (hpeer : c.peers.lookup client = some peer) : ∃ conn, c.network.connections.lookup client = some conn := by
  have hmem : client ∈ c.network.connections := by
    rw [hwired.accepted]
    have := (hwired.peers client).mp (mem_of_lookup hpeer)
    have := rest_accepted hrest
    omega
  exact Option.isSome_iff_exists.mp (AList.lookup_isSome.mpr hmem)

theorem rest_settled (hguard : ∀ q e, guard q e → Spares host spared q e)
    (h : Reaches (step settings host) guard {} c) (hrest : AtRest (step settings host) Internal c)
    (hpeer : c.peers.lookup client = some peer) (hspared : spared client) : Settled host c client peer := by
  have hwired := wired (fun q e hg => (hguard q e hg).1) h
  have halive := alive h hwired hpeer
  have hlink := hwired.links client peer hpeer
  have hflow := flowing hguard h hpeer hspared
  obtain ⟨conn, hconn⟩ := rest_connection hwired hrest hpeer
  obtain ⟨hconnected, hposted, hwriting, hran⟩ := rest_worker hrest hpeer halive hlink.node
  have hconnection := connection_of_lookup hconn
  have hsent : peer.node.sent = peer.node.toSay host := by
    have hall := hlink.node.saidAll hflow.opened
    rwa [hposted, List.append_nil] at hall
  -- The way down: all is written, and the worker waits for more.
  have hreceived : peer.node.received = c.sentTo client := by
    rcases hlink.downRead with ⟨hnot, -⟩ | ⟨-, hreceives⟩
    · rw [hconnected] at hnot
      cases hnot
    · have hwritten := (hflow.down.idle (hconnection ▸ rest_wrote hrest hconn)).2
      rcases hreceives.ready hwritten (hflow.workerReads hconnected) with heq | ⟨part, bytes, hpart, hbytes, hsize⟩
      · exact heq
      · exact absurd hsize (rest_nodeRead hrest hpeer halive hlink.node.working.1 hpart bytes hbytes)
  -- The way up: the same, the other way round.
  have hheard : c.receivedFrom client = peer.node.sent := by
    have hwritten := (hflow.up.idle hwriting).2
    rcases hlink.upRead.ready hwritten hflow.masterReads with heq | ⟨part, bytes, hpart, hbytes, hsize⟩
    · exact heq
    · rw [hconnection] at hpart hsize
      exact absurd hsize (rest_read hrest hpeer hconn hpart bytes hbytes)
  refine ⟨hreceived, hlink.node.tasks ▸ hran, hconnected, ?_⟩
  rw [receivedFrom, rest_messagesIn hrest, List.append_nil] at hheard
  rw [hheard, hsent]

end

/-! ## The master at rest -/

section

variable {settings : Settings} {host : Host} {guard : Cluster → Event → Prop} {spared : Nat → Prop} {c : Cluster}
  {client : Nat} {peer : Peer} {tasks : List (Nat × TaskPayload)}

theorem sent_clients (hguard : ∀ q e, guard q e → Spares host spared q e) (h : Reaches (step settings host) guard {} c) :
    ∀ x ∈ c.network.system.shared.sent, x.1 ∈ c.network.connections := by
  intro x hx
  have hwired := wired (fun q e hg => (hguard q e hg).1) h
  have hmeant := master_meant (fun q e hg => ⟨(hguard q e hg).1, (hguard q e hg).2.1⟩) h
  obtain ⟨y, hy, hclient⟩ := List.mem_map.mp (sent_hellos (fun _ _ hg => hg.1.2) hmeant x hx)
  rw [hellos_heard h] at hy
  obtain ⟨z, hz, hin⟩ := List.mem_filterMap.mp (List.mem_reverse.mp hy)
  rw [← hclient, helloIn_client hin]
  exact hwired.received z (List.mem_append_left _ hz)

/-- Every task that a spared worker was sent was run, and its answer was handled. -/
theorem rest_answered (hguard : ∀ q e, guard q e → Spares host spared q e)
    (h : Reaches (step settings host) guard {} c) (hrest : AtRest (step settings host) Internal c)
    (hlog : DispatchLog tasks c.network.system.shared c.network.system.threads) :
    ∀ x ∈ tasks, spared x.1 → x.2.taskId % 2 ^ 64 ∈ answerIds c.heard := by
  rintro ⟨client, t⟩ ht hspared
  have hwired := wired (fun q e hg => (hguard q e hg).1) h
  have hclients := sent_clients hguard h
  have hsent : (client, taskMessage t) ∈ c.network.system.shared.sent := by
    rw [← List.mem_reverse, hlog.sent]
    exact List.mem_map_of_mem (f := fun x : Nat × TaskPayload => (x.1, taskMessage x.2)) ht
  obtain ⟨peer, hpeer⟩ := hwired.peer (hclients _ hsent)
  obtain ⟨hreceived, hran, -, hheard⟩ := rest_settled hguard h hrest hpeer hspared
  have hall : c.network.system.shared.sent.reverse.take c.network.handled = c.network.system.shared.sent.reverse := by
    have hposted := rest_posted hrest hclients
    rw [Network.posted, List.drop_eq_nil_iff] at hposted
    exact List.take_of_length_le hposted
  have hmem : wireTask t ∈ peer.node.threadPool.ran.map Prod.snd := by
    rw [hran.mem_iff, List.mem_filterMap, hreceived, sentTo, hall]
    exact ⟨_, mem_ofClient.mpr (List.mem_reverse.mpr hsent), taskIn_taskMessage t⟩
  obtain ⟨x, hx, heq⟩ := List.mem_map.mp hmem
  have hanswer : WorkerClient.answer host x.2 ∈ ofClient client c.heard := by
    rw [hheard, WorkerNode.toSay]
    exact List.mem_append_right _ (List.mem_map_of_mem hx)
  refine List.mem_filterMap.mpr ⟨_, mem_ofClient.mp hanswer, ?_⟩
  rw [answerOf_answer, heq]
  simp only [wireTask, Nat.mod_mod]

theorem mem_tasksOf {m : MasterServer} {client : Nat} {t : TaskPayload} :
    t ∈ m.tasksOf client ↔ ∃ taskId, (client, taskId, t) ∈ m.inFlightTasks.items := by
  have hkeys := (m.inFlightTasks.row client).nodupKeys
  simp only [TwoLevel.mem_items_iff]
  constructor
  · intro h
    obtain ⟨⟨taskId, _⟩, hentry, rfl⟩ := List.mem_map.mp h
    exact ⟨taskId, (List.mem_dlookup_iff hkeys).mpr hentry⟩
  · rintro ⟨taskId, hfind⟩
    exact List.mem_map.mpr ⟨⟨taskId, t⟩, (List.mem_dlookup_iff hkeys).mp hfind, rfl⟩

theorem rest_inFlight (hguard : ∀ q e, guard q e → Spares host spared q e)
    (h : Reaches (step settings host) guard {} c) (hrest : AtRest (step settings host) Internal c)
    (hfit : IdsFit c.network.system.shared.server) :
    ∀ x ∈ c.network.system.shared.server.inFlightTasks.items, ¬ spared x.1 := by
  rintro ⟨client, taskId, t⟩ hx hspared
  obtain ⟨tasks, hlog⟩ := dispatchLog (fun _ _ => id) (master_reaches h)
  have hanswers := (accounted (fun q e hg => (hguard q e hg).1) h hfit).answers
  have hanswered := rest_answered hguard h hrest hlog _ (hlog.inFlight _ hx) hspared
  rw [hlog.task_fits hfit _ (hlog.inFlight _ hx), ← hanswers.mem_iff, rest_threads hrest] at hanswered
  have hplaces := hlog.places.map fun t => t.taskId
  have hids : (tasks.map Prod.snd).map (·.taskId) = List.range' 1 c.network.system.shared.server.nextTaskId := by
    rw [List.map_map]
    exact hlog.ids
  rw [rest_threads hrest, List.map_append, hids] at hplaces
  have hnodup := hplaces.nodup_iff.mpr List.nodup_range'
  have hmem : t ∈ c.network.system.shared.server.inFlight := List.mem_map_of_mem (f := fun x => x.2.2) hx
  exact (List.nodup_append.mp hnodup).2.2 t.taskId (List.mem_map_of_mem hmem) t.taskId hanswered rfl

theorem rest_pending (hguard : ∀ q e, guard q e → Spares host spared q e)
    (h : Reaches (step settings host) guard {} c) (hrest : AtRest (step settings host) Internal c)
    (hfit : IdsFit c.network.system.shared.server) (hpeer : c.peers.lookup client = some peer)
    (hspared : spared client) : c.network.system.shared.server.pendingTasks = [] := by
  have hmeant := master_meant (fun q e hg => ⟨(hguard q e hg).1, (hguard q e hg).2.1⟩) h
  have hthreads := rest_threads hrest
  obtain ⟨-, -, hconnected, hheard⟩ := rest_settled hguard h hrest hpeer hspared
  have hsound := ((wired (fun q e hg => (hguard q e hg).1) h).links client peer hpeer).node
  -- Its `Hello` was handled.
  have hhello : (client, peer.node.threadCount) ∈ c.network.system.shared.history.hellos := by
    have hmem : helloMessage peer.node.threadCount ∈ ofClient client c.heard := by
      rw [hheard, WorkerNode.toSay, hconnected]
      exact List.mem_append_left _ List.mem_cons_self
    rw [hellos_heard h, List.mem_reverse]
    exact List.mem_filterMap.mpr ⟨_, mem_ofClient.mp hmem, helloIn_helloMessage client _⟩
  have hregistered : client ∈ c.network.system.shared.server.workersFreeSlots := by
    rcases registered (fun _ _ hg => hg.2.2) hmeant _ hhello with hslots | hcoming
    · exact hslots
    · rw [hthreads] at hcoming
      cases hcoming
  obtain ⟨slots, hslots⟩ := Option.isSome_iff_exists.mp (AList.lookup_isSome.mpr hregistered)
  have hengaged := desk_invariant (fun _ => True) Engaged (fun _ _ hg => hg.1.2) (fun _ _ _ _ _ _ _ _ => trivial)
    (fun _ => ⟨by simp [Desk.blank], by simp [Desk.blank], by simp [Desk.blank]⟩) engaged_turn hmeant client _ hhello
  -- It has no tasks, so it is in the idle queue.
  have hidle : client ∈ c.network.system.shared.server.idleWorkersIds := by
    by_contra hnot
    have hbusy := hengaged.busy slots hslots (decide_eq_false hnot)
    have hnone : c.network.system.shared.server.tasksOf client = [] := by
      refine List.eq_nil_iff_forall_not_mem.mpr fun t ht => ?_
      obtain ⟨taskId, hitem⟩ := mem_tasksOf.mp ht
      exact rest_inFlight hguard h hrest hfit _ hitem hspared
    have hpos := hsound.threads
    simp only [desk, MasterServer.desk, hthreads, leftFor_nil, hnone, List.length_nil] at hbusy
    omega
  have hqueue := (idleQueue (master_reaches h) client hidle).1
  by_contra hpending
  obtain ⟨pc, hpc, -⟩ := attended (master_reaches h) hpending (List.ne_nil_of_mem hqueue)
  rw [hthreads] at hpc
  cases hpc

end

/-! ## Searches at rest -/

/-- The search is done, and a poll says how many lines of its files match. A search with more chunks than an
`int` can count is left out: `chunks_done` overflows there. -/
def Complete (host : Host) (s : Shared) (search : Search) : Prop :=
  search.newTasks.length < 2 ^ 31 →
    ∃ status, s.server.getStatus search.session.searchId = some status ∧ status.state = .done ∧
      (Unchanged host search →
        status.totalMatches.toNat = (allMatches host search).length ∧
        status.linesFound.toNat = min search.request.config.maxResults.toNat (allMatches host search).length ∧
        ∃ written, s.files search.session.path = fileOf written ∧ written.length = status.linesFound.toNat ∧
          written.Subperm (allMatches host search))

/-- A task of the search is in flight for a worker that is not spared, or there is no other worker to give it to. -/
def Stranded (spared : Nat → Prop) (c : Cluster) (search : Search) : Prop :=
  (∃ client, ¬ spared client ∧ ∃ t ∈ c.network.system.shared.server.tasksOf client,
    t.searchId = search.session.searchId) ∨
  (∀ client ∈ c.peers, ¬ spared client) ∧ ∃ t ∈ c.network.system.shared.server.pendingTasks,
    t.searchId = search.session.searchId

section

variable {settings : Settings} {host : Host} {guard : Cluster → Event → Prop} {spared : Nat → Prop} {c : Cluster}
  {search : Search}

theorem rest_stranded (hguard : ∀ q e, guard q e → Spares host spared q e)
    (h : Reaches (step settings host) guard {} c) (hrest : AtRest (step settings host) Internal c)
    (hfit : IdsFit c.network.system.shared.server) {t : TaskPayload} (ht : t ∈ c.network.system.shared.server.stock)
    (hid : t.searchId = search.session.searchId) : Stranded spared c search := by
  rcases List.mem_append.mp ht with hpending | hmem
  · refine Or.inr ⟨fun client hclient hspared => ?_, t, hpending, hid⟩
    obtain ⟨peer, hpeer⟩ := Option.isSome_iff_exists.mp (AList.lookup_isSome.mpr hclient)
    rw [rest_pending hguard h hrest hfit hpeer hspared] at hpending
    cases hpending
  · obtain ⟨⟨client, taskId, _⟩, hitem, rfl⟩ := List.mem_map.mp hmem
    exact Or.inl ⟨client, rest_inFlight hguard h hrest hfit _ hitem, _, mem_tasksOf.mpr ⟨taskId, hitem⟩, hid⟩

theorem rest_complete (hlines : ShortLines host) (hguard : ∀ q e, guard q e → Spares host spared q e)
    (h : Reaches (step settings host) guard {} c) (hrest : AtRest (step settings host) Internal c)
    (hfit : IdsFit c.network.system.shared.server) (hsearch : search ∈ c.network.system.shared.history.searches)
    (hnone : ∀ t ∈ c.network.system.shared.server.stock, t.searchId ≠ search.session.searchId) :
    Complete host c.network.system.shared search := by
  intro hlt
  have hmeant := master_meant (fun q e hg => ⟨(hguard q e hg).1, (hguard q e hg).2.1⟩) h
  have hcounted : c.network.system.shared.history.counted.countP (·.searchId = search.session.searchId) =
      search.newTasks.length := by
    have hledger := countP_ledger (master_reaches h) search.session.searchId
    have hstock : c.network.system.shared.server.stock.countP (·.searchId = search.session.searchId) = 0 :=
      List.countP_eq_zero.mpr fun t ht => by simpa using hnone t ht
    rw [countP_published (master_reaches h) search hsearch, ledger, rest_threads hrest, List.countP_append,
      List.countP_append, hstock] at hledger
    simpa using hledger.symm
  obtain ⟨session, hsession, -, htotal, hdone, -⟩ := session_of_search hmeant search hsearch
  rw [hcounted, ← htotal] at hdone
  have hstatus : c.network.system.shared.server.getStatus search.session.searchId = some {
      state := .done
      linesFound := session.lineCount
      totalMatches := session.totalMatches
      scanErrors := session.scanErrors
      chunksDone := session.chunksDone
      chunksTotal := session.chunksTotal } := by
    rw [MasterServer.getStatus, hsession, Option.map_some, if_pos hdone]
  refine ⟨_, hstatus, rfl, ?_⟩
  intro hunchanged
  have hchunks := ((allPrepared hmeant).searches search hsearch).inChunk
  obtain ⟨-, -, ⟨written, hfile, -, hwritten, hlength⟩, hexact⟩ :=
    truthful (fun _ _ hg => hg.1.1) hmeant hfit search hsearch hunchanged hlt
      (fun t ht => results_short host t (hchunks t ht) hlines) _ hstatus
  obtain ⟨hmatches, hfound⟩ := hexact rfl
  exact ⟨hmatches, hfound, written, hfile, hlength rfl, hwritten⟩

/-- **What is left undone waits for a connection that failed.** When the cluster has nothing left to do, each search
is complete, or a task of it is stranded. -/
theorem rest_outcome (hlines : ShortLines host) (hguard : ∀ q e, guard q e → Spares host spared q e)
    (h : Reaches (step settings host) guard {} c) (hrest : AtRest (step settings host) Internal c)
    (hfit : IdsFit c.network.system.shared.server) (hsearch : search ∈ c.network.system.shared.history.searches) :
    Complete host c.network.system.shared search ∨ Stranded spared c search ∧ (search.newTasks.length < 2 ^ 31 →
      (c.network.system.shared.server.getStatus search.session.searchId).map (·.state) = some .running) := by
  by_cases hnone : ∀ t ∈ c.network.system.shared.server.stock, t.searchId ≠ search.session.searchId
  · exact Or.inl (rest_complete hlines hguard h hrest hfit hsearch hnone)
  · simp only [ne_eq, not_forall, not_not] at hnone
    obtain ⟨t, ht, hid⟩ := hnone
    refine Or.inr ⟨rest_stranded hguard h hrest hfit ht hid, fun hlt => ?_⟩
    exact running_of_stock (master_reaches h) search hsearch hlt t ht hid

end

end LogGrid.Cluster
