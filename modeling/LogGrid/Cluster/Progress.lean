import LogGrid.Cluster.Polls
import LogGrid.Worker.Backlog

/-!
# Searches complete

Once nobody asks for more and nothing fails any more, each step of a cluster brings
it closer to rest. A message counts the steps that it takes on its way: a task to
its worker and back as an answer, an answer to the master and through
`Worker_TaskDone`.
-/

open LogGrid.StandardLayout LogGrid.Runs LogGrid.Net LogGrid.Net.Link LogGrid.Master LogGrid.FileProcessor
open LogGrid.BatchSize

namespace LogGrid.Cluster

/-! ## The load of a worker and its links -/

/-- What is on its way to and from a worker, and what the worker has to do. -/
def linkLoad (sent received : List Message) (conn : Connection) (node : WorkerNode) : Nat :=
  readsLeft 20 sent node.received node.connection + readsLeft 11 node.sent received conn + writesLeft conn +
    writesLeft node.connection + node.load

section

variable {host : Host} {sent received : List Message} {conn conn' : Connection} {peer : Peer} {node node' : WorkerNode}

theorem linkLoad_send (sent received : List Message) (conn : Connection) (node : WorkerNode) (msg : Message) :
    linkLoad (sent ++ [msg]) received (conn.send msg) node ≤ linkLoad sent received conn node + 22 := by
  have hreads := readsLeft_send sent node.received node.connection 20 msg
  have hwrites := writesLeft_send conn msg
  have hup := readsLeft_congr node.sent received 11 (conn.writeOnly_send msg).reading
  unfold linkLoad
  omega

theorem Linked.linkLoad_wrote (h : Linked host sent received conn peer)
    (hwrote : Framing.writerStep conn (.wrote true) = some conn') :
    linkLoad sent received conn' peer.node < linkLoad sent received conn peer.node := by
  have hwrites := h.down.writesLeft_lt hwrote
  have hup := readsLeft_congr peer.node.sent received 11
    (Connection.writeOnly_wrote hwrote).reading
  unfold linkLoad
  omega

theorem Linked.linkLoad_read (h : Linked host sent received conn peer) {bytes : Bytes} {part : Part}
    (hbytes : bytes <+: peer.node.connection.written.drop peer.toMaster) (hpart : conn.reading = some part)
    (hsize : bytes.length = Framing.bufferSize conn part) :
    linkLoad sent (received ++ (conn.onRead .server true bytes part).2.toList) (conn.onRead .server true bytes part).1
      peer.node + 9 * (conn.onRead .server true bytes part).2.toList.length <
        linkLoad sent received conn peer.node := by
  obtain ⟨hqueue, hwriting, -⟩ := conn.onRead_writer .server true bytes part
  have hwrites := writesLeft_congr hqueue hwriting
  have hread : Receives peer.node.sent (received ++ (conn.onRead .server true bytes part).2.toList)
    (peer.toMaster + bytes.length) (conn.onRead .server true bytes part).1 :=
    (h.read true bytes part hbytes hpart fun _ => hsize).upRead
  obtain ⟨hnone, hsome⟩ := readsLeft_lt 11 hpart hread (by decide)
  unfold linkLoad
  cases hmsg : (conn.onRead .server true bytes part).2 with
  | none =>
    have hlt := hnone hmsg
    simp only [Option.toList_none, List.append_nil, List.length_nil]
    omega
  | some msg =>
    have hle := hsome msg hmsg
    simp only [Option.toList_some, List.length_singleton]
    omega

theorem linkLoad_read {bytes : Bytes} {part : Part} {consumed : Nat}
    (hreads : Receives sent (node.received ++ (node.connection.onRead WorkerNode.owner true bytes part).2.toList) consumed
      (node.connection.onRead WorkerNode.owner true bytes part).1) (hpart : node.connection.reading = some part)
    (hnode : (node.connection.onRead WorkerNode.owner true bytes part).2 = none ∧
        node' = { node with connection := (node.connection.onRead WorkerNode.owner true bytes part).1 } ∨
      ∃ msg, (node.connection.onRead WorkerNode.owner true bytes part).2 = some msg ∧
        WorkerNode.Handled { node with connection := (node.connection.onRead WorkerNode.owner true bytes part).1 }
          msg node') :
    linkLoad sent received conn node' < linkLoad sent received conn node := by
  obtain ⟨hqueue, hwriting, -⟩ := node.connection.onRead_writer WorkerNode.owner true bytes part
  have hwrites := writesLeft_congr hqueue hwriting
  obtain ⟨hnone, hsome⟩ := readsLeft_lt 20 hpart hreads (by decide)
  rcases hnode with ⟨hmsg, rfl⟩ | ⟨msg, hmsg, hhandled⟩
  · have hlt := hnone hmsg
    simp only [linkLoad, WorkerNode.load]
    omega
  · have hle := hsome msg hmsg
    have hload := WorkerNode.load_handled hhandled
    obtain ⟨hreceived, hconnection, -, -, hsent⟩ := hhandled.frame
    simp only [linkLoad, hreceived, hconnection, hsent] at hload ⊢
    simp only [WorkerNode.load] at hload ⊢
    omega

theorem linkLoad_say {msg : Message}
    (hconnection : readsLeft 20 sent node'.received node'.connection = readsLeft 20 sent node.received node.connection ∧
      writesLeft node'.connection = writesLeft node.connection)
    (hsent : node'.sent = node.sent) (hload : node'.load + 15 = node.load) :
    linkLoad sent received conn (node'.send msg) < linkLoad sent received conn node := by
  obtain ⟨hsame, hsame', hsame''⟩ := node'.send_frame msg
  have hsend := node'.load_send msg
  rw [linkLoad, hsame, hsame', hsame'', hsent, hconnection.1, hconnection.2, linkLoad]
  omega

theorem Linked.receives_worker (h : Linked host sent received conn peer) (hframed : ∀ msg ∈ sent, Framed msg)
    {bytes : Bytes} {part : Part} (hbytes : bytes <+: conn.written.drop peer.toWorker)
    (hpart : peer.node.connection.reading = some part)
    (hsize : bytes.length = Framing.bufferSize peer.node.connection part) :
    Receives sent (peer.node.received ++ (peer.node.connection.onRead WorkerNode.owner true bytes part).2.toList)
      (peer.toWorker + bytes.length) (peer.node.connection.onRead WorkerNode.owner true bytes part).1 := by
  rcases h.downRead with ⟨hnot, -⟩ | ⟨-, hreceives⟩
  · rw [(h.node.unconnected hnot).1] at hpart
    cases hpart
  · exact hreceives.read hframed h.down.isPrefix hbytes WorkerNode.owner part hpart hsize

theorem linkLoad_lt {e : WorkerNode.Event} (hsound : node.Sound host)
    (hnode : WorkerNode.Stepped host node e node') (hok : e.Succeeds)
    (hself : ∀ number, e ≠ .spurious number)
    (hreads : ∀ bytes part, e = .read true bytes → node.connection.reading = some part →
      bytes.length = Framing.bufferSize node.connection part → ∃ consumed,
      Receives sent (node.received ++ (node.connection.onRead WorkerNode.owner true bytes part).2.toList) consumed
        (node.connection.onRead WorkerNode.owner true bytes part).1) :
    linkLoad sent received conn node' < linkLoad sent received conn node := by
  cases hnode with
  | connected hconnecting =>
    refine linkLoad_say ⟨?_, rfl⟩ rfl ?_
    · rw [(hsound.unconnected hconnecting).1]
      rfl
    · simp only [WorkerNode.load, hconnecting, if_true, Bool.false_eq_true, if_false]
      omega
  | refused hconnecting => cases hok
  | sendPosted msg posted hposted =>
    have hwrites := writesLeft_send node.connection msg
    have hup := readsLeft_send node.sent received conn 11 msg
    have hdown := readsLeft_congr sent node.received 20
      (node.connection.writeOnly_send msg).reading
    simp only [linkLoad, WorkerNode.load, hposted, List.length_cons]
    omega
  | wrote ok connection hwrote =>
    cases hok
    have hwrites := hsound.writes.writesLeft_lt hwrote
    have hdown := readsLeft_congr sent node.received 20
      (Connection.writeOnly_wrote hwrote).reading
    simp only [linkLoad, WorkerNode.load]
    omega
  | got ok bytes part hpart hsize hnone =>
    cases hok
    obtain ⟨consumed, hreceives⟩ := hreads bytes part rfl hpart (hsize rfl)
    exact linkLoad_read hreceives hpart (Or.inl ⟨hnone, rfl⟩)
  | handed ok bytes part hpart hsize msg hsome _ hhandled =>
    cases hok
    obtain ⟨consumed, hreceives⟩ := hreads bytes part rfl hpart (hsize rfl)
    exact linkLoad_read hreceives hpart (Or.inr ⟨msg, hsome, hhandled⟩)
  | notified woken threadPool hstep =>
    have hload := ThreadPool.Pool.load_notifyOne hstep
    simp only [linkLoad, WorkerNode.load]
    omega
  | spurious worker threadPool hstep => exact absurd rfl (hself worker)
  | locked worker hlocking =>
    have hload := ThreadPool.Pool.load_popTask hlocking
    simp only [linkLoad, WorkerNode.load]
    omega
  | finished worker task hrunning =>
    refine linkLoad_say ⟨rfl, rfl⟩ rfl ?_
    have hpool := ThreadPool.Pool.load_ran hrunning
    show (if node.connecting then 15 else 0) + 14 * node.posted.length +
      (node.threadPool.setWorker worker .locking).load + 15 = node.load
    rw [WorkerNode.load]
    omega

end

/-! ## The load of the cluster -/

def peerLoad (c : Cluster) (client : Nat) : Nat :=
  match c.peers.lookup client with
  | none => 0
  | some peer => linkLoad (c.sentTo client) (c.receivedFrom client) (c.connection client) peer.node

def load (c : Cluster) : Nat :=
  workLeft c.network.system.shared.server c.network.system.threads + 9 * c.network.messagesIn.length +
    (c.nextPeer - c.network.nIDCounter) + 23 * c.network.posted.length +
    ∑ client ∈ Finset.range c.nextPeer, peerLoad c client

section

variable {settings : Settings} {host : Host} {guard : Cluster → Event → Prop} {spared : Nat → Prop} {c c' : Cluster}
  {client : Nat} {peer : Peer} {conn conn' : Connection}

theorem peerLoad_eq {sent received : List Message} {node : WorkerNode} (hpeer : c.peers.lookup client = some peer)
    (hnode : peer.node = node) (hsent : c.sentTo client = sent) (hreceived : c.receivedFrom client = received)
    (hconn : c.connection client = conn) : peerLoad c client = linkLoad sent received conn node := by
  rw [peerLoad, hpeer, ← hnode, hsent, hreceived, hconn]

theorem peerLoad_congr (hpeers : c'.peers.lookup client = c.peers.lookup client)
    (hsent : c'.sentTo client = c.sentTo client) (hreceived : c'.receivedFrom client = c.receivedFrom client)
    (hconn : c'.connection client = c.connection client) : peerLoad c' client = peerLoad c client := by
  rw [peerLoad, hpeers, hsent, hreceived, hconn, peerLoad]

/-- What is left to do for one client, up to the calls of `OnMessage`. -/
def clientLoad (c : Cluster) (client : Nat) : Nat :=
  peerLoad c client + 9 * c.network.messagesIn.length + 23 * c.network.posted.length

theorem Wired.load_lt {P : Nat → LinkProp} (h : Wired P c) (hpeer : c.peers.lookup client = some peer)
    (hsame : c'.network.system = c.network.system ∧ c'.network.nIDCounter = c.network.nIDCounter ∧
      c'.nextPeer = c.nextPeer)
    (hothers : ∀ client', client' ≠ client → peerLoad c' client' = peerLoad c client')
    (hload : clientLoad c' client < clientLoad c client) : load c' < load c := by
  have hsum := sum_of_one (peerLoad c) (peerLoad c')
    (Finset.mem_range.mpr ((h.peers client).mp (mem_of_lookup hpeer)).2) fun client' _ => hothers client'
  unfold clientLoad at hload
  unfold load
  rw [hsame.1, hsame.2.1, hsame.2.2]
  omega

theorem load_accept {P : Nat → LinkProp} (h : Wired P c) (hlt : c.network.nIDCounter < c.nextPeer) :
    load { c with network := c.network.accept } < load c := by
  have hnew : c.network.nIDCounter ∉ c.network.connections := by
    rw [h.accepted]
    omega
  have hsum : ∑ client ∈ Finset.range c.nextPeer, peerLoad { c with network := c.network.accept } client =
      ∑ client ∈ Finset.range c.nextPeer, peerLoad c client :=
    Finset.sum_congr rfl fun client _ => peerLoad_congr rfl rfl rfl (connection_accept c hnew client)
  have hcounter : c.network.accept.nIDCounter = c.network.nIDCounter + 1 := rfl
  have hposted : c.network.accept.posted = c.network.posted := rfl
  simp only [load, hsum, hcounter, hposted]
  simp only [Network.accept]
  omega

theorem load_sendPosted {P : Nat → LinkProp} (h : Wired P c) {msg : Message}
    (hposted : c.network.posted.head? = some (client, msg)) (hpeer : c.peers.lookup client = some peer)
    (hconn : c.network.connections.lookup client = some conn) :
    load { c with network := { c.network.setConnection client (conn.send msg) with
      handled := c.network.handled + 1 } } < load c := by
  refine h.load_lt hpeer ⟨rfl, rfl, rfl⟩ ?_ ?_
  · intro client' hne
    refine peerLoad_congr rfl ?_ rfl ((connection_set _ _ _ _).trans (if_neg hne))
    rw [sentTo_sendPosted hposted, show ofClient client' [(client, msg)] = [] from ofClient_ne hne [msg],
      List.append_nil]
  · have hlength := (take_posted hposted).1
    have hlink := linkLoad_send (c.sentTo client) (c.receivedFrom client) conn peer.node msg
    have hload : peerLoad { c with network := { c.network.setConnection client (conn.send msg) with
        handled := c.network.handled + 1 } } client =
          linkLoad (c.sentTo client ++ [msg]) (c.receivedFrom client) (conn.send msg) peer.node := by
      refine peerLoad_eq hpeer rfl ?_ rfl ((connection_set _ _ _ _).trans (if_pos rfl))
      rw [sentTo_sendPosted hposted, show ofClient client [(client, msg)] = [msg] from ofClient_self client [msg]]
    unfold clientLoad
    rw [hload, peerLoad_eq hpeer rfl rfl rfl (connection_of_lookup hconn)]
    simp only [Network.posted, Network.setConnection, List.length_drop, List.length_reverse]
    omega

theorem load_wrote (h : Wired (fun _ => Linked host) c) (hpeer : c.peers.lookup client = some peer)
    (hconn : c.network.connections.lookup client = some conn)
    (hwrote : Framing.writerStep conn (.wrote true) = some conn') :
    load { c with network := c.network.setConnection client conn' } < load c := by
  refine h.load_lt hpeer ⟨rfl, rfl, rfl⟩ ?_ ?_
  · exact fun client' hne => peerLoad_congr rfl rfl rfl ((connection_set _ _ _ _).trans (if_neg hne))
  · have hlinked := h.links client peer hpeer
    rw [connection_of_lookup hconn] at hlinked
    have hlink := hlinked.linkLoad_wrote hwrote
    have hload : peerLoad { c with network := c.network.setConnection client conn' } client =
        linkLoad (c.sentTo client) (c.receivedFrom client) conn' peer.node :=
      peerLoad_eq hpeer rfl rfl rfl ((connection_set _ _ _ _).trans (if_pos rfl))
    unfold clientLoad
    rw [hload, peerLoad_eq hpeer rfl rfl rfl (connection_of_lookup hconn)]
    exact Nat.add_lt_add_right (Nat.add_lt_add_right hlink _) _

theorem load_read (h : Wired (fun _ => Linked host) c) {bytes : Bytes} {part : Part}
    (hpeer : c.peers.lookup client = some peer)
    (hbytes : bytes <+: peer.node.connection.written.drop peer.toMaster)
    (hconn : c.network.connections.lookup client = some conn) (hpart : conn.reading = some part)
    (hsize : bytes.length = Framing.bufferSize conn part) (toMaster : Nat) :
    load { c.setPeer client { peer with toMaster } with
      network := { c.network.setConnection client (conn.onRead .server true bytes part).1 with
        messagesIn := c.network.messagesIn ++
          (conn.onRead .server true bytes part).2.toList.map fun msg => (client, msg) } } < load c := by
  refine h.load_lt hpeer ⟨rfl, rfl, rfl⟩ ?_ ?_
  · intro client' hne
    refine peerLoad_congr (AList.lookup_insert_ne hne) rfl ?_ ((connection_set _ _ _ _).trans (if_neg hne))
    rw [receivedFrom_read, ofClient_ne hne, List.append_nil]
  · have hlinked := h.links client peer hpeer
    rw [connection_of_lookup hconn] at hlinked
    have hlink := hlinked.linkLoad_read hbytes hpart hsize
    have hload : peerLoad { c.setPeer client { peer with toMaster } with
        network := { c.network.setConnection client (conn.onRead .server true bytes part).1 with
          messagesIn := c.network.messagesIn ++
            (conn.onRead .server true bytes part).2.toList.map fun msg => (client, msg) } } client =
        linkLoad (c.sentTo client) (c.receivedFrom client ++ (conn.onRead .server true bytes part).2.toList)
          (conn.onRead .server true bytes part).1 peer.node := by
      refine peerLoad_eq (AList.lookup_insert _) rfl rfl ?_ ((connection_set _ _ _ _).trans (if_pos rfl))
      rw [receivedFrom_read, ofClient_self]
    unfold clientLoad
    rw [hload, peerLoad_eq hpeer rfl rfl rfl (connection_of_lookup hconn)]
    simp only [Network.posted, Network.setConnection, List.length_append, List.length_map]
    omega

theorem load_worker (h : Wired (fun _ => Linked host) c)
    (hframed : ∀ x ∈ c.network.system.shared.sent, Framed x.2) {e : WorkerNode.Event} {node : WorkerNode}
    (hpeer : c.peers.lookup client = some peer) (hok : e.Succeeds) (hself : ∀ number, e ≠ .spurious number)
    (hbytes : taken e <+: (c.connection client).written.drop peer.toWorker)
    (hnode : WorkerNode.Stepped host peer.node e node) (toWorker : Nat) :
    load (c.setPeer client { peer with node, toWorker }) < load c := by
  refine h.load_lt hpeer ⟨rfl, rfl, rfl⟩ ?_ ?_
  · exact fun client' hne => peerLoad_congr (AList.lookup_insert_ne hne) rfl rfl rfl
  · have hlink := h.links client peer hpeer
    have hlt : linkLoad (c.sentTo client) (c.receivedFrom client) (c.connection client) node <
        linkLoad (c.sentTo client) (c.receivedFrom client) (c.connection client) peer.node := by
      refine linkLoad_lt hlink.node hnode hok hself ?_
      rintro bytes part rfl hpart hsize
      refine ⟨_, hlink.receives_worker ?_ hbytes hpart hsize⟩
      intro msg hmsg
      have hsent := List.mem_of_mem_take (mem_ofClient.mp hmsg)
      exact hframed _ (List.mem_reverse.mp hsent)
    have hload : peerLoad (c.setPeer client { peer with node, toWorker }) client =
        linkLoad (c.sentTo client) (c.receivedFrom client) (c.connection client) node :=
      peerLoad_eq (AList.lookup_insert _) rfl rfl rfl rfl
    unfold clientLoad
    rw [hload, peerLoad_eq hpeer rfl rfl rfl rfl]
    exact Nat.add_lt_add_right (Nat.add_lt_add_right hlt _) _

theorem load_system {system : System} {messagesIn heard : List (Nat × Message)}
    (hsent : system.shared.sent = c.network.system.shared.sent)
    (hheard : heard ++ messagesIn = c.heard ++ c.network.messagesIn)
    (hload : workLeft system.shared.server system.threads + 9 * messagesIn.length <
      workLeft c.network.system.shared.server c.network.system.threads + 9 * c.network.messagesIn.length) :
    load { c with network := { c.network with system, messagesIn }, heard } < load c := by
  have hsum : ∑ client ∈ Finset.range c.nextPeer,
      peerLoad { c with network := { c.network with system, messagesIn }, heard } client =
        ∑ client ∈ Finset.range c.nextPeer, peerLoad c client := by
    refine Finset.sum_congr rfl fun client _ => peerLoad_congr rfl ?_ ?_ rfl
    · simp only [sentTo, hsent]
    · simp only [receivedFrom, hheard]
  simp only [load, hsum, Network.posted, hsent]
  omega

theorem begin_onMessage (settings : Settings) (s : Shared) (client : Nat) (msg : Message) :
    refillsLeft (begin settings s (.onMessage client msg)).2.toList = 0 ∧
      ((begin settings s (.onMessage client msg)).2.toList.map turnsLeft).sum ≤ 8 := by
  cases hpc : (begin settings s (.onMessage client msg)).2 with
  | none => exact ⟨rfl, Nat.zero_le _⟩
  | some pc =>
    cases begin_begun settings s _ pc hpc with
    | hello _ _ rest result hid hpop => exact ⟨rfl, show 2 ≤ 8 by decide⟩
    | taskDone _ _ rest taskId hid hpop => exact ⟨rfl, Nat.le_refl _⟩

/-! ## The rank -/

def rank (c : Cluster) : Nat × Nat × Nat :=
  (refillsLeft c.network.system.threads, c.network.system.shared.server.pendingTasks.length, load c)

abbrev Lower : Nat × Nat × Nat → Nat × Nat × Nat → Prop := Before (Before (· < ·))

theorem rank_of_load (hrefills : refillsLeft c'.network.system.threads = refillsLeft c.network.system.threads)
    (hpending : c'.network.system.shared.server.pendingTasks = c.network.system.shared.server.pendingTasks)
    (hload : load c' < load c) : Lower (rank c') (rank c) :=
  before_of_le hrefills.le (before_of_le (by rw [hpending]) hload)

/-- **Every step that the cluster takes by itself lowers the rank.** -/
theorem rank_lt (hguard : ∀ q e, guard q e → BatchesFit host q e) (h : Reaches (step settings host) guard {} c)
    {e : Event} (hinternal : Internal c e) (hstep : step settings host c e = some c') : Lower (rank c') (rank c) := by
  obtain ⟨hok, -, hself⟩ := hinternal
  have hwired := wired hguard h
  cases step_stepped hstep with
  | launch hardwareConcurrency => exact absurd hself id
  | accept hlt => exact rank_of_load rfl rfl (load_accept hwired hlt)
  | sendPosted client msg conn hposted hconn =>
    obtain ⟨peer, hpeer⟩ := hwired.peer (mem_of_lookup hconn)
    exact rank_of_load rfl rfl (load_sendPosted hwired hposted hpeer hconn)
  | wrote client ok conn conn' hconn hwrote =>
    obtain rfl : ok = true := hok
    obtain ⟨peer, hpeer⟩ := hwired.peer (mem_of_lookup hconn)
    exact rank_of_load rfl rfl (load_wrote hwired hpeer hconn hwrote)
  | read client ok bytes peer conn part hpeer hbytes hconn hpart hsize =>
    obtain rfl : ok = true := hok
    exact rank_of_load rfl rfl (load_read hwired hpeer hbytes hconn hpart (hsize rfl) _)
  | update client msg messagesIn system hupdating hmessages hsystem =>
    obtain ⟨hshared, hthreads⟩ := Threads.step_call hsystem
    obtain ⟨hrefills, hturns⟩ := begin_onMessage settings c.network.system.shared client msg
    obtain ⟨hellos, hbegin⟩ := begin_shared settings c.network.system.shared (.onMessage client msg)
    have hserver : system.shared.server = c.network.system.shared.server := by rw [hshared, begin_server]
    refine rank_of_load ?_ (by rw [hserver]) (load_system (by rw [hshared, hbegin]) ?_ ?_)
    · unfold refillsLeft at hrefills ⊢
      rw [hthreads, List.map_append, List.sum_append, hrefills, Nat.zero_add]
    · rw [hmessages, List.append_assoc]
      rfl
    · rw [hserver, hthreads, hmessages]
      simp only [workLeft, List.map_append, List.sum_append, List.length_cons]
      omega
  | startSearch request system hsystem => exact absurd hself id
  | run thread choice system hsystem =>
    cases step_lowered hsystem with
    | refilled h => exact before_of_lt h
    | dispatched hrefills h => exact before_of_le hrefills.le (before_of_lt h)
    | worked hrefills hpending hsent h =>
      exact rank_of_load hrefills hpending (load_system hsent rfl (Nat.add_lt_add_right h _))
  | worker client e peer node hpeer hbytes halive hnode =>
    refine rank_of_load rfl rfl (load_worker hwired (framed_sent h) hpeer hok ?_ hbytes hnode _)
    rintro number rfl
    exact hself

/-- **The cluster comes to rest**, whatever has failed so far. -/
theorem comes_to_rest {Post : Cluster → Prop} (hlines : ShortLines host)
    (h : Reaches (step settings host) (Spares host spared) {} c)
    (hpost : ∀ c', Reaches (step settings host) (Spares host spared) {} c' →
      (∀ client ∈ c.peers, client ∈ c'.peers) →
      AtRest (step settings host) Internal c' → Post c') :
    Inevitable (step settings host) Internal Post c := by
  refine inevitable_of_rank (before_wf (before_wf Nat.lt_wfRel.wf)) rank
    (fun c' => Reaches (step settings host) (Spares host spared) {} c' ∧ ∀ client ∈ c.peers, client ∈ c'.peers)
    ?_ ?_ ?_ c ⟨h, fun _ => id⟩
  · rintro c₁ e c₂ ⟨hreach, hpeers⟩ ⟨hok, hopens, -⟩ hstep
    have hwired := wired (fun _ _ hg => hg.1) hreach
    have hreach' := hreach.step e ⟨batchesFit hlines hreach hwired e, hopens, hok.of spared⟩ hstep
    refine ⟨hreach', fun client hclient => ?_⟩
    have hknown := (hwired.peers client).mp (hpeers client hclient)
    have hnext : c₁.nextPeer ≤ c₂.nextPeer := by
      cases step_stepped hstep with
      | launch hardwareConcurrency => exact Nat.le_succ _
      | _ => exact Nat.le_refl _
    exact ((wired (fun _ _ hg => hg.1) hreach').peers client).mpr ⟨hknown.1, Nat.lt_of_lt_of_le hknown.2 hnext⟩
  · rintro c₁ e c₂ ⟨hreach, -⟩ hinternal hstep
    exact rank_lt (fun _ _ hg => hg.1) hreach hinternal hstep
  · rintro c' ⟨hreach, hpeers⟩ hrest
    exact hpost c' hreach hpeers hrest

end

/-! ## The results -/

/-- **Every search completes.** In a cluster that has a worker, where nothing fails and no line of the files is as
long as 2 GiB: whatever has happened so far, and in whatever order the parts of the cluster take their steps
from here on, they come to rest, and then each search is done with the number of matching lines in its files. -/
theorem searches_complete (settings : Settings) (host : Host) (c : Cluster) (hlines : ShortLines host)
    (h : Reaches (step settings host) (fun q e => FilesOpen q e ∧ NoFailure q e) {} c)
    (hworker : ∃ client, client ∈ c.peers) :
    Inevitable (step settings host) Internal (fun c' => IdsFit c'.network.system.shared.server →
      ∀ search ∈ c'.network.system.shared.history.searches, Complete host c'.network.system.shared search) c := by
  have hall : Reaches (step settings host) (fun q e => FilesOpen q e ∧ NoFailureOf (fun _ => True) q e) {} c :=
    h.mono fun _ _ hg => ⟨hg.1, hg.2.of _⟩
  obtain ⟨client, hclient⟩ := hworker
  refine comes_to_rest hlines (reaches_fitting hlines hall) ?_
  intro c' hreach hpeers hrest hfit search hsearch
  rcases rest_outcome hlines (fun _ _ => id) hreach hrest hfit hsearch with hcomplete | ⟨hstranded, -⟩
  · exact hcomplete
  · -- With all connections spared, no task is stranded.
    rcases hstranded with ⟨_, hfailed, -⟩ | ⟨hfailed, -⟩
    · exact absurd trivial hfailed
    · exact absurd trivial (hfailed client (hpeers client hclient))

/-- The search of the small file goes on from where the worker has its task. -/
theorem searches_complete_small : ∃ c', Reaches (step {} smallHost) Internal afterTask c' ∧
    AtRest (step {} smallHost) Internal c' ∧ (IdsFit c'.network.system.shared.server →
      ∀ search ∈ c'.network.system.shared.history.searches,
        Complete smallHost c'.network.system.shared search) :=
  (searches_complete {} smallHost afterTask smallHost_shortLines (afterTask_reached.mono fun _ _ h => h.2)
    ⟨10000, by decide +kernel⟩).possible

/-- **Failures are contained.** Let any connections fail but those of some workers. Once nothing more fails, the
cluster comes to rest, and then each search is complete, unless it has a task in flight for one of the other workers,
or has a task to give away and there are only other workers. A poll of such a search says `Running`. -/
theorem failures_contained (settings : Settings) (host : Host) (spared : Nat → Prop) (c : Cluster)
    (hlines : ShortLines host)
    (h : Reaches (step settings host) (fun q e => FilesOpen q e ∧ NoFailureOf spared q e) {} c) :
    Inevitable (step settings host) Internal (fun c' => IdsFit c'.network.system.shared.server →
      ∀ search ∈ c'.network.system.shared.history.searches, Complete host c'.network.system.shared search ∨
        Stranded spared c' search ∧ (search.newTasks.length < 2 ^ 31 →
          (c'.network.system.shared.server.getStatus search.session.searchId).map (·.state) = some .running)) c :=
  comes_to_rest hlines (reaches_fitting hlines h) fun _ hreach _ hrest hfit _ hsearch =>
    rest_outcome hlines (fun _ _ => id) hreach hrest hfit hsearch

/-- The worker's connection breaks while it has the task, and another worker starts. -/
def afterBreak : Cluster :=
  Runs.after (step {} smallHost) (fun q e => FilesOpen q e ∧ NoFailureOf (· ≠ 10000) q e) afterTask
    [.master (.read 10000 false []), .launch 2]

theorem failures_contained_break : 10001 ∈ afterBreak.peers ∧
    ∃ c', Reaches (step {} smallHost) Internal afterBreak c' ∧ AtRest (step {} smallHost) Internal c' ∧
      (IdsFit c'.network.system.shared.server → ∀ search ∈ c'.network.system.shared.history.searches,
        Complete smallHost c'.network.system.shared search ∨
          Stranded (· ≠ 10000) c' search ∧ (search.newTasks.length < 2 ^ 31 →
            (c'.network.system.shared.server.getStatus search.session.searchId).map (·.state) = some .running)) :=
  ⟨by decide +kernel, (failures_contained {} smallHost (· ≠ 10000) afterBreak smallHost_shortLines
    (Runs.reaches_after _ (afterTask_reached.mono fun _ _ hg => ⟨hg.2.1, hg.2.2.of _⟩) (by decide +kernel))).possible⟩

end LogGrid.Cluster
