import LogGrid.Cluster.Basic

/-!
# The links of the cluster

Every worker has two links, to the master and from it. Each hands over what was
sent on it, in order and nothing else, as long as no batch is too long for its
frame, and whatever fails on the way.
-/

open LogGrid.StandardLayout LogGrid.Runs LogGrid.Net LogGrid.Net.Link LogGrid.Master LogGrid.FileProcessor

namespace LogGrid.Cluster

/-- The messages to one client, or from it. -/
def ofClient (client : Nat) (l : List (Nat × Message)) : List Message :=
  (l.filter fun x => x.1 = client).map Prod.snd

/-- What the handlers of `Send` have put on the connection of a client. -/
def sentTo (c : Cluster) (client : Nat) : List Message :=
  ofClient client (c.network.system.shared.sent.reverse.take c.network.handled)

/-- What was put into `m_qMessagesIn` for a client. -/
def receivedFrom (c : Cluster) (client : Nat) : List Message := ofClient client (c.heard ++ c.network.messagesIn)

@[simp] theorem ofClient_append (client : Nat) (l l' : List (Nat × Message)) :
    ofClient client (l ++ l') = ofClient client l ++ ofClient client l' := by
  simp [ofClient]

theorem ofClient_eq_nil {client : Nat} {l : List (Nat × Message)} (h : ∀ x ∈ l, x.1 ≠ client) :
    ofClient client l = [] := by
  simpa [ofClient] using h

theorem ofClient_self (client : Nat) (msgs : List Message) :
    ofClient client (msgs.map fun msg => (client, msg)) = msgs := by
  induction msgs with
  | nil => rfl
  | cons msg msgs ih => simpa [ofClient] using ih

theorem ofClient_ne {client client' : Nat} (h : client' ≠ client) (msgs : List Message) :
    ofClient client' (msgs.map fun msg => (client, msg)) = [] := by
  refine ofClient_eq_nil fun x hx => ?_
  obtain ⟨msg, -, rfl⟩ := List.mem_map.mp hx
  exact h.symm

theorem mem_ofClient {client : Nat} {l : List (Nat × Message)} {msg : Message} :
    msg ∈ ofClient client l ↔ (client, msg) ∈ l := by
  simp [ofClient]

/-! ## What is framed -/

theorem framed_push {α : Type} [StandardLayout α] (header : MessageHeader) (data : α)
    (hsize : 0 < byteSize α ∧ byteSize α < 2 ^ 32) : Framed (({ header } : Message).push data) := by
  have hlength : (({ header } : Message).push data).body.length = byteSize α := by simp [toBytes_length]
  constructor
  · show (UInt32.ofNat (({ header } : Message).push data).body.length).toNat = _
    rw [hlength, UInt32.toNat_ofNat', Nat.mod_eq_of_lt hsize.2]
  · apply List.ne_nil_of_length_pos
    rw [hlength]
    exact hsize.1

theorem framed_helloMessage (threadsAvailable : UInt64) : Framed (helloMessage threadsAvailable) :=
  framed_push _ _ ⟨by decide, by decide⟩

theorem framed_taskMessage (task : TaskPayload) : Framed (taskMessage task) := framed_push _ _ ⟨by decide, by decide⟩

theorem framed_answer (host : Host) (task : TaskPayload) (h : Framing.Sized (WorkerClient.answer host task)) :
    Framed (WorkerClient.answer host task) := by
  refine ⟨h, ?_⟩
  rw [WorkerClient.answer_body]
  apply List.ne_nil_of_length_pos
  rw [List.length_append, toBytes_length]
  exact Nat.lt_of_lt_of_le (by decide) (Nat.le_add_left _ _)

/-! ## The two links of one worker -/

/-- `conn` is the master's end of the connection, with what was sent on it and received from it. -/
structure Linked (host : Host) (sent received : List Message) (conn : Connection) (peer : Peer) : Prop where
  node : peer.node.Sound host
  down : Writes sent conn
  downRead : peer.node.connecting = true ∧ peer.toWorker = 0 ∨
    peer.node.connecting = false ∧ Receives sent peer.node.received peer.toWorker peer.node.connection
  upRead : Receives peer.node.sent received peer.toMaster conn
  framed : ∀ msg ∈ peer.node.sent ++ peer.node.posted, Framed msg
  toWorker : peer.toWorker ≤ conn.written.length
  toMaster : peer.toMaster ≤ peer.node.connection.written.length

section

variable {host : Host} {sent received : List Message} {conn conn' : Connection} {peer : Peer}

theorem linked_launch (host : Host) (hardwareConcurrency : UInt64) :
    Linked host [] [] (Connection.readHeader {}) { node := .create hardwareConcurrency } where
  node := WorkerNode.sound_create hardwareConcurrency
  down := Or.inl ⟨[], rfl, rfl⟩
  downRead := Or.inl ⟨rfl, rfl⟩
  upRead := ⟨[], rfl, .header [] rfl rfl⟩
  framed := by simp [WorkerNode.create]
  toWorker := Nat.zero_le _
  toMaster := Nat.zero_le _

theorem Linked.write (h : Linked host sent received conn peer) {sent' : List Message} (hdown : Writes sent' conn')
    (hsent : ∃ msgs, sent' = sent ++ msgs) (hwrite : conn.WriteOnly conn') : Linked host sent' received conn' peer := by
  refine { h with
    down := hdown
    downRead := ?_
    upRead := h.upRead.write hwrite
    toWorker := Nat.le_trans h.toWorker hwrite.written.length_le }
  obtain ⟨msgs, rfl⟩ := hsent
  rcases h.downRead with hnot | ⟨hconnected, hreads⟩
  · exact Or.inl hnot
  · refine Or.inr ⟨hconnected, ?_⟩
    obtain ⟨rest, hrest, hreading⟩ := hreads
    exact ⟨rest ++ msgs, by rw [hrest, List.append_assoc], hreading.append msgs⟩

theorem Linked.send (h : Linked host sent received conn peer) (msg : Message) :
    Linked host (sent ++ [msg]) received (conn.send msg) peer :=
  h.write (h.down.send msg) ⟨_, rfl⟩ (conn.writeOnly_send msg)

theorem Linked.wrote (h : Linked host sent received conn peer) {ok : Bool}
    (hwrote : Framing.writerStep conn (.wrote ok) = some conn') : Linked host sent received conn' peer :=
  h.write (h.down.wrote ok hwrote) ⟨[], (List.append_nil _).symm⟩ (Connection.writeOnly_wrote hwrote)

theorem consumed_le {bytes written : Bytes} {consumed : Nat} (h : bytes <+: written.drop consumed)
    (hconsumed : consumed ≤ written.length) : consumed + bytes.length ≤ written.length := by
  have hle := h.length_le
  rw [List.length_drop] at hle
  omega

theorem receives_read {sent delivered : List Message} {consumed : Nat} {c : Connection} {written : Bytes}
    (h : Receives sent delivered consumed c) (hframed : ∀ msg ∈ sent, Framed msg)
    (hwritten : written <+: sent.flatMap Framing.frame) (ok : Bool) (bytes : Bytes)
    (hbytes : arrived ok bytes <+: written.drop consumed) (owner : Owner) (part : Part)
    (hpart : c.reading = some part) (hsize : ok = true → bytes.length = Framing.bufferSize c part) :
    Receives sent (delivered ++ (c.onRead owner ok bytes part).2.toList) (consumed + (arrived ok bytes).length)
      (c.onRead owner ok bytes part).1 := by
  cases ok with
  | true => exact h.read hframed hwritten hbytes owner part hpart (hsize rfl)
  | false => exact h.fail owner part _

theorem Linked.read (h : Linked host sent received conn peer) (ok : Bool) (bytes : Bytes) (part : Part)
    (hbytes : arrived ok bytes <+: peer.node.connection.written.drop peer.toMaster)
    (hpart : conn.reading = some part) (hsize : ok = true → bytes.length = Framing.bufferSize conn part) :
    Linked host sent (received ++ (conn.onRead .server ok bytes part).2.toList)
      (conn.onRead .server ok bytes part).1 { peer with toMaster := peer.toMaster + (arrived ok bytes).length } := by
  obtain ⟨hqueue, hwriting, hwritten⟩ := conn.onRead_writer .server ok bytes part
  refine { h with
    down := h.down.congr hqueue hwriting hwritten
    upRead := ?_
    toWorker := hwritten ▸ h.toWorker
    toMaster := consumed_le hbytes h.toMaster }
  exact receives_read h.upRead (fun msg hmsg => h.framed msg (List.mem_append_left _ hmsg)) h.node.writes.isPrefix ok
    bytes hbytes .server part hpart hsize

theorem Linked.workerRead (h : Linked host sent received conn peer) (hframed : ∀ msg ∈ sent, Framed msg) (ok : Bool)
    (bytes : Bytes) (part : Part) (hbytes : arrived ok bytes <+: conn.written.drop peer.toWorker)
    (hpart : peer.node.connection.reading = some part)
    (hsize : ok = true → bytes.length = Framing.bufferSize peer.node.connection part) {node : WorkerNode}
    (hnode : node.Sound host) (hreceived : node.received =
      peer.node.received ++ (peer.node.connection.onRead WorkerNode.owner ok bytes part).2.toList)
    (hunnoticed : WorkerNode.Unnoticed { peer.node with
      connection := (peer.node.connection.onRead WorkerNode.owner ok bytes part).1 } node) :
    Linked host sent received conn { peer with node, toWorker := peer.toWorker + (arrived ok bytes).length } := by
  obtain ⟨hconnection, hconnecting, hposted, hsent⟩ := hunnoticed
  obtain ⟨-, -, hwritten⟩ := peer.node.connection.onRead_writer WorkerNode.owner ok bytes part
  refine ⟨hnode, h.down, ?_, ?_, ?_, consumed_le hbytes h.toWorker, ?_⟩
  · rcases h.downRead with ⟨hnot, -⟩ | ⟨hconnected, hreads⟩
    · rw [(h.node.unconnected hnot).1] at hpart
      cases hpart
    · refine Or.inr ⟨hconnecting.trans hconnected, ?_⟩
      simp only [hreceived, hconnection]
      exact receives_read hreads hframed h.down.isPrefix ok bytes hbytes WorkerNode.owner part hpart hsize
  · simp only [hsent]
    exact h.upRead
  · simp only [hsent, hposted]
    exact h.framed
  · simp only [hconnection, hwritten]
    exact h.toMaster

theorem Linked.worker (h : Linked host sent received conn peer) (hframed : ∀ msg ∈ sent, Framed msg)
    {e : WorkerNode.Event} {node : WorkerNode} (hnode : WorkerNode.Stepped host peer.node e node)
    (hbytes : taken e <+: conn.written.drop peer.toWorker)
    (hfits : ∀ number, e = .turn number → ∀ task ∈ peer.node.running number,
      Framing.Sized (WorkerClient.answer host task)) :
    Linked host sent received conn { peer with node, toWorker := peer.toWorker + (taken e).length } := by
  have hsound := h.node.stepped hnode
  cases hnode with
  | connected hconnecting =>
    obtain ⟨hconnection, hposted, -, hreceived, -⟩ := h.node.unconnected hconnecting
    have hstart : peer.toWorker = 0 := by
      rcases h.downRead with ⟨-, hzero⟩ | ⟨hconnected, -⟩
      · exact hzero
      · rw [hconnected] at hconnecting
        cases hconnecting
    have hopen : (peer.node.connection.readHeader).isOpen = true := by rw [hconnection]; rfl
    unfold WorkerNode.sendHello WorkerNode.send at hsound ⊢
    rw [if_pos hopen] at hsound ⊢
    refine { h with
      node := hsound
      downRead := Or.inr ⟨rfl, sent, ?_, ?_⟩
      framed := ?_ }
    · simp only [hreceived, List.nil_append]
    · simp only [hreceived]
      exact .header sent rfl hstart
    · intro msg hmsg
      simp only [← List.append_assoc] at hmsg
      rcases List.mem_append.mp hmsg with hmsg | hmsg
      · exact h.framed msg hmsg
      · rw [List.mem_singleton.mp hmsg]
        exact framed_helloMessage _
  | refused hconnecting =>
    obtain ⟨-, -, -, hreceived, -⟩ := h.node.unconnected hconnecting
    have hreading : peer.node.connection.reading = none := by rw [(h.node.unconnected hconnecting).1]
    refine { h with
      node := hsound
      downRead := Or.inr ⟨rfl, sent, ?_, .ended sent hreading⟩ }
    simp only [hreceived, List.nil_append]
  | sendPosted msg posted hposted =>
    refine { h with
      node := hsound
      downRead := ?_
      upRead := h.upRead.send msg
      framed := ?_
      toMaster := Nat.le_trans h.toMaster (peer.node.connection.writeOnly_send msg).written.length_le }
    · rcases h.downRead with hnot | ⟨hconnected, hreads⟩
      · exact Or.inl hnot
      · exact Or.inr ⟨hconnected, hreads.write (peer.node.connection.writeOnly_send msg)⟩
    · have hsame : peer.node.sent ++ [msg] ++ posted = peer.node.sent ++ peer.node.posted := by
        rw [hposted, List.append_assoc]
        rfl
      exact hsame ▸ h.framed
  | wrote ok connection hwrote =>
    have hwrite := Connection.writeOnly_wrote hwrote
    refine { h with
      node := hsound
      downRead := ?_
      toMaster := Nat.le_trans h.toMaster hwrite.written.length_le }
    rcases h.downRead with hnot | ⟨hconnected, hreads⟩
    · exact Or.inl hnot
    · exact Or.inr ⟨hconnected, hreads.write hwrite⟩
  | got ok bytes part hpart hsize hnone =>
    refine h.workerRead hframed ok bytes part hbytes hpart hsize hsound ?_ ⟨rfl, rfl, rfl, rfl⟩
    rw [hnone, Option.toList_none, List.append_nil]
  | handed ok bytes part hpart hsize msg hsome _ hhandled =>
    obtain ⟨hreceived, hunnoticed⟩ := hhandled.frame
    refine h.workerRead hframed ok bytes part hbytes hpart hsize hsound ?_ hunnoticed
    rw [hreceived, hsome]
    rfl
  | notified woken threadPool hstep => exact { h with node := hsound }
  | spurious worker threadPool hstep => exact { h with node := hsound }
  | locked worker hlocking => exact { h with node := hsound }
  | finished worker task hrunning =>
    have hfit := hfits worker rfl task (by simp [WorkerNode.running, hrunning])
    unfold WorkerNode.send at hsound ⊢
    split at hsound
    · rename_i hopen
      rw [if_pos hopen]
      refine { h with
        node := hsound
        framed := ?_ }
      intro msg hmsg
      simp only [← List.append_assoc] at hmsg
      rcases List.mem_append.mp hmsg with hmsg | hmsg
      · exact h.framed msg hmsg
      · rw [List.mem_singleton.mp hmsg]
        exact framed_answer host task hfit
    · rename_i hclosed
      rw [if_neg hclosed]
      exact { h with node := hsound }

theorem Linked.received_isPrefix (h : Linked host sent received conn peer) : peer.node.received <+: sent := by
  rcases h.downRead with ⟨hnot, -⟩ | ⟨-, rest, hsent, -⟩
  · rw [(h.node.unconnected hnot).2.2.2.1]
    exact List.nil_prefix
  · exact ⟨rest, hsent.symm⟩

theorem Linked.sent_isPrefix (h : Linked host sent received conn peer) : received <+: peer.node.sent := by
  obtain ⟨rest, hsent, -⟩ := h.upRead
  exact ⟨rest, hsent.symm⟩

end

/-! ## All links -/

/-- What holds of both links of a worker, from what was sent to it and received from it. -/
abbrev LinkProp := List Message → List Message → Connection → Peer → Prop

/-- Every process is linked, and the master knows no client but these. -/
structure Wired (P : Nat → LinkProp) (c : Cluster) : Prop where
  links : ∀ client peer, c.peers.lookup client = some peer →
    P client (c.sentTo client) (c.receivedFrom client) (c.connection client) peer
  peers : ∀ client, client ∈ c.peers ↔ 10000 ≤ client ∧ client < c.nextPeer
  accepted : ∀ client, client ∈ c.network.connections ↔ 10000 ≤ client ∧ client < c.network.nIDCounter
  counter : 10000 ≤ c.network.nIDCounter ∧ c.network.nIDCounter ≤ c.nextPeer
  handled : c.network.handled ≤ c.network.system.shared.sent.length
  sent : ∀ x ∈ c.network.system.shared.sent.reverse.take c.network.handled, x.1 ∈ c.network.connections
  received : ∀ x ∈ c.heard ++ c.network.messagesIn, x.1 ∈ c.network.connections

/-- What holds of the link of a worker that starts. -/
def AtLaunch (P : LinkProp) : Prop :=
  ∀ hardwareConcurrency, P [] [] (Connection.readHeader {}) { node := .create hardwareConcurrency }

/-- What the steps of a worker and of the master's handlers keep, unless something fails and nothing may. -/
structure LinkLaw (host : Host) (smooth : Prop) (P : LinkProp) : Prop where
  send : ∀ sent received conn peer msg, P sent received conn peer → P (sent ++ [msg]) received (conn.send msg) peer
  wrote : ∀ sent received conn conn' peer ok, P sent received conn peer → (smooth → ok = true) →
    Framing.writerStep conn (.wrote ok) = some conn' → P sent received conn' peer
  read : ∀ sent received conn peer ok bytes part, P sent received conn peer → (smooth → ok = true) →
    arrived ok bytes <+: peer.node.connection.written.drop peer.toMaster → conn.reading = some part →
    (ok = true → bytes.length = Framing.bufferSize conn part) →
    P sent (received ++ (conn.onRead .server ok bytes part).2.toList) (conn.onRead .server ok bytes part).1
      { peer with toMaster := peer.toMaster + (arrived ok bytes).length }
  worker : ∀ sent received conn peer e node, P sent received conn peer → (smooth → e.Succeeds) →
    (∀ msg ∈ sent, Framed msg) → WorkerNode.Stepped host peer.node e node →
    taken e <+: conn.written.drop peer.toWorker →
    (∀ number, e = .turn number → ∀ task ∈ peer.node.running number,
      Framing.Sized (WorkerClient.answer host task)) →
    P sent received conn { peer with node, toWorker := peer.toWorker + (taken e).length }

theorem linked_law (host : Host) : LinkLaw host False (Linked host) where
  send _ _ _ _ msg h := h.send msg
  wrote _ _ _ _ _ _ h _ hwrote := h.wrote hwrote
  read _ _ _ _ ok bytes part h _ hbytes hpart hsize := h.read ok bytes part hbytes hpart hsize
  worker _ _ _ _ _ _ h _ hframed hnode hbytes hfits := h.worker hframed hnode hbytes hfits

theorem LinkLaw.given {host : Host} {smooth smooth' q : Prop} {P : LinkProp} (law : LinkLaw host smooth P)
    (hsmooth : q → smooth → smooth') :
    LinkLaw host smooth' fun sent received conn peer => q → P sent received conn peer where
  send _ _ _ _ msg h hq := law.send _ _ _ _ msg (h hq)
  wrote _ _ _ _ _ ok h hok hwrote hq := law.wrote _ _ _ _ _ ok (h hq) (fun hs => hok (hsmooth hq hs)) hwrote
  read _ _ _ _ ok bytes part h hok hbytes hpart hsize hq :=
    law.read _ _ _ _ ok bytes part (h hq) (fun hs => hok (hsmooth hq hs)) hbytes hpart hsize
  worker _ _ _ _ _ _ h hok hframed hnode hbytes hfits hq :=
    law.worker _ _ _ _ _ _ (h hq) (fun hs => hok (hsmooth hq hs)) hframed hnode hbytes hfits

section

variable {settings : Settings} {host : Host} {guard : Cluster → Event → Prop} {c c' : Cluster}
  {smooth : Nat → Prop} {P : Nat → LinkProp}

theorem connection_of_lookup {client : Nat} {conn : Connection}
    (h : c.network.connections.lookup client = some conn) : c.connection client = conn := by
  rw [connection, h]
  rfl

theorem connection_of_notMem {client : Nat} (h : client ∉ c.network.connections) :
    c.connection client = Connection.readHeader {} := by
  rw [connection, AList.lookup_eq_none.mpr h]
  rfl

theorem connection_set (n : Network) (client client' : Nat) (conn : Connection) :
    (((n.setConnection client conn).connections.lookup client').getD (Connection.readHeader {})) =
      if client' = client then conn else (n.connections.lookup client').getD (Connection.readHeader {}) := by
  unfold Network.setConnection
  split
  · rename_i h
    subst h
    simp
  · rename_i h
    rw [AList.lookup_insert_ne h]

theorem mem_setConnection (n : Network) {client : Nat} (hclient : client ∈ n.connections) (client' : Nat)
    (conn : Connection) : client' ∈ (n.setConnection client conn).connections ↔ client' ∈ n.connections := by
  rw [Network.setConnection, AList.mem_insert]
  constructor
  · rintro (rfl | h)
    · exact hclient
    · exact h
  · exact Or.inr

theorem mem_setPeer {client : Nat} (hclient : client ∈ c.peers) (client' : Nat) (peer : Peer) :
    client' ∈ (c.setPeer client peer).peers ↔ client' ∈ c.peers := by
  rw [setPeer, AList.mem_insert]
  constructor
  · rintro (rfl | h)
    · exact hclient
    · exact h
  · exact Or.inr

theorem mem_of_lookup {β : Nat → Type} {m : AList β} {k : Nat} {b : β k} (h : m.lookup k = some b) : k ∈ m :=
  AList.lookup_isSome.mp (by rw [h]; rfl)

theorem connection_accept (c : Cluster) (hnew : c.network.nIDCounter ∉ c.network.connections) (client : Nat) :
    ({ c with network := c.network.accept } : Cluster).connection client = c.connection client := by
  by_cases hclient : client = c.network.nIDCounter
  · subst hclient
    rw [connection_of_notMem hnew]
    simp [connection, Network.accept]
  · simp [connection, Network.accept, AList.lookup_insert_ne hclient]

theorem take_posted {x : Nat × Message} (hposted : c.network.posted.head? = some x) :
    c.network.handled + 1 ≤ c.network.system.shared.sent.length ∧
      c.network.system.shared.sent.reverse.take (c.network.handled + 1) =
        c.network.system.shared.sent.reverse.take c.network.handled ++ [x] := by
  rw [Network.posted, List.head?_drop] at hposted
  have hlength := (List.getElem?_eq_some_iff.mp hposted).1
  rw [List.length_reverse] at hlength
  refine ⟨hlength, ?_⟩
  rw [List.take_add_one, hposted]
  rfl

theorem sentTo_sendPosted {x : Nat × Message} (hposted : c.network.posted.head? = some x) (conn : Connection)
    (client client' : Nat) : ({ c with network := { c.network.setConnection client conn with
      handled := c.network.handled + 1 } } : Cluster).sentTo client' = c.sentTo client' ++ ofClient client' [x] := by
  unfold sentTo
  simp only [Network.setConnection, (take_posted hposted).2, ofClient_append]

theorem receivedFrom_read (c : Cluster) (client client' : Nat) (peer : Peer) (conn : Connection) (msgs : List Message) :
    ({ c.setPeer client peer with network := { c.network.setConnection client conn with
      messagesIn := c.network.messagesIn ++ msgs.map fun msg => (client, msg) } } : Cluster).receivedFrom client' =
        c.receivedFrom client' ++ ofClient client' (msgs.map fun msg => (client, msg)) := by
  simp only [receivedFrom, setPeer, ← List.append_assoc, ofClient_append]

theorem sentTo_system (hhandled : c.network.handled ≤ c.network.system.shared.sent.length) {system : System}
    (hsent : c.network.system.shared.sent <:+ system.shared.sent) (client : Nat) :
    ({ c with network := { c.network with system } } : Cluster).sentTo client = c.sentTo client := by
  obtain ⟨new, hnew⟩ := hsent
  unfold sentTo
  simp only
  rw [← hnew, List.reverse_append, List.take_append_of_le_length (by rw [List.length_reverse]; exact hhandled)]

theorem Wired.other (h : Wired P c) {client : Nat} {peer : Peer}
    (hpeer : c.peers.lookup client = some peer) (hsent : c'.sentTo client = c.sentTo client)
    (hreceived : c'.receivedFrom client = c.receivedFrom client) (hconn : c'.connection client = c.connection client) :
    P client (c'.sentTo client) (c'.receivedFrom client) (c'.connection client) peer := by
  rw [hsent, hreceived, hconn]
  exact h.links client peer hpeer

theorem Wired.launch (hlaunch : AtLaunch (P c.nextPeer)) (h : Wired P c) (hardwareConcurrency : UInt64) :
    Wired P { c.setPeer c.nextPeer { node := .create hardwareConcurrency } with nextPeer := c.nextPeer + 1 } := by
  have hlt := h.counter.2
  have hnew : c.nextPeer ∉ c.network.connections := by
    rw [h.accepted]
    omega
  refine { h with
    links := ?_
    peers := ?_
    counter := ⟨h.counter.1, Nat.le_succ_of_le h.counter.2⟩ }
  · intro client peer hpeer
    by_cases hclient : client = c.nextPeer
    · subst hclient
      simp only [setPeer, AList.lookup_insert, Option.some.injEq] at hpeer
      subst hpeer
      have hsent : c.sentTo c.nextPeer = [] := ofClient_eq_nil fun x hx heq => hnew (heq ▸ h.sent x hx)
      have hreceived : c.receivedFrom c.nextPeer = [] :=
        ofClient_eq_nil fun x hx heq => hnew (heq ▸ h.received x hx)
      show P c.nextPeer (c.sentTo c.nextPeer) (c.receivedFrom c.nextPeer) (c.connection c.nextPeer) _
      rw [hsent, hreceived, connection_of_notMem hnew]
      exact hlaunch hardwareConcurrency
    · simp only [setPeer, AList.lookup_insert_ne hclient] at hpeer
      exact h.other hpeer rfl rfl rfl
  · intro client
    have := h.counter.1
    simp only [setPeer, AList.mem_insert, h.peers client]
    omega

theorem Wired.accept (h : Wired P c) (hlt : c.network.nIDCounter < c.nextPeer) :
    Wired P { c with network := c.network.accept } := by
  have hnew : c.network.nIDCounter ∉ c.network.connections := by
    rw [h.accepted]
    omega
  refine { h with
    links := ?_
    accepted := ?_
    counter := ⟨Nat.le_succ_of_le h.counter.1, hlt⟩
    sent := fun x hx => AList.mem_insert _ |>.mpr (Or.inr (h.sent x hx))
    received := fun x hx => AList.mem_insert _ |>.mpr (Or.inr (h.received x hx)) }
  · exact fun client peer hpeer => h.other hpeer rfl rfl (connection_accept c hnew client)
  · intro client
    have := h.counter.1
    simp only [Network.accept, AList.mem_insert, h.accepted client]
    omega

theorem Wired.sendPosted (law : ∀ client, LinkLaw host (smooth client) (P client)) (h : Wired P c) {client : Nat}
    {msg : Message} {conn : Connection}
    (hposted : c.network.posted.head? = some (client, msg))
    (hconn : c.network.connections.lookup client = some conn) :
    Wired P { c with network := { c.network.setConnection client (conn.send msg) with
      handled := c.network.handled + 1 } } := by
  have hmem := mem_of_lookup hconn
  obtain ⟨hlength, htake⟩ := take_posted hposted
  refine { h with
    links := ?_
    accepted := fun client' => (mem_setConnection _ hmem client' _).trans (h.accepted client')
    handled := hlength
    sent := ?_
    received := fun x hx => (mem_setConnection _ hmem _ _).mpr (h.received x hx) }
  · intro client' peer hpeer
    have hlink := h.links client' peer hpeer
    rw [sentTo_sendPosted hposted]
    unfold connection at hlink ⊢
    simp only [Network.setConnection]
    by_cases hclient : client' = client
    · subst hclient
      rw [hconn] at hlink
      rw [AList.lookup_insert, show ofClient client' [(client', msg)] = [msg] from ofClient_self client' [msg]]
      exact (law _).send _ _ _ _ msg hlink
    · rw [AList.lookup_insert_ne hclient, show ofClient client' [(client, msg)] = [] from ofClient_ne hclient [msg],
        List.append_nil]
      exact hlink
  · intro x hx
    rw [mem_setConnection _ hmem]
    simp only [Network.setConnection, htake] at hx
    rcases List.mem_append.mp hx with hx | hx
    · exact h.sent x hx
    · rw [List.mem_singleton.mp hx]
      exact hmem

theorem Wired.wrote (law : ∀ client, LinkLaw host (smooth client) (P client)) (h : Wired P c) {client : Nat}
    {ok : Bool} {conn conn' : Connection} (hok : smooth client → ok = true)
    (hconn : c.network.connections.lookup client = some conn)
    (hwrote : Framing.writerStep conn (.wrote ok) = some conn') :
    Wired P { c with network := c.network.setConnection client conn' } := by
  have hmem := mem_of_lookup hconn
  refine { h with
    links := ?_
    accepted := fun client' => (mem_setConnection _ hmem client' _).trans (h.accepted client')
    sent := fun x hx => (mem_setConnection _ hmem _ _).mpr (h.sent x hx)
    received := fun x hx => (mem_setConnection _ hmem _ _).mpr (h.received x hx) }
  intro client' peer hpeer
  have hview : ({ c with network := c.network.setConnection client conn' } : Cluster).connection client' =
      if client' = client then conn' else c.connection client' := connection_set _ _ _ _
  rw [hview]
  split
  · rename_i hclient
    subst hclient
    have hlink := h.links client' peer hpeer
    rw [connection_of_lookup hconn] at hlink
    exact (law _).wrote _ _ _ _ _ _ hlink hok hwrote
  · exact h.links client' peer hpeer

theorem Wired.read (law : ∀ client, LinkLaw host (smooth client) (P client)) (h : Wired P c) {client : Nat}
    {ok : Bool} {bytes : Bytes} {peer : Peer} {conn : Connection} {part : Part} (hok : smooth client → ok = true)
    (hpeer : c.peers.lookup client = some peer)
    (hbytes : arrived ok bytes <+: peer.node.connection.written.drop peer.toMaster)
    (hconn : c.network.connections.lookup client = some conn) (hpart : conn.reading = some part)
    (hsize : ok = true → bytes.length = Framing.bufferSize conn part) :
    Wired P { c.setPeer client { peer with toMaster := peer.toMaster + (arrived ok bytes).length } with
      network := { c.network.setConnection client (conn.onRead .server ok bytes part).1 with
        messagesIn := c.network.messagesIn ++
          (conn.onRead .server ok bytes part).2.toList.map fun msg => (client, msg) } } := by
  have hmem := mem_of_lookup hconn
  refine { h with
    links := ?_
    peers := fun client' => (mem_setPeer (mem_of_lookup hpeer) client' _).trans (h.peers client')
    accepted := fun client' => (mem_setConnection _ hmem client' _).trans (h.accepted client')
    sent := fun x hx => (mem_setConnection _ hmem _ _).mpr (h.sent x hx)
    received := ?_ }
  · intro client' peer' hpeer'
    rw [receivedFrom_read]
    unfold connection
    simp only [Network.setConnection]
    by_cases hclient : client' = client
    · subst hclient
      simp only [setPeer, AList.lookup_insert, Option.some.injEq] at hpeer'
      subst hpeer'
      have hlink := h.links client' peer hpeer
      rw [connection_of_lookup hconn] at hlink
      rw [ofClient_self, AList.lookup_insert]
      exact (law _).read _ _ _ _ ok bytes part hlink hok hbytes hpart hsize
    · simp only [setPeer, AList.lookup_insert_ne hclient] at hpeer'
      rw [AList.lookup_insert_ne hclient, ofClient_ne hclient, List.append_nil]
      exact h.links client' peer' hpeer'
  · intro x hx
    rw [mem_setConnection _ hmem]
    simp only [setPeer, ← List.append_assoc] at hx
    rcases List.mem_append.mp hx with hx | hx
    · exact h.received x hx
    · obtain ⟨_, -, rfl⟩ := List.mem_map.mp hx
      exact hmem

theorem Wired.worker (law : ∀ client, LinkLaw host (smooth client) (P client)) (h : Wired P c)
    (hframed : ∀ x ∈ c.network.system.shared.sent, Framed x.2) {client : Nat} {e : WorkerNode.Event} {peer : Peer}
    {node : WorkerNode} (hok : smooth client → e.Succeeds) (hpeer : c.peers.lookup client = some peer)
    (hbytes : taken e <+: (c.connection client).written.drop peer.toWorker)
    (hnode : WorkerNode.Stepped host peer.node e node) (hfits : BatchesFit host c (.worker client e)) :
    Wired P (c.setPeer client { peer with node, toWorker := peer.toWorker + (taken e).length }) := by
  refine { h with
    links := ?_
    peers := fun client' => (mem_setPeer (mem_of_lookup hpeer) client' _).trans (h.peers client') }
  intro client' peer' hpeer'
  by_cases hclient : client' = client
  · subst hclient
    simp only [setPeer, AList.lookup_insert, Option.some.injEq] at hpeer'
    subst hpeer'
    refine (law _).worker _ _ _ _ _ _ (h.links client' peer hpeer) hok ?_ hnode hbytes ?_
    · intro msg hmsg
      have hsent := List.mem_of_mem_take (mem_ofClient.mp hmsg)
      exact hframed _ (List.mem_reverse.mp hsent)
    · rintro number rfl task htask
      exact hfits peer hpeer task htask
  · simp only [setPeer, AList.lookup_insert_ne hclient] at hpeer'
    exact h.other hpeer' rfl rfl rfl

theorem Wired.system (h : Wired P c) {system : System}
    (hsent : c.network.system.shared.sent <:+ system.shared.sent) :
    Wired P { c with network := { c.network with system } } := by
  refine { h with
    links := fun client peer hpeer => h.other hpeer (sentTo_system h.handled hsent client) rfl rfl
    handled := Nat.le_trans h.handled hsent.length_le
    sent := ?_ }
  obtain ⟨new, hnew⟩ := hsent
  simp only
  rw [← hnew, List.reverse_append, List.take_append_of_le_length (by rw [List.length_reverse]; exact h.handled)]
  exact h.sent

theorem sent_suffix {p p' : System} {e : Master.Event} (h : Master.step settings p e = some p') :
    p.shared.sent <:+ p'.shared.sent := by
  rcases step_cases h with ⟨op, -, hshared, -⟩ | ⟨_, choice, pc, _, next, -, -, hran, -⟩
  · obtain ⟨hellos, hbegin⟩ := begin_shared settings p.shared op
    rw [hshared, hbegin]
  · rcases hran.sent with ⟨client, hdispatch⟩ | ⟨hsent, -⟩
    · rw [hdispatch]
      exact List.suffix_append _ _
    · rw [hsent]

theorem framed_sent (h : Reaches (step settings host) guard {} c) :
    ∀ x ∈ c.network.system.shared.sent, Framed x.2 := by
  intro x hx
  obtain ⟨task, -, taskId, hmsg⟩ := sentPublished (master_reaches h) x hx
  rw [hmsg]
  exact framed_taskMessage _

theorem wired_initial : Wired P {} where
  links client peer hpeer := by cases hpeer
  peers client := by
    show client ∈ (∅ : AList _) ↔ _
    simp only [AList.notMem_empty, false_iff]
    omega
  accepted client := by
    show client ∈ (∅ : AList _) ↔ _
    simp only [AList.notMem_empty, false_iff]
    omega
  counter := ⟨Nat.le_refl _, Nat.le_refl _⟩
  handled := Nat.le_refl _
  sent x hx := by cases hx
  received x hx := by cases hx

theorem nextPeer_le {e : Event} (h : step settings host c e = some c') : c.nextPeer ≤ c'.nextPeer := by
  cases step_stepped h with
  | launch hardwareConcurrency => exact Nat.le_succ _
  | _ => exact Nat.le_refl _

theorem link_run (law : ∀ client, LinkLaw host (smooth client) (P client))
    (hlaunch : ∀ client, c.nextPeer ≤ client → AtLaunch (P client))
    (hguard : ∀ q e, guard q e → BatchesFit host q e ∧ NoFailureOf smooth q e)
    (h : Reaches (step settings host) Any {} c) (hwired : Wired P c) (hrun : Reaches (step settings host) guard c c') :
    Wired P c' := by
  refine (hrun.invariant (fun c' => Wired P c' ∧ c.nextPeer ≤ c'.nextPeer) ⟨hwired, Nat.le_refl _⟩ ?_).1
  rintro c₁ e c₂ hrun₁ ⟨hwired, hnext⟩ hg hstep
  obtain ⟨hfits, hok⟩ := hguard _ _ hg
  refine ⟨?_, Nat.le_trans hnext (nextPeer_le hstep)⟩
  cases step_stepped hstep with
  | launch hardwareConcurrency => exact hwired.launch (hlaunch _ hnext) hardwareConcurrency
  | accept hlt => exact hwired.accept hlt
  | sendPosted client msg conn hposted hconn => exact hwired.sendPosted law hposted hconn
  | wrote client ok conn conn' hconn hwrote => exact hwired.wrote law hok hconn hwrote
  | read client ok bytes peer conn part hpeer hbytes hconn hpart hsize =>
    exact hwired.read law hok hpeer hbytes hconn hpart hsize
  | update client msg messagesIn system hupdating hmessages hsystem =>
    have hmoved : c₁.heard ++ [(client, msg)] ++ messagesIn = c₁.heard ++ c₁.network.messagesIn := by
      rw [hmessages, List.append_assoc]
      rfl
    have hnext := hwired.system (sent_suffix hsystem)
    refine { hnext with
      links := fun client' peer hpeer => ?_
      received := fun x hx => hwired.received x (hmoved ▸ hx) }
    refine hnext.other hpeer rfl ?_ rfl
    unfold receivedFrom
    rw [hmoved]
  | startSearch request system hsystem => exact hwired.system (sent_suffix hsystem)
  | run thread choice system hsystem => exact hwired.system (sent_suffix hsystem)
  | worker client e peer node hpeer hbytes halive hnode =>
    exact hwired.worker law (framed_sent (h.trans hrun₁.any)) hok hpeer hbytes hnode hfits

theorem link_invariant (law : ∀ client, LinkLaw host (smooth client) (P client))
    (hlaunch : ∀ client, AtLaunch (P client))
    (hguard : ∀ q e, guard q e → BatchesFit host q e ∧ NoFailureOf smooth q e)
    (h : Reaches (step settings host) guard {} c) : Wired P c :=
  link_run law (fun client _ => hlaunch client) hguard .start wired_initial h

theorem wired (hguard : ∀ q e, guard q e → BatchesFit host q e) (h : Reaches (step settings host) guard {} c) :
    Wired (fun _ => Linked host) c :=
  link_invariant (fun _ => linked_law host) (fun _ => linked_launch host)
    (fun q e hg => ⟨hguard q e hg, noFailureOf_none q e⟩) h

theorem taskIn_taskMessage (task : TaskPayload) : WorkerNode.taskIn (taskMessage task) = some (wireTask task) := by
  obtain ⟨rest, hpop⟩ := taskMessage_pop task
  have hid : (taskMessage task).header.id = LogSearchMsg.serverSearchTask.value := rfl
  rw [WorkerNode.taskIn, if_pos hid, hpop]

theorem received_tasks (h : Reaches (step settings host) guard {} c)
    (hwired : Wired (fun _ => Linked host) c) {client : Nat} {peer : Peer} (hpeer : c.peers.lookup client = some peer) :
    ∀ msg ∈ peer.node.received, (client, msg) ∈ c.network.system.shared.sent ∧ ∃ task, msg = taskMessage task := by
  intro msg hmsg
  have hmem := mem_ofClient.mp ((hwired.links client peer hpeer).received_isPrefix.subset hmsg)
  have hsent := List.mem_reverse.mp (List.mem_of_mem_take hmem)
  obtain ⟨task, -, taskId, hmsg⟩ := sentPublished (master_reaches h) _ hsent
  exact ⟨hsent, _, hmsg⟩

theorem sentTo_isPrefix (c : Cluster) (client : Nat) :
    c.sentTo client <+: ofClient client c.network.system.shared.sent.reverse :=
  ((List.take_prefix _ _).filter _).map _

theorem alive (h : Reaches (step settings host) guard {} c) (hwired : Wired (fun _ => Linked host) c) {client : Nat}
    {peer : Peer} (hpeer : c.peers.lookup client = some peer) : peer.node.terminated = false := by
  refine eq_false_of_ne_true fun hterminated => ?_
  obtain ⟨msg, hmsg, hnone, -⟩ := (hwired.links client peer hpeer).node.malformed hterminated
  obtain ⟨-, task, rfl⟩ := received_tasks h hwired hpeer msg hmsg
  rw [taskIn_taskMessage] at hnone
  cases hnone

/-! ## The result -/

/-- **Messages arrive as they were sent**: on both links of a worker, what was handed over is a beginning of
what was sent, whatever failed. No message of the master ends a worker or tells it to go. -/
theorem delivered_in_order (settings : Settings) (host : Host) (c : Cluster)
    (h : Reaches (step settings host) (BatchesFit host) {} c) (client : Nat) (peer : Peer)
    (hpeer : c.peers.lookup client = some peer) :
    peer.node.received <+: ofClient client c.network.system.shared.sent.reverse ∧
      c.receivedFrom client <+: peer.node.sent ∧ peer.node.sent ++ peer.node.posted <+: peer.node.toSay host ∧
      peer.node.terminated = false ∧ peer.node.shouldDisconnect = false := by
  have hwired := wired (fun _ _ => id) h
  have hlink := hwired.links client peer hpeer
  refine ⟨hlink.received_isPrefix.trans (sentTo_isPrefix c client), hlink.sent_isPrefix, hlink.node.said,
    alive h hwired hpeer, ?_⟩
  refine eq_false_of_ne_true fun htold => ?_
  obtain ⟨msg, hmsg, hid⟩ := hlink.node.finished htold
  obtain ⟨-, task, rfl⟩ := received_tasks h hwired hpeer msg hmsg
  cases hid

end

/-! ## One search -/

def smallHost : Host := oneFileHost ChunkedSearch.smallFile

/-- `Send` and the two writes of a worker. -/
def tells (client : Nat) : List Event :=
  [.worker client .sendPosted, .worker client (.wrote true), .worker client (.wrote true)]

def hears (client : Nat) (msg : Message) : List Event :=
  [.master (.read client true (toBytes msg.header)), .master (.read client true msg.body), .master .update]

def turns (n : Nat) : List Event := List.replicate n (.master (.run 0 {}))

theorem smallSize_lt : (8 : UInt64).toNat < 2 ^ 63 := by decide

/-- The one task of the search. -/
def smallTask : TaskPayload where
  searchId := 0
  taskId := 1
  maxResults := ({} : SearchConfig).maxResults
  startOffset := 0
  endOffset := 8
  keyword := .strncpy 64 (ascii "E")
  filename := .strncpy 256 smallTarget

/-- A worker with one thread connects, and gets the one chunk of a search. -/
def toTheWorker : List Event :=
  [.launch 2, .worker 10000 (.connected true), .master .accept, .worker 10000 (.turn 0)] ++ tells 10000 ++
    hears 10000 (helloMessage 1) ++ turns 2 ++ [.master (.startSearch (searchRequest ⟨8, smallSize_lt⟩))] ++ turns 5 ++
    [.master .sendPosted, .master (.wrote 10000 true), .master (.wrote 10000 true),
      .worker 10000 (.read true (toBytes (taskMessage smallTask).header)),
      .worker 10000 (.read true (taskMessage smallTask).body)]

/-- It runs the task, and its answer is handled. -/
def backToTheMaster : List Event :=
  [.worker 10000 (.notifyOne 0), .worker 10000 (.turn 0), .worker 10000 (.turn 0)] ++ tells 10000 ++
    hears 10000 (WorkerClient.answer smallHost smallTask) ++ turns 6

def afterTask : Cluster := Runs.after (step {} smallHost) (Undisturbed smallHost) {} toTheWorker

def afterSearch : Cluster := Runs.after (step {} smallHost) (Undisturbed smallHost) afterTask backToTheMaster

theorem afterTask_reached : Reaches (step {} smallHost) (Undisturbed smallHost) {} afterTask :=
  Runs.reaches_after toTheWorker .start (by decide +kernel)

theorem afterSearch_reached : Reaches (step {} smallHost) (Undisturbed smallHost) {} afterSearch :=
  Runs.reaches_after backToTheMaster afterTask_reached (by decide +kernel)

theorem delivered_in_order_small : ∃ peer, afterSearch.peers.lookup 10000 = some peer ∧
    peer.node.received.length = 1 ∧ peer.node.terminated = false := by
  obtain ⟨peer, hpeer⟩ := Option.isSome_iff_exists.mp (show (afterSearch.peers.lookup 10000).isSome = true by
    decide +kernel)
  have hone : ∀ peer ∈ afterSearch.peers.lookup 10000, peer.node.received.length = 1 := by decide +kernel
  obtain ⟨-, -, -, halive, -⟩ := delivered_in_order {} smallHost afterSearch
    (afterSearch_reached.mono fun _ _ h => h.1) 10000 peer hpeer
  exact ⟨peer, hpeer, hone peer hpeer, halive⟩

end LogGrid.Cluster
