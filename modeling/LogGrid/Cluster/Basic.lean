import LogGrid.Master.LostTasks
import LogGrid.Worker.WorkerNode

/-!
# The cluster

The master on its network, and a process for every worker, with the bytes that
are on their way between them. A socket gets bytes that the other end has
written, in order, and as many at a time as it likes.
-/

open LogGrid.Runs LogGrid.Net LogGrid.Master LogGrid.FileProcessor

namespace LogGrid

/-- A worker process, and how much the two ends of its connection have read. -/
structure Peer where
  node : WorkerNode
  toMaster : Nat := 0
  toWorker : Nat := 0

/-- The processes are known by the ids that their connections get: the master accepts connections in the
order in which they came, and counts up. `heard` is what `Update` has handled. -/
structure Cluster where
  network : Network := {}
  peers : AList (fun _ : Nat => Peer) := ∅
  nextPeer : Nat := 10000
  heard : List (Nat × Message) := []

namespace Cluster

inductive Event
  | launch (hardwareConcurrency : UInt64)
  | master (e : NetworkEvent)
  | worker (client : Nat) (e : WorkerNode.Event)

/-- The master's end of a connection. One that is not accepted yet has nothing written and nothing read. -/
def connection (c : Cluster) (client : Nat) : Connection :=
  (c.network.connections.lookup client).getD (Connection.readHeader {})

/-- The bytes that a completed read has taken. -/
def arrived (ok : Bool) (bytes : Bytes) : Bytes := if ok then bytes else []

def setPeer (c : Cluster) (client : Nat) (peer : Peer) : Cluster :=
  { c with peers := c.peers.insert client peer }

def step (settings : Settings) (host : Host) (c : Cluster) : Event → Option Cluster
  | .launch hardwareConcurrency =>
    some { c.setPeer c.nextPeer { node := .create hardwareConcurrency } with nextPeer := c.nextPeer + 1 }
  | .master .accept =>
    if c.network.nIDCounter < c.nextPeer then some { c with network := c.network.accept } else none
  | .master (.read client ok bytes) =>
    (c.peers.lookup client).bind fun peer =>
      if arrived ok bytes <+: peer.node.connection.written.drop peer.toMaster then
        (c.network.step settings (.read client ok bytes)).map fun network =>
          { c.setPeer client { peer with toMaster := peer.toMaster + (arrived ok bytes).length } with network }
      else none
  | .master .update =>
    (c.network.step settings .update).map fun network =>
      { c with network, heard := c.heard ++ c.network.messagesIn.take 1 }
  | .master e => (c.network.step settings e).map fun network => { c with network }
  | .worker client (.read ok bytes) =>
    (c.peers.lookup client).bind fun peer =>
      if arrived ok bytes <+: (c.connection client).written.drop peer.toWorker then
        (peer.node.step host (.read ok bytes)).map fun node =>
          c.setPeer client { peer with node, toWorker := peer.toWorker + (arrived ok bytes).length }
      else none
  | .worker client e =>
    (c.peers.lookup client).bind fun peer =>
      (peer.node.step host e).map fun node => c.setPeer client { peer with node }

/-- No batch is too long for the length field of its frame. -/
def BatchesFit (host : Host) (c : Cluster) : Event → Prop
  | .worker client (.turn number) => ∀ peer ∈ c.peers.lookup client, ∀ task ∈ peer.node.running number,
      Framing.Sized (WorkerClient.answer host task)
  | _ => True

/-- Result files open. -/
def FilesOpen (_ : Cluster) : Event → Prop
  | .master (.run _ choice) => choice.opens = true
  | _ => True

/-- No connect, read or write fails. -/
def NoFailure (_ : Cluster) : Event → Prop
  | .master (.wrote _ ok) => ok = true
  | .master (.read _ ok _) => ok = true
  | .worker _ e => e.Succeeds
  | _ => True

/-- No connect, read or write of these workers' connections fails. -/
def NoFailureOf (spared : Nat → Prop) (_ : Cluster) : Event → Prop
  | .master (.wrote client ok) => spared client → ok = true
  | .master (.read client ok _) => spared client → ok = true
  | .worker client e => spared client → e.Succeeds
  | _ => True

theorem noFailureOf_none (c : Cluster) (e : Event) : NoFailureOf (fun _ => False) c e := by
  unfold NoFailureOf
  split
  · exact False.elim
  · exact False.elim
  · exact False.elim
  · trivial

theorem NoFailure.of {c : Cluster} {e : Event} (h : NoFailure c e) (spared : Nat → Prop) : NoFailureOf spared c e := by
  unfold NoFailureOf
  split
  · exact fun _ => h
  · exact fun _ => h
  · exact fun _ => h
  · trivial

instance (host : Host) (c : Cluster) (e : Event) : Decidable (BatchesFit host c e) :=
  match e with
  | .worker _ (.turn _) => inferInstanceAs (Decidable (∀ _ ∈ _, ∀ _ ∈ _, _))
  | .launch _ | .master _ | .worker _ (.connected _) | .worker _ .sendPosted | .worker _ (.wrote _)
  | .worker _ (.read _ _) | .worker _ (.notifyOne _) | .worker _ (.spurious _) => .isTrue trivial

instance (c : Cluster) (e : Event) : Decidable (FilesOpen c e) :=
  match e with
  | .master (.run _ _) => inferInstanceAs (Decidable (_ = _))
  | .launch _ | .worker _ _ | .master .accept | .master .sendPosted | .master (.wrote _ _) | .master (.read _ _ _)
  | .master .update | .master (.startSearch _) => .isTrue trivial

instance (spared : Nat → Prop) [DecidablePred spared] (c : Cluster) (e : Event) : Decidable (NoFailureOf spared c e) :=
  match e with
  | .master (.wrote _ _) | .master (.read _ _ _) => inferInstanceAs (Decidable (_ → _ = _))
  | .worker _ _ => inferInstanceAs (Decidable (_ → WorkerNode.Event.Succeeds _))
  | .launch _ | .master .accept | .master .sendPosted | .master .update | .master (.startSearch _)
  | .master (.run _ _) => .isTrue trivial

instance (c : Cluster) (e : Event) : Decidable (NoFailure c e) :=
  match e with
  | .master (.wrote _ _) | .master (.read _ _ _) => inferInstanceAs (Decidable (_ = _))
  | .worker _ _ => inferInstanceAs (Decidable (WorkerNode.Event.Succeeds _))
  | .launch _ | .master .accept | .master .sendPosted | .master .update | .master (.startSearch _)
  | .master (.run _ _) => .isTrue trivial

/-- Nothing fails, and every batch fits. -/
def Undisturbed (host : Host) (c : Cluster) (e : Event) : Prop :=
  BatchesFit host c e ∧ FilesOpen c e ∧ NoFailure c e

instance (host : Host) (c : Cluster) (e : Event) : Decidable (Undisturbed host c e) :=
  inferInstanceAs (Decidable (_ ∧ _ ∧ _))

/-- Whatever fails, it is not a connection of these workers. -/
def Spares (host : Host) (spared : Nat → Prop) (c : Cluster) (e : Event) : Prop :=
  BatchesFit host c e ∧ FilesOpen c e ∧ NoFailureOf spared c e

/-! ## What a step can do -/

/-- The bytes that a step of a worker reads. -/
def taken : WorkerNode.Event → Bytes
  | .read ok bytes => arrived ok bytes
  | _ => []

inductive Stepped (settings : Settings) (host : Host) (c : Cluster) : Event → Cluster → Prop
  | launch (hardwareConcurrency : UInt64) : Stepped settings host c (.launch hardwareConcurrency)
      { c.setPeer c.nextPeer { node := .create hardwareConcurrency } with nextPeer := c.nextPeer + 1 }
  | accept (h : c.network.nIDCounter < c.nextPeer) :
      Stepped settings host c (.master .accept) { c with network := c.network.accept }
  | sendPosted (client : Nat) (msg : Message) (conn : Connection)
      (hposted : c.network.posted.head? = some (client, msg))
      (hconn : c.network.connections.lookup client = some conn) : Stepped settings host c (.master .sendPosted)
      { c with network := { c.network.setConnection client (conn.send msg) with
        handled := c.network.handled + 1 } }
  | wrote (client : Nat) (ok : Bool) (conn conn' : Connection)
      (hconn : c.network.connections.lookup client = some conn)
      (hwrote : Framing.writerStep conn (.wrote ok) = some conn') :
      Stepped settings host c (.master (.wrote client ok)) { c with network := c.network.setConnection client conn' }
  | read (client : Nat) (ok : Bool) (bytes : Bytes) (peer : Peer) (conn : Connection) (part : Part)
      (hpeer : c.peers.lookup client = some peer)
      (hbytes : arrived ok bytes <+: peer.node.connection.written.drop peer.toMaster)
      (hconn : c.network.connections.lookup client = some conn) (hpart : conn.reading = some part)
      (hsize : ok = true → bytes.length = Framing.bufferSize conn part) :
      Stepped settings host c (.master (.read client ok bytes))
        { c.setPeer client { peer with toMaster := peer.toMaster + (arrived ok bytes).length } with
          network := { c.network.setConnection client (conn.onRead .server ok bytes part).1 with
            messagesIn := c.network.messagesIn ++
              (conn.onRead .server ok bytes part).2.toList.map fun msg => (client, msg) } }
  | update (client : Nat) (msg : Message) (messagesIn : List (Nat × Message)) (system : System)
      (hupdating : ∀ pc ∈ c.network.system.threads, updating pc = false)
      (hmessages : c.network.messagesIn = (client, msg) :: messagesIn)
      (hstep : Master.step settings c.network.system (.call (.onMessage client msg)) = some system) :
      Stepped settings host c (.master .update)
        { c with network := { c.network with system, messagesIn }, heard := c.heard ++ [(client, msg)] }
  | startSearch (request : Request) (system : System)
      (hstep : Master.step settings c.network.system (.call (.startSearch request)) = some system) :
      Stepped settings host c (.master (.startSearch request)) { c with network := { c.network with system } }
  | run (thread : Nat) (choice : Choice) (system : System)
      (hstep : Master.step settings c.network.system (.run thread choice) = some system) :
      Stepped settings host c (.master (.run thread choice)) { c with network := { c.network with system } }
  | worker (client : Nat) (e : WorkerNode.Event) (peer : Peer) (node : WorkerNode)
      (hpeer : c.peers.lookup client = some peer)
      (hbytes : taken e <+: (c.connection client).written.drop peer.toWorker)
      (halive : peer.node.terminated = false) (hnode : WorkerNode.Stepped host peer.node e node) :
      Stepped settings host c (.worker client e)
        (c.setPeer client { peer with node, toWorker := peer.toWorker + (taken e).length })

theorem step_stepped {settings : Settings} {host : Host} {c c' : Cluster} {e : Event}
    (h : step settings host c e = some c') : Stepped settings host c e c' := by
  cases e with
  | launch hardwareConcurrency =>
    cases h
    exact .launch hardwareConcurrency
  | master e =>
    cases e with
    | accept =>
      simp only [step] at h
      split at h
      · rename_i hlt
        cases h
        exact .accept hlt
      · cases h
    | sendPosted =>
      obtain ⟨network, hstep, rfl⟩ := Option.map_eq_some_iff.mp h
      cases Network.step_stepped hstep with
      | sendPosted client msg conn hposted hconn => exact .sendPosted client msg conn hposted hconn
    | wrote client ok =>
      obtain ⟨network, hstep, rfl⟩ := Option.map_eq_some_iff.mp h
      cases Network.step_stepped hstep with
      | wrote _ _ conn conn' hconn hwrote => exact .wrote client ok conn conn' hconn hwrote
    | read client ok bytes =>
      obtain ⟨peer, hpeer, h⟩ := Option.bind_eq_some_iff.mp h
      split at h
      · rename_i hbytes
        obtain ⟨network, hstep, rfl⟩ := Option.map_eq_some_iff.mp h
        cases Network.step_stepped hstep with
        | read _ _ _ conn part hconn hpart hsize =>
          exact .read client ok bytes peer conn part hpeer hbytes hconn hpart hsize
      · cases h
    | update =>
      obtain ⟨network, hstep, rfl⟩ := Option.map_eq_some_iff.mp h
      cases Network.step_stepped hstep with
      | update client msg messagesIn system hupdating hmessages hsystem =>
        rw [hmessages]
        exact .update client msg messagesIn system hupdating hmessages hsystem
    | startSearch request =>
      simp only [step] at h
      obtain ⟨network, hstep, rfl⟩ := Option.map_eq_some_iff.mp h
      cases Network.step_stepped hstep with
      | startSearch _ system hsystem => exact .startSearch request system hsystem
    | run thread choice =>
      obtain ⟨network, hstep, rfl⟩ := Option.map_eq_some_iff.mp h
      cases Network.step_stepped hstep with
      | run _ _ system hsystem => exact .run thread choice system hsystem
  | worker client e =>
    cases e with
    | read ok bytes =>
      obtain ⟨peer, hpeer, h⟩ := Option.bind_eq_some_iff.mp h
      split at h
      · rename_i hbytes
        obtain ⟨node, hnode, rfl⟩ := Option.map_eq_some_iff.mp h
        obtain ⟨halive, hnode⟩ := WorkerNode.step_stepped hnode
        exact .worker client _ peer node hpeer hbytes halive hnode
      · cases h
    | _ =>
      obtain ⟨peer, hpeer, h⟩ := Option.bind_eq_some_iff.mp h
      obtain ⟨node, hnode, rfl⟩ := Option.map_eq_some_iff.mp h
      obtain ⟨halive, hnode⟩ := WorkerNode.step_stepped hnode
      exact .worker client _ peer node hpeer List.nil_prefix halive hnode

/-! ## The master in the cluster -/

theorem master_reaches {settings : Settings} {host : Host} {guard : Cluster → Event → Prop} {c : Cluster}
    (h : Reaches (step settings host) guard {} c) :
    Reaches (Master.step settings) NoDisconnect System.initial c.network.system := by
  refine h.invariant (fun c => Reaches (Master.step settings) NoDisconnect System.initial c.network.system) .start ?_
  intro c e c' _ hreach _ hstep
  cases step_stepped hstep with
  | update client msg messagesIn system hupdating hmessages hsystem =>
    exact hreach.step (.call (.onMessage client msg)) trivial hsystem
  | startSearch request system hsystem => exact hreach.step (.call (.startSearch request)) trivial hsystem
  | run thread choice system hsystem => exact hreach.step (.run thread choice) trivial hsystem
  | _ => exact hreach

end Cluster

end LogGrid
