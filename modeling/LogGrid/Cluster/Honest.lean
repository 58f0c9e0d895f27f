import LogGrid.Cluster.Links

/-!
# The workers of the cluster are honest

The results about the master rest on what its clients send and on who calls it.
In the cluster nothing of that is left to assume: the master's part of any run
is one in which each worker says `Hello` once, answers only tasks it was sent,
and answers them with what `SearchTask` makes of them.
-/

open LogGrid.StandardLayout LogGrid.Runs LogGrid.Net LogGrid.Net.Link LogGrid.Master LogGrid.FileProcessor

namespace LogGrid.Cluster

/-! ## What is said -/

section

variable {settings : Settings} {host : Host} {guard : Cluster → Event → Prop} {c : Cluster}

theorem said_after {node : WorkerNode} {earlier : List Message} {msg : Message}
    (h : earlier ++ [msg] <+: node.toSay host) :
    (msg.header.id = LogSearchMsg.workerHello.value → earlier = [] ∧ msg = helloMessage node.threadCount) ∧
      (msg.header.id = LogSearchMsg.workerTaskDone.value →
        ∃ x ∈ node.threadPool.ran, msg = WorkerClient.answer host x.2) := by
  have hanswer : ∀ {l}, l ++ [msg] <+: node.threadPool.ran.map (fun x => WorkerClient.answer host x.2) →
      ∃ x ∈ node.threadPool.ran, msg = WorkerClient.answer host x.2 := by
    intro l hl
    obtain ⟨x, hx, rfl⟩ := List.mem_map.mp (hl.subset (List.mem_append_right _ (List.mem_singleton_self msg)))
    exact ⟨x, hx, rfl⟩
  have hid : ∀ task, (WorkerClient.answer host task).header.id = LogSearchMsg.workerTaskDone.value := fun _ => rfl
  have hnothello : ∀ {l}, l ++ [msg] <+: node.threadPool.ran.map (fun x => WorkerClient.answer host x.2) →
      msg.header.id ≠ LogSearchMsg.workerHello.value := by
    intro l hl
    obtain ⟨x, -, rfl⟩ := hanswer hl
    rw [hid]
    decide
  unfold WorkerNode.toSay at h
  split at h
  · rw [List.nil_append] at h
    exact ⟨fun hhello => absurd hhello (hnothello h), fun _ => hanswer h⟩
  · rw [List.singleton_append] at h
    cases earlier with
    | nil =>
      obtain ⟨rfl, -⟩ := List.cons_prefix_cons.mp h
      refine ⟨fun _ => ⟨rfl, rfl⟩, fun hdone => absurd hdone ?_⟩
      show LogSearchMsg.workerHello.value ≠ _
      decide
    | cons first earlier =>
      obtain ⟨-, hrest⟩ := List.cons_prefix_cons.mp h
      exact ⟨fun hhello => absurd hhello (hnothello hrest), fun _ => hanswer hrest⟩

theorem Wired.peer (h : Wired (fun _ => Linked host) c) {client : Nat} (hclient : client ∈ c.network.connections) :
    ∃ peer, c.peers.lookup client = some peer := by
  have hknown : client ∈ c.peers := by
    rw [h.peers]
    have := (h.accepted client).mp hclient
    have := h.counter.2
    omega
  exact Option.isSome_iff_exists.mp (AList.lookup_isSome.mpr hknown)

theorem Wired.received_said (h : Wired (fun _ => Linked host) c) {client : Nat} {peer : Peer}
    (hpeer : c.peers.lookup client = some peer) : c.receivedFrom client <+: peer.node.toSay host := by
  have hlink := h.links client peer hpeer
  exact hlink.sent_isPrefix.trans ((List.prefix_append _ _).trans hlink.node.said)

theorem Wired.next_said (h : Wired (fun _ => Linked host) c) {client : Nat} {msg : Message}
    {messagesIn : List (Nat × Message)}
    (hmessages : c.network.messagesIn = (client, msg) :: messagesIn) :
    ∃ peer, c.peers.lookup client = some peer ∧ ofClient client c.heard ++ [msg] <+: peer.node.toSay host := by
  have hmem : (client, msg) ∈ c.heard ++ c.network.messagesIn := by simp [hmessages]
  obtain ⟨peer, hpeer⟩ := h.peer (h.received _ hmem)
  refine ⟨peer, hpeer, List.IsPrefix.trans ?_ (h.received_said hpeer)⟩
  refine ⟨ofClient client messagesIn, ?_⟩
  have hfirst : ofClient client ((client, msg) :: messagesIn) = msg :: ofClient client messagesIn := by simp [ofClient]
  rw [receivedFrom, hmessages, ofClient_append, hfirst, List.append_assoc]
  rfl

/-! ## `Hello` -/

def helloIn (x : Nat × Message) : Option (Nat × UInt64) :=
  if x.2.header.id = LogSearchMsg.workerHello.value then
    match x.2.pop HelloMessage with
    | .error _ => none
    | .ok (result, _) => some (x.1, result.threadsAvailable)
  else none

theorem helloIn_client {x : Nat × Message} {y : Nat × UInt64} (h : helloIn x = some y) : y.1 = x.1 := by
  unfold helloIn at h
  split at h
  · split at h
    · cases h
    · cases h
      rfl
  · cases h

theorem helloIn_helloMessage (client : Nat) (threadsAvailable : UInt64) :
    helloIn (client, helloMessage threadsAvailable) = some (client, threadsAvailable) := by
  have hpop := Message.pop_of_body (helloMessage threadsAvailable) [] (HelloMessage.mk threadsAvailable) rfl trivial
  have hid : (helloMessage threadsAvailable).header.id = LogSearchMsg.workerHello.value := rfl
  simp only [helloIn, if_pos hid, hpop]

theorem begin_hellos (s : Shared) (client : Nat) (msg : Message) :
    (begin settings s (.onMessage client msg)).1.history.hellos =
      (helloIn (client, msg)).toList ++ s.history.hellos := by
  unfold begin helloIn
  by_cases hid : msg.header.id = LogSearchMsg.workerHello.value
  · cases hpop : msg.pop HelloMessage with
    | error e => simp only [if_pos hid, hpop, Option.toList_none, List.nil_append]
    | ok r => simp only [if_pos hid, hpop, Option.toList_some, List.singleton_append]
  · simp only [if_neg hid, Option.toList_none, List.nil_append]
    split
    · split <;> rfl
    · rfl

theorem hellos_heard (h : Reaches (step settings host) guard {} c) :
    c.network.system.shared.history.hellos = (c.heard.filterMap helloIn).reverse := by
  refine h.invariant (fun c => c.network.system.shared.history.hellos = (c.heard.filterMap helloIn).reverse) rfl ?_
  intro c e c' _ hinv _ hstep
  cases step_stepped hstep with
  | update client msg messagesIn system hupdating hmessages hsystem =>
    obtain ⟨hshared, -⟩ := Threads.step_call hsystem
    simp only [hshared, begin_hellos, hinv, List.filterMap_append, List.reverse_append]
    cases hhello : helloIn (client, msg) <;> simp [hhello]
  | startSearch request system hsystem =>
    obtain ⟨hshared, -⟩ := Threads.step_call hsystem
    simp only [hshared]
    rw [← hinv]
    simp only [begin]
    split <;> rfl
  | run thread choice system hsystem =>
    obtain ⟨pc, rest, next, -, -, hexec, -⟩ := Threads.step_run hsystem
    exact (exec_ran settings choice _ _ pc next hexec).history.2.2.trans hinv
  | _ => exact hinv

/-! ## The master of the cluster -/

/-- What is known of the steps that the master takes in the cluster. -/
def Meant (host : Host) (p : System) (e : Master.Event) : Prop :=
  (Honest host p e ∧ OneHello p e) ∧ OneUpdate p e ∧ NoDisconnect p e

theorem master_meant (hguard : ∀ q e, guard q e → BatchesFit host q e ∧ FilesOpen q e)
    (h : Reaches (step settings host) guard {} c) :
    Reaches (Master.step settings) (Meant host) System.initial c.network.system := by
  refine h.invariant (fun c => Reaches (Master.step settings) (Meant host) System.initial c.network.system) .start ?_
  intro c e c' hreach hmaster hg hstep
  have hwired := wired (fun _ _ hg => (hguard _ _ hg).1) hreach
  cases step_stepped hstep with
  | update client msg messagesIn system hupdating hmessages hsystem =>
    obtain ⟨peer, hpeer, hsaid⟩ := hwired.next_said hmessages
    obtain ⟨hhello, hanswer⟩ := said_after hsaid
    refine hmaster.step (.call (.onMessage client msg)) ⟨⟨?_, ?_⟩, hupdating, trivial⟩ hsystem
    · intro hdone
      obtain ⟨x, hx, rfl⟩ := hanswer hdone
      -- The task was run, so it was received, so it was sent.
      have htask := (hwired.links client peer hpeer).node.ran.subset (List.mem_map_of_mem hx)
      obtain ⟨task, htask, hin⟩ := List.mem_filterMap.mp htask
      obtain ⟨hsent, -⟩ := received_tasks hreach hwired hpeer task htask
      exact ⟨_, hsent, rfl, by rw [WorkerNode.onMessage_taskIn, hin]; rfl⟩
    · intro hid hmem
      obtain ⟨hnone, -⟩ := hhello hid
      rw [hellos_heard hreach] at hmem
      obtain ⟨x, hx, hclient⟩ := List.mem_map.mp hmem
      obtain ⟨y, hy, hin⟩ := List.mem_filterMap.mp (List.mem_reverse.mp hx)
      have hfrom : y.1 = client := (helloIn_client hin).symm.trans hclient
      have hheard : y.2 ∈ ofClient client c.heard := mem_ofClient.mpr (hfrom ▸ hy)
      rw [hnone] at hheard
      cases hheard
  | startSearch request system hsystem =>
    exact hmaster.step (.call (.startSearch request)) ⟨⟨trivial, trivial⟩, trivial, trivial⟩ hsystem
  | run thread choice system hsystem =>
    exact hmaster.step (.run thread choice) ⟨⟨(hguard _ _ hg).2, trivial⟩, trivial, trivial⟩ hsystem
  | _ => exact hmaster

end

/-! ## The result -/

/-- **What the results about the master assume holds in the cluster**: workers are honest and say `Hello` once,
`OnMessage` runs alone, and nobody calls `OnClientDisconnect`. -/
theorem workers_honest (settings : Settings) (host : Host) (c : Cluster)
    (h : Reaches (step settings host) (fun q e => BatchesFit host q e ∧ FilesOpen q e) {} c) :
    Reaches (Master.step settings)
      (fun p e => (Honest host p e ∧ OneHello p e) ∧ OneUpdate p e ∧ NoDisconnect p e) System.initial
      c.network.system :=
  master_meant (fun _ _ => id) h

theorem workers_honest_small : Reaches (Master.step {})
    (fun p e => (Honest smallHost p e ∧ OneHello p e) ∧ OneUpdate p e ∧ NoDisconnect p e) System.initial
    afterSearch.network.system :=
  workers_honest {} smallHost afterSearch (afterSearch_reached.mono fun _ _ h => ⟨h.1, h.2.1⟩)

end LogGrid.Cluster
