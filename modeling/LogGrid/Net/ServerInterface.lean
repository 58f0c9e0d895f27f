import Mathlib.Data.List.Nodup
import Mathlib.Data.Option.Basic

/-!
# `server_interface`

`MessageClient` and `MessageAllClients` report a connection that they find
closed and take it out of the list. A connection is known by its pointer, and
whether its socket is open is for each call to find.
-/

namespace LogGrid.Net

/-- The list of connections with its null entries, and what the two functions have called so far. -/
structure ServerInterface (Conn Msg : Type) where
  deqConnections : List (Option Conn) := []
  disconnected : List (Option Conn) := []
  sent : List (Conn × Msg) := []
  deriving DecidableEq

namespace ServerInterface

variable {Conn Msg : Type} [DecidableEq Conn]

def onClientDisconnect (s : ServerInterface Conn Msg) (client : Option Conn) : ServerInterface Conn Msg :=
  { s with disconnected := s.disconnected ++ [client] }

def send (s : ServerInterface Conn Msg) (client : Conn) (msg : Msg) : ServerInterface Conn Msg :=
  { s with sent := s.sent ++ [(client, msg)] }

/-- `erase(remove(begin(), end(), value), end())`. -/
def eraseAll (value : Option Conn) (entries : List (Option Conn)) : List (Option Conn) :=
  entries.filter fun entry => entry ≠ value

def messageClient (isOpen : Conn → Bool) (s : ServerInterface Conn Msg) (client : Option Conn) (msg : Msg) :
    ServerInterface Conn Msg :=
  match client.filter isOpen with
  | some connected => s.send connected msg
  | none =>
    let s := s.onClientDisconnect client
    -- `client.reset()` comes before the `remove` that is given `client`.
    let client := none
    { s with deqConnections := eraseAll client s.deqConnections }

/-- The loop of `MessageAllClients`, which leaves null entries for the closed connections. -/
def messageLoop (isOpen : Conn → Bool) (msg : Msg) (ignoreClient : Option Conn) :
    List (Option Conn) → ServerInterface Conn Msg → List (Option Conn) × Bool × ServerInterface Conn Msg
  | [], s => ([], false, s)
  | client :: entries, s =>
    match client.filter isOpen with
    | some connected =>
      let s := if client ≠ ignoreClient then s.send connected msg else s
      let (entries, invalidClientExists, s) := messageLoop isOpen msg ignoreClient entries s
      (client :: entries, invalidClientExists, s)
    | none =>
      let s := s.onClientDisconnect client
      let (entries, _, s) := messageLoop isOpen msg ignoreClient entries s
      (none :: entries, true, s)

def messageAllClients (isOpen : Conn → Bool) (s : ServerInterface Conn Msg) (msg : Msg)
    (ignoreClient : Option Conn) :
    ServerInterface Conn Msg :=
  let (entries, invalidClientExists, s) := messageLoop isOpen msg ignoreClient s.deqConnections s
  { s with deqConnections := if invalidClientExists then eraseAll none entries else entries }

end ServerInterface

/-! ## Calls -/

inductive Call (Conn Msg : Type)
  | messageClient (client : Conn) (msg : Msg)
  | messageAllClients (msg : Msg) (ignoreClient : Option Conn)

open ServerInterface

variable {Conn Msg : Type} [DecidableEq Conn]

def ServerInterface.call (s : ServerInterface Conn Msg) (isOpen : Conn → Bool) :
    Call Conn Msg → ServerInterface Conn Msg
  | .messageClient client msg => messageClient isOpen s (some client) msg
  | .messageAllClients msg ignoreClient => messageAllClients isOpen s msg ignoreClient

def ServerInterface.calls (s : ServerInterface Conn Msg) (calls : List (Call Conn Msg × (Conn → Bool))) :
    ServerInterface Conn Msg :=
  calls.foldl (fun s c => s.call c.2 c.1) s

def Call.msg : Call Conn Msg → Msg
  | .messageClient _ msg => msg
  | .messageAllClients msg _ => msg

/-- The connections whose sockets a call looks at. -/
def Call.looksAt (s : ServerInterface Conn Msg) : Call Conn Msg → Conn → Bool
  | .messageClient client _, conn => conn = client
  | .messageAllClients _ _, conn => some conn ∈ s.deqConnections

/-- The connections that a call is to send its message to. -/
def Call.addresses (s : ServerInterface Conn Msg) : Call Conn Msg → Conn → Bool
  | .messageClient client _, conn => conn = client
  | .messageAllClients _ ignoreClient, conn => some conn ∈ s.deqConnections ∧ some conn ≠ ignoreClient

/-- A call takes out what it found closed and nothing else, and sends to what is open. -/
structure Proper (s s' : ServerInterface Conn Msg) (call : Call Conn Msg) (isOpen : Conn → Bool) : Prop where
  removed : s'.deqConnections =
    s.deqConnections.filter fun entry => !entry.any fun conn => call.looksAt s conn && !isOpen conn
  sent : ∃ conns : List Conn, conns.Nodup ∧ s'.sent = s.sent ++ conns.map (·, call.msg) ∧
    ∀ conn, conn ∈ conns ↔ call.addresses s conn = true ∧ isOpen conn = true

def AllProper (s : ServerInterface Conn Msg) : List (Call Conn Msg × (Conn → Bool)) → Prop
  | [] => True
  | (call, isOpen) :: calls => Proper s (s.call isOpen call) call isOpen ∧ AllProper (s.call isOpen call) calls

/-- Every call is proper, and no connection is reported twice. -/
def ReportsOnce (s : ServerInterface Conn Msg) (calls : List (Call Conn Msg × (Conn → Bool))) : Prop :=
  AllProper s calls ∧ (s.calls calls).disconnected.Nodup

def ClientsOpen (calls : List (Call Conn Msg × (Conn → Bool))) : Prop :=
  ∀ client msg isOpen, (Call.messageClient client msg, isOpen) ∈ calls → isOpen client = true

/-! ## What the calls do to a list without null entries -/

section

variable {s : ServerInterface Conn Msg} {live : List Conn}

theorem messageLoop_spec (isOpen : Conn → Bool) (msg : Msg) (ignoreClient : Option Conn) (live : List Conn)
    (s : ServerInterface Conn Msg) :
    messageLoop isOpen msg ignoreClient (live.map some) s =
      (live.map fun conn => if isOpen conn then some conn else none, live.any fun conn => !isOpen conn,
        { s with
          disconnected := s.disconnected ++ (live.filter fun conn => !isOpen conn).map some
          sent := s.sent ++ (live.filter fun conn => isOpen conn && some conn ≠ ignoreClient).map (·, msg) }) := by
  induction live generalizing s with
  | nil => simp [messageLoop]
  | cons conn live ih =>
    rw [List.map_cons, messageLoop]
    cases hopen : isOpen conn with
    | true =>
      simp only [Option.filter_some, hopen, if_true, ih]
      by_cases hignore : some conn = ignoreClient
      · simp [hopen, hignore]
      · simp [hopen, hignore, send]
    | false =>
      simp only [Option.filter_some, hopen, Bool.false_eq_true, if_false, ih]
      simp [hopen, onClientDisconnect]

theorem eraseAll_none (isOpen : Conn → Bool) (live : List Conn) :
    eraseAll none (live.map fun conn => if isOpen conn then some conn else none) =
      (live.filter isOpen).map some := by
  unfold eraseAll
  induction live with
  | nil => rfl
  | cons conn live ih =>
    cases hopen : isOpen conn <;> simpa [hopen] using ih

theorem messageAllClients_spec (isOpen : Conn → Bool) (msg : Msg) (ignoreClient : Option Conn)
    (h : s.deqConnections = live.map some) :
    messageAllClients isOpen s msg ignoreClient = {
      deqConnections := (live.filter isOpen).map some
      disconnected := s.disconnected ++ (live.filter fun conn => !isOpen conn).map some
      sent := s.sent ++ (live.filter fun conn => isOpen conn && some conn ≠ ignoreClient).map (·, msg) } := by
  unfold messageAllClients
  rw [h, messageLoop_spec]
  simp only
  cases hany : live.any fun conn => !isOpen conn with
  | true => rw [if_pos rfl, eraseAll_none]
  | false =>
    have hall : ∀ conn ∈ live, isOpen conn = true := by
      intro conn hconn
      simpa using List.any_eq_false.mp hany conn hconn
    rw [if_neg Bool.false_ne_true, List.filter_eq_self.mpr hall]
    have hsame : (live.map fun conn => if isOpen conn then some conn else none) = live.map some :=
      List.map_congr_left fun conn hconn => by rw [hall conn hconn, if_pos rfl]
    rw [hsame]

theorem messageClient_closed (isOpen : Conn → Bool) (client : Conn) (msg : Msg)
    (h : s.deqConnections = live.map some) (hclosed : isOpen client = false) :
    messageClient isOpen s (some client) msg = s.onClientDisconnect (some client) := by
  have herase : eraseAll none (live.map some) = live.map some := by
    have := eraseAll_none (fun _ => true) live
    simpa using this
  unfold messageClient
  simp only [Option.filter_some, hclosed, Bool.false_eq_true, if_false, onClientDisconnect]
  rw [h, herase]

theorem messageClient_open (isOpen : Conn → Bool) (client : Conn) (msg : Msg) (hopen : isOpen client = true) :
    messageClient isOpen s (some client) msg = s.send client msg := by
  unfold messageClient
  simp only [Option.filter_some, hopen, if_true]

end

/-! ## Runs of calls -/

/-- Each of the connections is in the list, or was reported and is not. -/
structure Tracked (conns : List Conn) (s : ServerInterface Conn Msg) : Prop where
  live : ∃ live : List Conn, s.deqConnections = live.map some ∧ live.Nodup
  reported : s.disconnected.Nodup
  apart : ∀ entry ∈ s.deqConnections, entry ∉ s.disconnected
  every : ∀ conn ∈ conns, some conn ∈ s.deqConnections ∨ some conn ∈ s.disconnected

section

variable {conns : List Conn} {s : ServerInterface Conn Msg}

theorem Tracked.messageAllClients (h : Tracked conns s) (isOpen : Conn → Bool) (msg : Msg)
    (ignoreClient : Option Conn) : Tracked conns (messageAllClients isOpen s msg ignoreClient) := by
  obtain ⟨⟨live, hlive, hnodup⟩, hreported, hapart, hevery⟩ := h
  rw [messageAllClients_spec isOpen msg ignoreClient hlive]
  rw [hlive] at hapart hevery
  constructor
  · exact ⟨live.filter isOpen, rfl, hnodup.filter _⟩
  · refine List.nodup_append.mpr ⟨hreported, (hnodup.filter _).map (Option.some_injective _), ?_⟩
    intro entry hentry entry' hentry' heq
    obtain ⟨conn, hconn, rfl⟩ := List.mem_map.mp hentry'
    exact hapart (some conn) (List.mem_map_of_mem (List.mem_filter.mp hconn).1) (heq ▸ hentry)
  · intro entry hentry hmem
    obtain ⟨conn, hconn, rfl⟩ := List.mem_map.mp hentry
    obtain ⟨hconn, hopen⟩ := List.mem_filter.mp hconn
    rcases List.mem_append.mp hmem with hmem | hmem
    · exact hapart _ (List.mem_map_of_mem hconn) hmem
    · obtain ⟨conn', hconn', heq⟩ := List.mem_map.mp hmem
      cases heq
      have hclosed := (List.mem_filter.mp hconn').2
      rw [hopen] at hclosed
      cases hclosed
  · intro conn hconn
    rcases hevery conn hconn with hmem | hmem
    · have hconn := (List.mem_map_of_injective (Option.some_injective _)).mp hmem
      cases hopen : isOpen conn with
      | true => exact Or.inl (List.mem_map_of_mem (List.mem_filter.mpr ⟨hconn, hopen⟩))
      | false =>
        refine Or.inr (List.mem_append_right _ (List.mem_map_of_mem (List.mem_filter.mpr ⟨hconn, ?_⟩)))
        rw [hopen]
        rfl
    · exact Or.inr (List.mem_append_left _ hmem)

theorem proper_messageAllClients (h : Tracked conns s) (isOpen : Conn → Bool) (msg : Msg)
    (ignoreClient : Option Conn) :
    Proper s (messageAllClients isOpen s msg ignoreClient) (.messageAllClients msg ignoreClient) isOpen := by
  obtain ⟨⟨live, hlive, hnodup⟩, -, -, -⟩ := h
  rw [messageAllClients_spec isOpen msg ignoreClient hlive]
  constructor
  · simp only [hlive, Call.looksAt, List.filter_map]
    refine congrArg _ (List.filter_congr fun conn hconn => ?_)
    simp [hconn]
  · refine ⟨_, hnodup.filter _, rfl, fun conn => ?_⟩
    rw [List.mem_filter]
    simp only [Call.addresses, hlive, Bool.and_eq_true, decide_eq_true_eq,
      List.mem_map_of_injective (Option.some_injective _)]
    constructor
    · rintro ⟨hconn, hopen, hignore⟩
      exact ⟨⟨hconn, hignore⟩, hopen⟩
    · rintro ⟨⟨hconn, hignore⟩, hopen⟩
      exact ⟨hconn, hopen, hignore⟩

theorem proper_messageClient (isOpen : Conn → Bool) (client : Conn) (msg : Msg) (hopen : isOpen client = true) :
    Proper s (messageClient isOpen s (some client) msg) (.messageClient client msg) isOpen := by
  rw [messageClient_open isOpen client msg hopen]
  constructor
  · refine (List.filter_eq_self.mpr fun entry _ => ?_).symm
    cases entry with
    | none => rfl
    | some conn =>
      simp only [Call.looksAt, Option.any_some, Bool.not_eq_true', Bool.and_eq_false_imp, decide_eq_true_eq]
      rintro rfl
      rw [hopen]
      rfl
  · refine ⟨[client], List.nodup_singleton _, rfl, fun conn => ?_⟩
    simp only [Call.addresses, List.mem_singleton, decide_eq_true_eq]
    constructor
    · rintro rfl
      exact ⟨rfl, hopen⟩
    · exact And.left

/-! ### Reports are never taken back -/

theorem messageLoop_reports (isOpen : Conn → Bool) (msg : Msg) (ignoreClient : Option Conn)
    (entries : List (Option Conn)) (s : ServerInterface Conn Msg) :
    s.disconnected.Sublist (messageLoop isOpen msg ignoreClient entries s).2.2.disconnected := by
  induction entries generalizing s with
  | nil => exact List.Sublist.refl _
  | cons client entries ih =>
    rw [messageLoop]
    split
    · refine List.Sublist.trans ?_ (ih _)
      split <;> exact List.Sublist.refl _
    · have hreport : s.disconnected.Sublist (s.onClientDisconnect client).disconnected :=
        List.sublist_append_left _ _
      exact hreport.trans (ih _)

theorem call_reports (s : ServerInterface Conn Msg) (isOpen : Conn → Bool) (call : Call Conn Msg) :
    s.disconnected.Sublist (s.call isOpen call).disconnected := by
  cases call with
  | messageClient client msg =>
    unfold ServerInterface.call ServerInterface.messageClient
    simp only
    split
    · exact List.Sublist.refl _
    · exact List.sublist_append_left _ _
  | messageAllClients msg ignoreClient => exact messageLoop_reports isOpen msg ignoreClient s.deqConnections s

theorem calls_reports (s : ServerInterface Conn Msg) (calls : List (Call Conn Msg × (Conn → Bool))) :
    s.disconnected.Sublist (s.calls calls).disconnected := by
  induction calls generalizing s with
  | nil => exact List.Sublist.refl _
  | cons c calls ih => exact (call_reports s c.2 c.1).trans (ih _)

theorem not_reportsOnce (h : Tracked conns s) (isOpen : Conn → Bool) (client : Conn) (msg : Msg)
    (hclient : client ∈ conns) (hclosed : isOpen client = false) (calls : List (Call Conn Msg × (Conn → Bool))) :
    ¬ ReportsOnce s ((.messageClient client msg, isOpen) :: calls) := by
  rintro ⟨⟨hproper, -⟩, hnodup⟩
  obtain ⟨live, hlive, -⟩ := h.live
  have hafter : s.call isOpen (.messageClient client msg) = s.onClientDisconnect (some client) :=
    messageClient_closed isOpen client msg hlive hclosed
  rcases h.every client hclient with hmem | hmem
  · have hremoved := hproper.removed
    rw [hafter] at hremoved
    have hkept : some client ∈ (s.onClientDisconnect (some client)).deqConnections := hmem
    rw [hremoved] at hkept
    have := (List.mem_filter.mp hkept).2
    simp [Call.looksAt, hclosed] at this
  · have hgrow := calls_reports (s.call isOpen (.messageClient client msg)) calls
    have honce := hnodup.sublist hgrow
    rw [hafter] at honce
    exact (List.nodup_append.mp honce).2.2 _ hmem _ (List.mem_singleton_self _) rfl

theorem reportsOnce_cons {isOpen : Conn → Bool} {call : Call Conn Msg}
    (hproper : Proper s (s.call isOpen call) call isOpen) (calls : List (Call Conn Msg × (Conn → Bool))) :
    ReportsOnce s ((call, isOpen) :: calls) ↔ ReportsOnce (s.call isOpen call) calls := by
  constructor
  · rintro ⟨⟨-, hall⟩, hnodup⟩
    exact ⟨hall, hnodup⟩
  · rintro ⟨hall, hnodup⟩
    exact ⟨⟨hproper, hall⟩, hnodup⟩

theorem reportsOnce_iff (h : Tracked conns s) (calls : List (Call Conn Msg × (Conn → Bool)))
    (hcalls : ∀ client msg isOpen, (Call.messageClient client msg, isOpen) ∈ calls → client ∈ conns) :
    ReportsOnce s calls ↔ ClientsOpen calls := by
  induction calls generalizing s with
  | nil => exact ⟨fun _ => nofun, fun _ => ⟨trivial, h.reported⟩⟩
  | cons c calls ih =>
    obtain ⟨call, isOpen⟩ := c
    have hrest := fun client msg isOpen hmem => hcalls client msg isOpen (List.mem_cons_of_mem _ hmem)
    cases call with
    | messageClient client msg =>
      cases hopen : isOpen client with
      | true =>
        have hcall : s.call isOpen (.messageClient client msg) = s.send client msg :=
          messageClient_open isOpen client msg hopen
        have hproper : Proper s (s.call isOpen (.messageClient client msg)) (.messageClient client msg) isOpen :=
          proper_messageClient isOpen client msg hopen
        have htracked : Tracked conns (s.call isOpen (.messageClient client msg)) := by
          rw [hcall]
          exact ⟨h.live, h.reported, h.apart, h.every⟩
        rw [reportsOnce_cons hproper, ih htracked hrest]
        constructor
        · intro hclients client' msg' isOpen' hmem
          rcases List.mem_cons.mp hmem with heq | hmem
          · cases heq
            exact hopen
          · exact hclients client' msg' isOpen' hmem
        · exact fun hclients client' msg' isOpen' hmem =>
            hclients client' msg' isOpen' (List.mem_cons_of_mem _ hmem)
      | false =>
        have hclient := hcalls client msg isOpen List.mem_cons_self
        refine iff_of_false (not_reportsOnce h isOpen client msg hclient hopen calls) fun hclients => ?_
        rw [hclients client msg isOpen List.mem_cons_self] at hopen
        cases hopen
    | messageAllClients msg ignoreClient =>
      have hproper : Proper s (s.call isOpen (.messageAllClients msg ignoreClient))
          (.messageAllClients msg ignoreClient) isOpen := proper_messageAllClients h isOpen msg ignoreClient
      have htracked : Tracked conns (s.call isOpen (.messageAllClients msg ignoreClient)) :=
        h.messageAllClients isOpen msg ignoreClient
      rw [reportsOnce_cons hproper, ih htracked hrest]
      constructor
      · intro hclients client' msg' isOpen' hmem
        rcases List.mem_cons.mp hmem with heq | hmem
        · cases heq
        · exact hclients client' msg' isOpen' hmem
      · exact fun hclients client' msg' isOpen' hmem =>
          hclients client' msg' isOpen' (List.mem_cons_of_mem _ hmem)

end

/-! ## The result -/

/-- **Dead connections are reported once and removed**, as long as no call of `MessageClient` finds its
connection closed. -/
theorem reports_once_iff (conns : List Conn) (hconns : conns.Nodup) (calls : List (Call Conn Msg × (Conn → Bool)))
    (hcalls : ∀ client msg isOpen, (Call.messageClient client msg, isOpen) ∈ calls → client ∈ conns) :
    ReportsOnce { deqConnections := conns.map some } calls ↔ ClientsOpen calls :=
  reportsOnce_iff ⟨⟨conns, rfl, hconns⟩, List.nodup_nil, fun _ _ => List.not_mem_nil,
    fun _ hconn => Or.inl (List.mem_map_of_mem hconn)⟩ calls hcalls

/-- The second of two connections is found closed, and the first gets one more message. -/
def broadcastCalls : List (Call Nat Nat × (Nat → Bool)) :=
  [(.messageAllClients 7 none, fun conn => conn = 10000), (.messageClient 10000 8, fun conn => conn = 10000)]

theorem reports_once_broadcast : ReportsOnce { deqConnections := [some 10000, some 10001] } broadcastCalls := by
  refine (reports_once_iff [10000, 10001] (by decide) broadcastCalls ?_).mpr ?_
  · intro client msg isOpen hmem
    simp only [broadcastCalls, List.mem_cons, Prod.mk.injEq, reduceCtorEq, false_and, Call.messageClient.injEq,
      List.not_mem_nil, or_false, false_or] at hmem
    rw [hmem.1.1]
    exact List.mem_cons_self
  · intro client msg isOpen hmem
    simp only [broadcastCalls, List.mem_cons, Prod.mk.injEq, reduceCtorEq, false_and, Call.messageClient.injEq,
      List.not_mem_nil, or_false, false_or] at hmem
    rw [hmem.2, hmem.1.1]
    rfl

/-- Two messages to a connection that is closed. -/
def closedCalls : List (Call Nat Nat × (Nat → Bool)) :=
  [(.messageClient 10000 7, fun _ => false), (.messageClient 10000 8, fun _ => false)]

/-- Both report it, and it is still in the list. -/
theorem reported_twice : ¬ ReportsOnce { deqConnections := [some 10000] } closedCalls ∧
    (({ deqConnections := [some 10000] } : ServerInterface Nat Nat).calls closedCalls) =
      { deqConnections := [some 10000], disconnected := [some 10000, some 10000] } := by
  have hafter : (({ deqConnections := [some 10000] } : ServerInterface Nat Nat).calls closedCalls) =
      { deqConnections := [some 10000], disconnected := [some 10000, some 10000] } := by decide
  refine ⟨?_, hafter⟩
  rintro ⟨-, honce⟩
  rw [hafter] at honce
  exact absurd honce (by decide)

end LogGrid.Net
