import LogGrid.Master.Ledger

/-!
# `SearchController::HandlePostSearch`

An HTTP thread reads the request, runs `StartSearch` and answers. What the call
itself does under the mutex is written down section by section, so that the
answer can be compared with it.
-/

open LogGrid.Runs

namespace LogGrid.Master

/-! ## The request -/

/-- A value that `nlohmann::json::parse` returns. A number is known by what it is as a `uint64_t`. -/
inductive Json
  | null
  | boolean (value : Bool)
  | number (asUnsigned : UInt64)
  | string (text : Bytes)
  | array (elements : List Json)
  | object (members : List (Bytes × Json))

/-- What `HandlePostSearch` can catch: an exception of the JSON library, a `std::runtime_error`, or
another `std::exception`. -/
inductive Thrown
  | json
  | runtimeError (what : Bytes)
  | other
  deriving DecidableEq, Repr

namespace Json

variable {α : Type}

def getUnsigned : Json → Except Thrown UInt64
  | .number asUnsigned => .ok asUnsigned
  | _ => .error .json

def getString : Json → Except Thrown Bytes
  | .string text => .ok text
  | _ => .error .json

/-- `body.value(key, default)`. -/
def value (get : Json → Except Thrown α) (key : Bytes) (default : α) : Json → Except Thrown α
  | .object members =>
    match members.lookup key with
    | some member => get member
    | none => .ok default
  | _ => .error .json

/-- `body.at(key).get()`. -/
def atKey (get : Json → Except Thrown α) (key : Bytes) : Json → Except Thrown α
  | .object members =>
    match members.lookup key with
    | some member => get member
    | none => .error .json
  | _ => .error .json

end Json

/-- The libraries that the handler calls. -/
structure Library where
  /-- `nlohmann::json::parse`. -/
  parse : Bytes → Except Thrown Json
  /-- `what()` of a `std::filesystem::filesystem_error`. -/
  filesystemWhat : Bytes

/-- The part of `HandlePostSearch` before `StartSearch`. -/
def readRequest (lib : Library) (content : Bytes) (world : World) : Except Thrown Request := do
  let body ← lib.parse content
  let config : SearchConfig := {}
  let maxResults ← body.value Json.getUnsigned (ascii "maxResults") config.maxResults
  let outputDir ← body.value Json.getString (ascii "outputDir") config.outputDir
  let filepath ← body.atKey Json.getString (ascii "path")
  let keyword ← body.atKey Json.getString (ascii "keyword")
  return { filepath, keyword, config := { outputDir, maxResults }, world }

/-! ## The answer -/

structure Response where
  status : Nat
  contentType : Bytes
  content : Bytes
  deriving DecidableEq, Repr

def accepted (searchId : Nat) : Response where
  status := 202
  contentType := ascii "application/json"
  content := ascii "\x7b\"searchId\":" ++ decimal searchId ++ ascii "\x7d"

/-- The three `catch` clauses. The text of `what()` ends at its first zero byte. -/
def errorResponse : Thrown → Response
  | .json => { status := 400, contentType := ascii "text/plain", content := ascii "Bad Request" }
  | .runtimeError what => {
    status := 404
    contentType := ascii "text/plain"
    content := ascii "Runtime Error: " ++ what.takeWhile (· ≠ 0) }
  | .other => { status := 500, contentType := ascii "text/plain", content := ascii "Internal Server Error" }

/-- A `filesystem_error` is a `std::runtime_error`, and a `std::bad_alloc` is not. -/
def Library.thrown (lib : Library) : Exn → Thrown
  | .runtimeError what => .runtimeError what
  | .filesystemError => .runtimeError lib.filesystemWhat
  | .badAlloc => .other

/-- The answer to a call of `StartSearch` that returned or threw. -/
def Library.answer (lib : Library) : Except Exn Nat → Response
  | .ok searchId => accepted searchId
  | .error e => errorResponse (lib.thrown e)

theorem accepted_injective : Function.Injective accepted := by
  intro n m h
  have hcontent := congrArg Response.content h
  unfold accepted at hcontent
  simp only [List.append_assoc, List.append_cancel_left_eq, List.append_cancel_right_eq] at hcontent
  exact decimal_injective hcontent

theorem errorResponse_ne_accepted (e : Thrown) (searchId : Nat) : errorResponse e ≠ accepted searchId := by
  intro h
  have hstatus := congrArg Response.status h
  cases e <;> cases hstatus

/-! ## What a section leaves behind -/

/-- Sessions, tasks and workers are as they were. -/
structure Untouched (before after : MasterServer) : Prop where
  sessions : after.sessions = before.sessions
  pendingTasks : after.pendingTasks = before.pendingTasks
  inFlightTasks : after.inFlightTasks = before.inFlightTasks
  workersFreeSlots : after.workersFreeSlots = before.workersFreeSlots
  idleWorkers : after.idleWorkers = before.idleWorkers
  idleWorkersIds : after.idleWorkersIds = before.idleWorkersIds

/-- Session `n` is added together with all of its tasks, and counts them. -/
def Publishes (n : Nat) (before after : MasterServer) : Prop :=
  ∃ (session : SearchSession) (newTasks : List TaskPayload), n ∉ before.sessions ∧
    after = { before with
      sessions := before.sessions.insert n session
      pendingTasks := before.pendingTasks ++ newTasks } ∧
    session.searchId = n ∧ session.chunksTotal.toInt = newTasks.length ∧ ∀ task ∈ newTasks, task.searchId = n

theorem untouched_allocate (m : MasterServer) : Untouched m m.allocateSearchId.2 := ⟨rfl, rfl, rfl, rfl, rfl, rfl⟩

theorem Publishes.mem_sessions {n : Nat} {before after : MasterServer} (h : Publishes n before after) (m : Nat) :
    m ∈ after.sessions ↔ m = n ∨ m ∈ before.sessions := by
  obtain ⟨session, newTasks, -, rfl, -⟩ := h
  exact AList.mem_insert _

theorem Publishes.unique {n m : Nat} {before after : MasterServer} (h : Publishes n before after)
    (h' : Publishes m before after) : m = n := by
  have hmem := (h'.mem_sessions m).mpr (Or.inl rfl)
  rcases (h.mem_sessions m).mp hmem with heq | hold
  · exact heq
  · obtain ⟨-, -, hnew, -⟩ := h'
    exact absurd hold hnew

theorem not_publishes (n : Nat) {before after : MasterServer} (h : after.sessions = before.sessions) :
    ¬ Publishes n before after := by
  intro hpub
  have hmem := (hpub.mem_sessions n).mpr (Or.inl rfl)
  obtain ⟨-, -, hnew, -⟩ := hpub
  rw [h] at hmem
  exact hnew hmem

/-- A search is published whole exactly when its tasks can be counted. -/
theorem publishes_addPendingTasks_iff (m : MasterServer) (n : Nat) (session : SearchSession)
    (newTasks : List TaskPayload) (hid : session.searchId = n) (hnew : n ∉ m.sessions)
    (htasks : ∀ task ∈ newTasks, task.searchId = n) :
    Publishes n m (m.addPendingTasks session newTasks) ↔ newTasks.length < 2 ^ 31 := by
  subst hid
  constructor
  · rintro ⟨session', newTasks', -, hafter, -, hcount, -⟩
    have hpending : m.pendingTasks ++ newTasks = m.pendingTasks ++ newTasks' :=
      congrArg MasterServer.pendingTasks hafter
    have hlookup := congrArg (fun after => after.sessions.lookup session.searchId) hafter
    rw [List.append_cancel_left_eq] at hpending
    simp only [MasterServer.addPendingTasks, MasterServer.insertSession, AList.lookup_insert,
      Option.some.injEq] at hlookup
    rw [← hlookup, ← hpending] at hcount
    simp only at hcount
    have hmax := (Int32.ofNat newTasks.length).toInt_lt
    omega
  · intro hcount
    exact ⟨{ session with chunksTotal := Int32.ofNat newTasks.length }, newTasks, hnew, rfl, rfl,
      Int32.toInt_ofNat_of_lt hcount, htasks⟩

/-! ## The threads -/

/-- A critical section that a call of `HandlePostSearch` went through. -/
structure Turn where
  call : Nat
  before : MasterServer
  after : MasterServer

/-- The master with what its HTTP calls have done and answered so far, which nothing in the code reads. -/
structure HttpState where
  master : Shared := {}
  calls : Nat := 0
  turns : List Turn := []
  answers : List (Nat × Response) := []

/-- A thread in `StartSearch`, with the call it runs for and the local `searchId`, or another thread. -/
inductive Worker
  | post (call searchId : Nat) (pc : Pc)
  | other (pc : Pc)

def Worker.pc : Worker → Pc
  | .post _ _ pc => pc
  | .other pc => pc

inductive HttpOp
  | postSearch (content : Bytes) (world : World)
  | onMessage (client : Nat) (msg : Message)
  | onClientDisconnect (client : Nat)

abbrev HttpSystem := Threads.Pool HttpState Worker

/-- What a section does not decide itself, and whether `AddPendingTasks` finds the memory to append. -/
structure HttpChoice extends Choice where
  appends : Bool := true

abbrev HttpEvent := Threads.Event HttpOp HttpChoice

namespace Http

section

variable (lib : Library) (settings : Settings)

def initial : HttpSystem := ⟨{}, []⟩

def beginOther (s : HttpState) (op : Op) : HttpState × Option Worker :=
  let (master, next) := begin settings s.master op
  ({ s with master }, next.map .other)

/-- A call up to its first critical section. -/
def start (s : HttpState) : HttpOp → HttpState × Option Worker
  | .postSearch content world =>
    let call := s.calls
    let s := { s with calls := s.calls + 1 }
    match readRequest lib content world with
    | .error e => ({ s with answers := (call, errorResponse e) :: s.answers }, none)
    | .ok request =>
      match resolveTarget settings request with
      | .error e => ({ s with answers := (call, lib.answer (.error e)) :: s.answers }, none)
      | .ok target => (s, some (.post call 0 (.searchAllocate request target)))
  | .onMessage client msg => beginOther settings s (.onMessage client msg)
  | .onClientDisconnect client => beginOther settings s (.onClientDisconnect client)

/-- The local `searchId` behind a critical section. -/
def ownId (s : Shared) (searchId : Nat) : Pc → Nat
  | .searchAllocate _ _ => s.server.allocateSearchId.1
  | _ => searchId

/-- How `StartSearch` ends when it ends behind this critical section. -/
def result (s : Shared) (searchId : Nat) : Pc → Except Exn Nat
  | .searchAllocate request target =>
    (prepareSearch settings request target s.server.allocateSearchId.1).map fun _ => s.server.allocateSearchId.1
  | _ => .ok searchId

/-- The append throws: the session stays without its tasks, and the call ends. -/
def appendThrows (s : HttpState) (call : Nat) (search : Search) : HttpState :=
  let server := s.master.server.insertSession search.session search.newTasks
  { s with
    master := { s.master with server }
    turns := { call, before := s.master.server, after := server } :: s.turns
    answers := (call, lib.answer (.error .badAlloc)) :: s.answers }

/-- A section after which the call goes on or answers. -/
def postTurn (choice : Choice) (s : HttpState) (call searchId : Nat) (pc : Pc) :
    Option (HttpState × Option Worker) :=
  (exec settings choice s.master pc).map fun (master, next) =>
    let turns := { call, before := s.master.server, after := master.server } :: s.turns
    match next with
    | some pc' => ({ s with master, turns }, some (.post call (ownId s.master searchId pc) pc'))
    | none =>
      let answers := (call, lib.answer (result settings s.master searchId pc)) :: s.answers
      ({ s with master, turns, answers }, none)

def turn (choice : HttpChoice) (s : HttpState) : Worker → Option (HttpState × Option Worker)
  | .post call searchId pc =>
    match choice.appends, pc with
    | false, .searchPublish search => some (appendThrows lib s call search, none)
    | _, _ => postTurn lib settings choice.toChoice s call searchId pc
  | .other pc =>
    (exec settings choice.toChoice s.master pc).map fun (master, next) => ({ s with master }, next.map .other)

abbrev step : HttpSystem → HttpEvent → Option HttpSystem :=
  Threads.step (start lib settings) (turn lib settings)

/-! ## Steps by case -/

/-- How a call begins: refused at once, in `StartSearch`, or one that is not a `POST`. -/
inductive Started (s : HttpState) : HttpState × Option Worker → Prop
  | refused (e : Thrown) : Started s
      ({ s with calls := s.calls + 1, answers := (s.calls, errorResponse e) :: s.answers }, none)
  | post (request : Request) (target : Bytes) (h : resolveTarget settings request = .ok target) : Started s
      ({ s with calls := s.calls + 1 }, some (.post s.calls 0 (.searchAllocate request target)))
  | other (op : Op) (h : ∀ request, op ≠ .startSearch request) : Started s (beginOther settings s op)

theorem start_spec (s : HttpState) (op : HttpOp) : Started settings s (start lib settings s op) := by
  cases op with
  | postSearch content world =>
    cases hread : readRequest lib content world with
    | error e =>
      simp only [start, hread]
      exact .refused e
    | ok request =>
      cases htarget : resolveTarget settings request with
      | error e =>
        simp only [start, hread, htarget]
        exact .refused (lib.thrown e)
      | ok target =>
        simp only [start, hread, htarget]
        exact .post request target htarget
  | onMessage client msg => exact .other (.onMessage client msg) (by intro request h; cases h)
  | onClientDisconnect client => exact .other (.onClientDisconnect client) (by intro request h; cases h)

/-- How a section of a thread ends: the call goes on, the call answers, its append throws, or the
thread is another one. -/
inductive Turned (choice : HttpChoice) (s : HttpState) : Worker → HttpState → Option Worker → Prop
  | goesOn (call searchId : Nat) (pc pc' : Pc) (master : Shared)
      (h : exec settings choice.toChoice s.master pc = some (master, some pc')) :
      Turned choice s (.post call searchId pc)
        { s with master, turns := { call, before := s.master.server, after := master.server } :: s.turns }
        (some (.post call (ownId s.master searchId pc) pc'))
  | answers (call searchId : Nat) (pc : Pc) (master : Shared)
      (h : exec settings choice.toChoice s.master pc = some (master, none)) :
      Turned choice s (.post call searchId pc)
        { s with
          master
          turns := { call, before := s.master.server, after := master.server } :: s.turns
          answers := (call, lib.answer (result settings s.master searchId pc)) :: s.answers } none
  | throws (call searchId : Nat) (search : Search) (h : choice.appends = false) :
      Turned choice s (.post call searchId (.searchPublish search)) (appendThrows lib s call search) none
  | other (pc : Pc) (master : Shared) (next : Option Pc)
      (h : exec settings choice.toChoice s.master pc = some (master, next)) :
      Turned choice s (.other pc) { s with master } (next.map .other)

theorem postTurn_spec (choice : HttpChoice) (s s' : HttpState) (call searchId : Nat) (pc : Pc) (next : Option Worker)
    (h : postTurn lib settings choice.toChoice s call searchId pc = some (s', next)) :
    Turned lib settings choice s (.post call searchId pc) s' next := by
  obtain ⟨⟨master, next'⟩, hexec, heq⟩ := Option.map_eq_some_iff.mp h
  cases next' with
  | none => cases heq; exact .answers call searchId pc master hexec
  | some pc' => cases heq; exact .goesOn call searchId pc pc' master hexec

theorem turn_spec (choice : HttpChoice) (s s' : HttpState) (w : Worker) (next : Option Worker)
    (h : turn lib settings choice s w = some (s', next)) : Turned lib settings choice s w s' next := by
  cases w with
  | post call searchId pc =>
    unfold turn at h
    simp only at h
    split at h
    case h_1 search happends =>
      cases h
      exact .throws call searchId search happends
    case h_2 => exact postTurn_spec lib settings choice s s' call searchId _ next h
  | other pc =>
    obtain ⟨⟨master, next'⟩, hexec, heq⟩ := Option.map_eq_some_iff.mp h
    cases heq
    exact .other pc master next' hexec

/-! ## The master below -/

/-- What is left when the calls and their answers are forgotten. -/
def forget (p : HttpSystem) : System := ⟨p.shared.master, p.threads.map Worker.pc⟩

theorem map_other (next : Option Pc) : (next.map Worker.other).map Worker.pc = next := by
  cases next <;> rfl

theorem turn_forget (choice : HttpChoice) (s : HttpState) (w : Worker)
    (happends : ∀ search, w.pc = .searchPublish search → choice.appends = true) :
    exec settings choice.toChoice s.master w.pc =
      (turn lib settings choice s w).map fun r => (r.1.master, r.2.map Worker.pc) := by
  cases w with
  | post call searchId pc =>
    have hturn : turn lib settings choice s (.post call searchId pc) =
        postTurn lib settings choice.toChoice s call searchId pc := by
      unfold turn
      simp only
      split
      · rename_i search hthrows
        rw [happends search rfl] at hthrows
        cases hthrows
      · rfl
    rw [hturn]
    unfold postTurn Worker.pc
    simp only
    cases exec settings choice.toChoice s.master pc with
    | none => rfl
    | some r =>
      obtain ⟨master, next⟩ := r
      cases next <;> rfl
  | other pc =>
    unfold turn Worker.pc
    simp only
    cases exec settings choice.toChoice s.master pc with
    | none => rfl
    | some r =>
      obtain ⟨master, next⟩ := r
      cases next <;> rfl

/-- No append throws. -/
def Appends (p : HttpSystem) : HttpEvent → Prop
  | .call _ => True
  | .run thread choice => ∀ w ∈ p.threads[thread]?, ∀ search, w.pc = .searchPublish search → choice.appends = true

/-- **A run of the HTTP threads is a run of the master**, unless an append throws. -/
theorem forget_reaches {guard : HttpSystem → HttpEvent → Prop} {p : HttpSystem}
    (hguard : ∀ p e, guard p e → Appends p e) (h : Reaches (step lib settings) guard initial p) :
    Reachable settings (forget p) := by
  refine h.invariant (fun p => Reachable settings (forget p)) .start ?_
  intro p e p' _ hforget happends hstep
  cases e with
  | call op =>
    obtain ⟨shared, threads⟩ := p'
    obtain ⟨hshared, hthreads⟩ := Threads.step_call hstep
    simp only at hshared hthreads
    have hstart := start_spec lib settings p.shared op
    rw [hshared, hthreads]
    generalize start lib settings p.shared op = r at hstart
    cases hstart with
    | refused e => exact hforget
    | post request target htarget =>
      refine hforget.step (.call (.startSearch request)) trivial ?_
      simp only [Threads.step, begin, forget, htarget]
      rfl
    | other op _ =>
      refine hforget.step (.call op) trivial ?_
      simp only [Threads.step, forget, beginOther, List.map_append, ← Option.toList_map, map_other]
  | run thread choice =>
    refine hforget.step (.run thread choice.toChoice) trivial ?_
    have hmap : Threads.step (begin settings) (exec settings) (forget p) (.run thread choice.toChoice) =
        (step lib settings p (.run thread choice)).map forget :=
      Threads.step_run_map HttpState.master Worker.pc p thread choice choice.toChoice fun w hw =>
        turn_forget lib settings choice p.shared w (hguard p _ happends w hw)
    rw [hstep] at hmap
    exact hmap

end

/-! ## The sections of one call -/

def own (turns : List Turn) (call : Nat) : List Turn := turns.filter (·.call = call)

theorem own_cons_self (t : Turn) (turns : List Turn) : own (t :: turns) t.call = t :: own turns t.call := by
  unfold own
  rw [List.filter_cons_of_pos (by simp)]

theorem own_cons_ne (t : Turn) (turns : List Turn) (call : Nat) (h : call ≠ t.call) :
    own (t :: turns) call = own turns call := by
  unfold own
  rw [List.filter_cons_of_neg (by simpa using h.symm)]

/-- One of the sections published `n`, and none of them anything else. -/
structure Once (turns : List Turn) (n : Nat) : Prop where
  published : ∃ t ∈ turns, Publishes n t.before t.after
  only : ∀ t ∈ turns, ∀ m, Publishes m t.before t.after → m = n

def Quiet (turns : List Turn) : Prop := ∀ t ∈ turns, Untouched t.before t.after

theorem Once.cons {turns : List Turn} {n : Nat} (h : Once turns n) (t : Turn)
    (hsame : t.after.sessions = t.before.sessions) : Once (t :: turns) n := by
  obtain ⟨t₀, ht₀, hpub⟩ := h.published
  refine ⟨⟨t₀, List.mem_cons_of_mem _ ht₀, hpub⟩, ?_⟩
  intro t' ht' m hm
  rcases List.mem_cons.mp ht' with rfl | ht'
  · exact absurd hm (not_publishes m hsame)
  · exact h.only t' ht' m hm

theorem Quiet.publish {turns : List Turn} (h : Quiet turns) (t : Turn) (n : Nat)
    (hpub : Publishes n t.before t.after) : Once (t :: turns) n := by
  refine ⟨⟨t, List.mem_cons_self, hpub⟩, ?_⟩
  intro t' ht' m hm
  rcases List.mem_cons.mp ht' with rfl | ht'
  · exact hpub.unique hm
  · exact absurd hm (not_publishes m (h t' ht').sessions)

/-- What a call has done when its thread comes to a section. -/
def Phase (turns : List Turn) (searchId : Nat) : Pc → Prop
  | .searchAllocate _ _ => turns = []
  | .searchPublish search => searchId = search.session.searchId ∧ Quiet turns
  | .assign | .assignDispatch _ _ => Once turns searchId
  | _ => False

/-- What a call has done when it has answered. -/
def Settled (turns : List Turn) (response : Response) : Prop :=
  (∃ n, response = accepted n ∧ Once turns n) ∨ ((∀ n, response ≠ accepted n) ∧ Quiet turns)

section

variable {lib : Library} {settings : Settings} {choice : Choice} {s master : Shared}

theorem assign_turn {pc : Pc} {next : Option Pc} (h : Ran settings choice s pc master next)
    (hpc : pc = .assign ∨ ∃ client left, pc = .assignDispatch client left) :
    master.server.sessions = s.server.sessions ∧
      ∀ turns searchId, Once turns searchId → ∀ pc' ∈ next, Phase turns searchId pc' := by
  have hloop : ∀ client left turns searchId, Once turns searchId →
      Phase turns searchId (assignLoop client left) := by
    intro client left turns searchId honce
    rcases assignLoop_cases client left with h | h <;> rw [h] <;> exact honce
  cases h with
  | assignStop _ =>
    refine ⟨rfl, ?_⟩
    intro turns searchId honce pc' hpc'
    cases hpc'
  | assignSkip server hpop =>
    refine ⟨(s.server.popIdleWorker_sessions server none hpop).1, ?_⟩
    intro turns searchId honce pc' hpc'
    cases hpc'
    exact honce
  | assignWake server client threadsCount hpop =>
    refine ⟨(s.server.popIdleWorker_sessions server _ hpop).1, ?_⟩
    intro turns searchId honce pc' hpc'
    cases hpc'
    exact hloop _ _ turns searchId honce
  | assignDispatch client left =>
    refine ⟨(s.server.dispatchNextTask_sessions client).1, ?_⟩
    intro turns searchId honce pc' hpc'
    cases hpc'
    split
    · exact hloop _ _ turns searchId honce
    · exact honce
  | _ =>
    rcases hpc with h | ⟨client, left, h⟩ <;> cases h

theorem quiet_allocate (call : Nat) (m : MasterServer) :
    Quiet [{ call, before := m, after := m.allocateSearchId.2 }] := by
  intro t ht
  rw [List.mem_singleton.mp ht]
  exact untouched_allocate m

theorem Phase.goesOn {turns : List Turn} {searchId : Nat} {pc pc' : Pc} (hphase : Phase turns searchId pc)
    (hexec : exec settings choice s pc = some (master, some pc'))
    (htarget : ∀ request target, pc = .searchAllocate request target → 0 ∉ target)
    (hpublish : ∀ search, pc = .searchPublish search → Publishes search.session.searchId s.server
      (s.server.addPendingTasks search.session search.newTasks)) (call : Nat) :
    Phase ({ call, before := s.server, after := master.server } :: turns) (ownId s searchId pc) pc' := by
  cases pc with
  | searchAllocate request target =>
    unfold Phase at hphase
    subst hphase
    unfold exec at hexec
    simp only at hexec
    cases hprepare : prepareSearch settings request target s.server.allocateSearchId.1 with
    | error e => rw [hprepare] at hexec; cases hexec
    | ok built =>
      obtain ⟨session, newTasks⟩ := built
      rw [hprepare] at hexec
      cases hexec
      obtain ⟨⟨path, scanErrors, hsession, -⟩, -⟩ := prepareSearch_spec settings request target _ session newTasks
        (htarget request target rfl) hprepare
      rw [hsession]
      exact ⟨rfl, quiet_allocate call s.server⟩
  | searchPublish search =>
    obtain ⟨rfl, hquiet⟩ := hphase
    cases hexec
    exact hquiet.publish _ _ (hpublish search rfl)
  | assign =>
    obtain ⟨hsame, hnext⟩ := assign_turn (exec_ran settings choice s master _ _ hexec) (Or.inl rfl)
    exact hnext _ _ (hphase.cons _ hsame) pc' rfl
  | assignDispatch client left =>
    obtain ⟨hsame, hnext⟩ := assign_turn (exec_ran settings choice s master _ _ hexec) (Or.inr ⟨client, left, rfl⟩)
    exact hnext _ _ (hphase.cons _ hsame) pc' rfl
  | _ => exact hphase.elim

theorem Phase.answers {turns : List Turn} {searchId : Nat} {pc : Pc} (hphase : Phase turns searchId pc)
    (hexec : exec settings choice s pc = some (master, none)) (call : Nat) :
    Settled ({ call, before := s.server, after := master.server } :: turns)
      (lib.answer (result settings s searchId pc)) := by
  cases pc with
  | searchAllocate request target =>
    unfold Phase at hphase
    subst hphase
    unfold exec at hexec
    simp only at hexec
    cases hprepare : prepareSearch settings request target s.server.allocateSearchId.1 with
    | error e =>
      rw [hprepare] at hexec
      cases hexec
      have hresult : result settings s searchId (.searchAllocate request target) = .error e := by
        simp only [result, hprepare, Except.map]
      rw [hresult]
      exact Or.inr ⟨errorResponse_ne_accepted (lib.thrown e), quiet_allocate call s.server⟩
    | ok built => rw [hprepare] at hexec; cases hexec
  | searchPublish search => cases hexec
  | assign =>
    obtain ⟨hsame, -⟩ := assign_turn (exec_ran settings choice s master _ _ hexec) (Or.inl rfl)
    exact Or.inl ⟨searchId, rfl, hphase.cons _ hsame⟩
  | assignDispatch client left =>
    obtain ⟨hsame, -⟩ := assign_turn (exec_ran settings choice s master _ _ hexec) (Or.inr ⟨client, left, rfl⟩)
    exact Or.inl ⟨searchId, rfl, hphase.cons _ hsame⟩
  | _ => exact hphase.elim

theorem Phase.searches {turns : List Turn} {searchId : Nat} {pc : Pc} {next : Option Pc}
    (hphase : Phase turns searchId pc) (hexec : exec settings choice s pc = some (master, next))
    (hpublish : ∀ search, pc = .searchPublish search → Publishes search.session.searchId s.server
      (s.server.addPendingTasks search.session search.newTasks)) (n : Nat) :
    n ∈ master.history.searches.map (·.session.searchId) ↔
      Publishes n s.server master.server ∨ n ∈ s.history.searches.map (·.session.searchId) := by
  have hran := exec_ran settings choice s master pc next hexec
  obtain ⟨hhistory, -, -⟩ := hran.history
  rw [hhistory, List.map_append, List.mem_append]
  have hnone (hsame : master.server.sessions = s.server.sessions) :
      n ∈ ([] : List Search).map (·.session.searchId) ↔ Publishes n s.server master.server :=
    iff_of_false List.not_mem_nil (not_publishes n hsame)
  apply or_congr_left
  cases pc with
  | searchAllocate request target => cases hran <;> exact hnone rfl
  | searchPublish search =>
    cases hran
    have hpub := hpublish search rfl
    simp only [publishes, List.map_singleton, List.mem_singleton]
    constructor
    · rintro rfl
      exact hpub
    · exact hpub.unique
  | assign => exact hnone (assign_turn hran (Or.inl rfl)).1
  | assignDispatch client left => exact hnone (assign_turn hran (Or.inr ⟨client, left, rfl⟩)).1
  | _ => exact hphase.elim

end

/-! ## All calls -/

def calls : Worker → List Nat
  | .post call _ _ => [call]
  | .other _ => []

def WorkerPhase (turns : List Turn) : Worker → Prop
  | .post call searchId pc => Phase (own turns call) searchId pc
  | .other pc => PcSearch (fun _ _ => False) (fun _ => False) pc

/-- Two sections that publish no search both. -/
def Apart (t t' : Turn) : Prop := ∀ n, Publishes n t.before t.after → ¬ Publishes n t'.before t'.after

instance : Std.Symm Apart where
  symm _ _ hno n hpub hpub' := hno n hpub' hpub

/-- Every call is where its sections say, has its own number, and is answered once; a search is published once. -/
structure Calls (s : HttpState) (workers : List Worker) : Prop where
  threads : ∀ w ∈ workers, WorkerPhase s.turns w
  answers : ∀ x ∈ s.answers, Settled (own s.turns x.1) x.2
  nodup : (workers.flatMap calls ++ s.answers.map Prod.fst).Nodup
  numbered : ∀ call ∈ workers.flatMap calls ++ s.answers.map Prod.fst ++ s.turns.map Turn.call, call < s.calls
  searches : ∀ n, n ∈ s.master.history.searches.map (·.session.searchId) ↔
    ∃ t ∈ s.turns, Publishes n t.before t.after
  once : s.turns.Pairwise Apart

theorem Calls.perm {s : HttpState} {workers workers' : List Worker} (h : Calls s workers)
    (hperm : workers.Perm workers') : Calls s workers' := by
  have hcalls := (hperm.flatMap_right calls).append_right (s.answers.map Prod.fst)
  refine ⟨fun w hw => h.threads w (hperm.mem_iff.mpr hw), h.answers, hcalls.nodup_iff.mp h.nodup, ?_,
    h.searches, h.once⟩
  intro call hcall
  exact h.numbered call ((hcalls.append_right _).mem_iff.mpr hcall)

theorem Calls.turn {s : HttpState} {workers : List Worker} (h : Calls s workers) (t : Turn) (master : Shared)
    (hbefore : t.before = s.master.server)
    (hknown : ∀ n, n ∈ s.master.history.searches.map (·.session.searchId) → n ∈ s.master.server.sessions)
    (hsearches : ∀ n, n ∈ master.history.searches.map (·.session.searchId) ↔
      Publishes n t.before t.after ∨ n ∈ s.master.history.searches.map (·.session.searchId)) :
    (∀ n, n ∈ master.history.searches.map (·.session.searchId) ↔
      ∃ t' ∈ t :: s.turns, Publishes n t'.before t'.after) ∧
    (t :: s.turns).Pairwise Apart := by
  constructor
  · intro n
    rw [hsearches, h.searches]
    simp only [List.mem_cons, exists_eq_or_imp]
  · refine List.pairwise_cons.mpr ⟨?_, h.once⟩
    intro t' ht' n hpub hpub'
    have hold := hknown n ((h.searches n).mpr ⟨t', ht', hpub'⟩)
    obtain ⟨-, -, hnew, -⟩ := hpub
    rw [hbefore] at hnew
    exact hnew hold

theorem WorkerPhase.later {turns : List Turn} {w : Worker} (h : WorkerPhase turns w) (t : Turn)
    (hother : t.call ∉ calls w) : WorkerPhase (t :: turns) w := by
  cases w with
  | post call searchId pc =>
    show Phase (own (t :: turns) call) searchId pc
    rw [own_cons_ne t turns call (by simpa [calls, eq_comm] using hother)]
    exact h
  | other pc => exact h

theorem Calls.settled_later {s : HttpState} {workers : List Worker} (h : Calls s workers) (t : Turn)
    (hother : t.call ∉ s.answers.map Prod.fst) : ∀ x ∈ s.answers, Settled (own (t :: s.turns) x.1) x.2 := by
  intro x hx
  have hne : x.1 ≠ t.call := by
    intro heq
    exact hother (heq ▸ List.mem_map_of_mem hx)
  rw [own_cons_ne t s.turns x.1 hne]
  exact h.answers x hx

theorem Calls.own_fresh {s : HttpState} {workers : List Worker} (h : Calls s workers) :
    own s.turns s.calls = [] := by
  unfold own
  rw [List.filter_eq_nil_iff]
  intro t ht
  have := h.numbered t.call (List.mem_append_right _ (List.mem_map_of_mem ht))
  simp only [decide_eq_true_eq]
  omega

theorem Calls.number_fresh {s : HttpState} {workers : List Worker} (h : Calls s workers) :
    s.calls ∉ workers.flatMap calls ++ s.answers.map Prod.fst := by
  intro hmem
  have := h.numbered s.calls (List.mem_append_left _ hmem)
  omega

section

variable {lib : Library} {settings : Settings} {p : HttpSystem}

/-- The tasks of a search that comes to `AddPendingTasks` can be counted, for `chunks_total` is an `int`,
and the append does not throw. -/
def Publishable (p : HttpSystem) : HttpEvent → Prop
  | .call _ => True
  | .run thread choice => ∀ w ∈ p.threads[thread]?, ∀ search ∈ publishes w.pc,
      search.newTasks.length < 2 ^ 31 ∧ choice.appends = true

instance (p : HttpSystem) : (e : HttpEvent) → Decidable (Publishable p e)
  | .call _ => inferInstanceAs (Decidable True)
  | .run thread choice => inferInstanceAs (Decidable (∀ w ∈ p.threads[thread]?, ∀ search ∈ publishes w.pc,
      search.newTasks.length < 2 ^ 31 ∧ choice.appends = true))

theorem Publishable.appends {p : HttpSystem} {e : HttpEvent} (h : Publishable p e) : Appends p e := by
  cases e with
  | call op => trivial
  | run thread choice =>
    intro w hw search hpc
    exact (h w hw search (by rw [hpc]; exact List.mem_singleton_self search)).2

theorem Calls.start {s : HttpState} {workers : List Worker} (h : Calls s workers) (op : HttpOp) :
    Calls (start lib settings s op).1 ((start lib settings s op).2.toList ++ workers) := by
  have hfresh := h.number_fresh
  have hstart := start_spec lib settings s op
  generalize Http.start lib settings s op = r at hstart
  cases hstart with
  | refused e =>
    refine ⟨h.threads, ?_, ?_, ?_, h.searches, h.once⟩
    · refine List.forall_mem_cons.mpr ⟨Or.inr ⟨errorResponse_ne_accepted e, ?_⟩, h.answers⟩
      simp only [h.own_fresh]
      exact fun t ht => absurd ht List.not_mem_nil
    · rw [List.map_cons]
      exact List.perm_middle.nodup_iff.mpr (List.nodup_cons.mpr ⟨hfresh, h.nodup⟩)
    · intro call hcall
      simp only [Option.toList_none, List.nil_append, List.map_cons] at hcall
      rcases List.mem_cons.mp ((List.perm_middle.append_right _).mem_iff.mp hcall) with rfl | hcall
      · exact Nat.lt_succ_self _
      · exact Nat.lt_succ_of_lt (h.numbered call hcall)
  | post request target htarget =>
    refine ⟨?_, h.answers, ?_, ?_, h.searches, h.once⟩
    · exact List.forall_mem_cons.mpr ⟨h.own_fresh, h.threads⟩
    · exact List.nodup_cons.mpr ⟨hfresh, h.nodup⟩
    · intro call hcall
      rcases List.mem_cons.mp hcall with rfl | hcall
      · exact Nat.lt_succ_self _
      · exact Nat.lt_succ_of_lt (h.numbered call hcall)
  | other op hop =>
    have hnone : ((begin settings s.master op).2.map Worker.other).toList.flatMap calls = [] := by
      cases (begin settings s.master op).2 <;> rfl
    have hcalls : (((begin settings s.master op).2.map Worker.other).toList ++ workers).flatMap calls =
        workers.flatMap calls := by
      rw [List.flatMap_append, hnone, List.nil_append]
    unfold beginOther
    refine ⟨?_, h.answers, by rw [hcalls]; exact h.nodup, by rw [hcalls]; exact h.numbered, ?_, h.once⟩
    · intro w hw
      rcases List.mem_append.mp hw with hw | hw
      · obtain ⟨pc, hpc, rfl⟩ := Option.map_eq_some_iff.mp (Option.mem_toList.mp hw)
        exact begin_search settings _ _ s.master op (fun request _ heq _ => hop request heq) pc hpc
      · exact h.threads w hw
    · intro n
      simp only [(begin_history settings s.master op).1]
      exact h.searches n

theorem Calls.run {s s' : HttpState} {w : Worker} {rest : List Worker} {choice : HttpChoice}
    {next : Option Worker} (h : Calls s (w :: rest)) (hturn : Http.turn lib settings choice s w = some (s', next))
    (happends : ∀ search, w.pc = .searchPublish search → choice.appends = true)
    (hknown : ∀ n, n ∈ s.master.history.searches.map (·.session.searchId) → n ∈ s.master.server.sessions)
    (htarget : ∀ request target, w.pc = .searchAllocate request target → 0 ∉ target)
    (hpublish : ∀ search, w.pc = .searchPublish search → Publishes search.session.searchId s.master.server
      (s.master.server.addPendingTasks search.session search.newTasks)) : Calls s' (next.toList ++ rest) := by
  obtain ⟨hphase, hrest⟩ := List.forall_mem_cons.mp h.threads
  have hnodup := h.nodup
  rw [List.flatMap_cons, List.append_assoc] at hnodup
  have hnumbered := h.numbered
  rw [List.flatMap_cons] at hnumbered
  cases turn_spec lib settings choice s s' w next hturn with
  | goesOn call searchId pc pc' master hexec =>
    have hother : call ∉ rest.flatMap calls ++ s.answers.map Prod.fst := (List.nodup_cons.mp hnodup).1
    rw [List.mem_append, not_or] at hother
    obtain ⟨hsearches, honce⟩ := h.turn { call, before := s.master.server, after := master.server } master rfl
      hknown (hphase.searches hexec hpublish)
    refine ⟨?_, h.settled_later _ hother.2, hnodup, ?_, hsearches, honce⟩
    · refine List.forall_mem_cons.mpr ⟨?_, ?_⟩
      · show Phase (own (_ :: s.turns) call) _ pc'
        rw [own_cons_self]
        exact hphase.goesOn hexec htarget hpublish call
      · intro w' hw'
        refine (hrest w' hw').later _ ?_
        exact fun hmem => hother.1 (List.mem_flatMap.mpr ⟨w', hw', hmem⟩)
    · intro call' hcall'
      rw [List.map_cons] at hcall'
      rcases List.mem_cons.mp (List.perm_middle.mem_iff.mp hcall') with rfl | hcall'
      · exact hnumbered _ (by simp [calls])
      · exact hnumbered call' hcall'
  | answers call searchId pc master hexec =>
    have hother : call ∉ rest.flatMap calls ++ s.answers.map Prod.fst := (List.nodup_cons.mp hnodup).1
    rw [List.mem_append, not_or] at hother
    obtain ⟨hsearches, honce⟩ := h.turn { call, before := s.master.server, after := master.server } master rfl
      hknown (hphase.searches hexec hpublish)
    refine ⟨?_, ?_, List.perm_middle.nodup_iff.mpr hnodup, ?_, hsearches, honce⟩
    · intro w' hw'
      refine (hrest w' hw').later _ ?_
      exact fun hmem => hother.1 (List.mem_flatMap.mpr ⟨w', hw', hmem⟩)
    · refine List.forall_mem_cons.mpr ⟨?_, h.settled_later _ hother.2⟩
      show Settled (own (_ :: s.turns) call) _
      rw [own_cons_self]
      exact hphase.answers hexec call
    · intro call' hcall'
      rw [List.map_cons] at hcall'
      rcases List.mem_cons.mp (List.perm_middle.mem_iff.mp hcall') with rfl | hcall'
      · exact hnumbered _ (by simp [calls])
      · refine hnumbered call' ?_
        exact (List.perm_middle.append_right _).mem_iff.mp hcall'
  | throws call searchId search hthrows =>
    rw [happends search rfl] at hthrows
    cases hthrows
  | other pc master next' hexec =>
    have hran := exec_ran settings choice.toChoice s.master master pc next' hexec
    have hnone : (next'.map Worker.other).toList.flatMap calls = [] := by cases next' <;> rfl
    have hcalls : ((next'.map Worker.other).toList ++ rest).flatMap calls = rest.flatMap calls := by
      rw [List.flatMap_append, hnone, List.nil_append]
    refine ⟨?_, h.answers, by rw [hcalls]; exact hnodup, by rw [hcalls]; exact hnumbered, ?_, h.once⟩
    · intro w' hw'
      rcases List.mem_append.mp hw' with hw' | hw'
      · obtain ⟨pc', hpc', rfl⟩ := Option.map_eq_some_iff.mp (Option.mem_toList.mp hw')
        exact hran.search settings _ _ (fun _ _ _ _ _ hno _ => hno) hphase pc' hpc'
      · exact hrest w' hw'
    · intro n
      obtain ⟨hhistory, -, -⟩ := hran.history
      have hpublishes : publishes pc = [] := by
        cases pc with
        | searchPublish search => exact hphase.elim
        | _ => rfl
      simp only [hhistory, hpublishes, List.nil_append]
      exact h.searches n

/-- **Every call is accounted for**, as long as every search can be published. -/
theorem calls_accounted (h : Reaches (step lib settings) Publishable initial p) : Calls p.shared p.threads := by
  refine Threads.pool_invariant Calls ?_ (fun s l l' hperm hinv => hinv.perm hperm) ?_ ?_ h
  · exact ⟨by simp [initial], by simp [initial], by simp [initial], by simp [initial], by simp [initial],
      List.Pairwise.nil⟩
  · intro p op _ _ hinv
    exact hinv.start op
  · intro p thread choice w rest s' next hreach hguard hget hperm hinv hturn
    have hmaster := forget_reaches lib settings (fun _ _ => Publishable.appends) hreach
    have hmem : w ∈ p.threads := List.mem_of_getElem? hget
    have hpc : w.pc ∈ (forget p).threads := List.mem_map_of_mem hmem
    refine hinv.run hturn (hguard.appends w hget) ?_ ?_ ?_
    · intro n hn
      exact AList.mem_keys.mpr ((sessionsInv hmaster).keys.mem_iff.mpr hn)
    · intro request target heq
      rw [heq] at hpc
      exact (allPrepared hmaster).threads _ hpc
    · intro search heq
      rw [heq] at hpc
      have hprepared := (allPrepared hmaster).threads _ hpc
      exact (publishes_addPendingTasks_iff _ _ _ _ rfl (publish_fresh hmaster search hpc)
        fun task htask => (hprepared.task_searchId task htask).1).mpr
          (hguard w hget search (by rw [heq]; exact List.mem_singleton_self search)).1

/-! ## The result -/

theorem mem_own (turns : List Turn) (call : Nat) (t : Turn) : t ∈ own turns call ↔ t ∈ turns ∧ t.call = call := by
  unfold own
  rw [List.mem_filter, decide_eq_true_eq]

theorem Settled.accepted_iff {turns : List Turn} {response : Response} (h : Settled turns response) (n : Nat) :
    response = accepted n ↔ ∃ t ∈ turns, Publishes n t.before t.after := by
  rcases h with ⟨m, rfl, honce⟩ | ⟨hno, hquiet⟩
  · constructor
    · intro heq
      rw [← accepted_injective heq]
      exact honce.published
    · rintro ⟨t, ht, hpub⟩
      rw [honce.only t ht n hpub]
  · refine iff_of_false (hno n) ?_
    rintro ⟨t, ht, hpub⟩
    exact not_publishes n (hquiet t ht).sessions hpub

theorem Settled.quiet {turns : List Turn} {response : Response} (h : Settled turns response)
    (hno : ∀ n, response ≠ accepted n) : Quiet turns := by
  rcases h with ⟨n, heq, -⟩ | ⟨-, hquiet⟩
  · exact absurd heq (hno n)
  · exact hquiet

theorem Calls.publishes_eq {s : HttpState} {workers : List Worker} (h : Calls s workers) {n : Nat} {t t' : Turn}
    (ht : t ∈ s.turns) (ht' : t' ∈ s.turns) (hpub : Publishes n t.before t.after)
    (hpub' : Publishes n t'.before t'.after) : t' = t := by
  by_contra hne
  exact h.once.forall ht' ht hne n hpub' hpub

end

/-- **A failed search leaves no trace, and an accepted one is published whole**: as long as every search
can be published, in every state that the threads reach. -/
theorem search_answers (lib : Library) (settings : Settings) (p : HttpSystem)
    (h : Reaches (step lib settings) Publishable initial p) :
    (∀ call response, (call, response) ∈ p.shared.answers →
      (∀ n, response = accepted n ↔ ∃ t ∈ p.shared.turns, t.call = call ∧ Publishes n t.before t.after) ∧
      ((∀ n, response ≠ accepted n) → ∀ t ∈ p.shared.turns, t.call = call → Untouched t.before t.after)) ∧
    (∀ call call' n, (call, accepted n) ∈ p.shared.answers → (call', accepted n) ∈ p.shared.answers →
      call = call') ∧
    (∀ n, (p.shared.master.server.getStatus n).isSome → ∃ t ∈ p.shared.turns, Publishes n t.before t.after ∧
      ∀ t' ∈ p.shared.turns, Publishes n t'.before t'.after → t' = t) := by
  have hcalls := calls_accounted h
  have hiff : ∀ call response, (call, response) ∈ p.shared.answers → ∀ n, response = accepted n ↔
      ∃ t ∈ p.shared.turns, t.call = call ∧ Publishes n t.before t.after := by
    intro call response hanswer n
    rw [(hcalls.answers _ hanswer).accepted_iff n]
    simp only [mem_own, and_assoc]
  refine ⟨?_, ?_, ?_⟩
  · intro call response hanswer
    refine ⟨hiff call response hanswer, ?_⟩
    intro hno t ht hcall
    exact (hcalls.answers _ hanswer).quiet hno t ((mem_own _ _ _).mpr ⟨ht, hcall⟩)
  · intro call call' n hanswer hanswer'
    obtain ⟨t, ht, rfl, hpub⟩ := (hiff call _ hanswer n).mp rfl
    obtain ⟨t', ht', rfl, hpub'⟩ := (hiff call' _ hanswer' n).mp rfl
    rw [hcalls.publishes_eq ht ht' hpub hpub']
  · intro n hstatus
    unfold MasterServer.getStatus at hstatus
    rw [Option.isSome_map, AList.lookup_isSome] at hstatus
    have hmaster := forget_reaches lib settings (fun _ _ => Publishable.appends) h
    have hsearches := (sessionsInv hmaster).keys.mem_iff.mp (AList.mem_keys.mpr hstatus)
    obtain ⟨t, ht, hpub⟩ := (hcalls.searches n).mp hsearches
    exact ⟨t, ht, hpub, fun t' ht' hpub' => hcalls.publishes_eq ht ht' hpub hpub'⟩

def onePath : Bytes := ascii "\x7b\"path\":\"a.log\",\"keyword\":\"E\"\x7d"

/-- The parser on that body, and on bodies that are no JSON. -/
def smallLibrary : Library where
  parse content :=
    if content = onePath then
      .ok (.object [(ascii "keyword", .string (ascii "E")), (ascii "path", .string (ascii "a.log"))])
    else .error .json
  filesystemWhat := ascii "filesystem error"

/-- A search that is published and answered, and a request that is no JSON while it runs. -/
def twoPosts : List HttpEvent :=
  [.call (.postSearch onePath (oneFile twoChunkSize)), .run 0 {},
    .call (.postSearch (ascii "path") (oneFile twoChunkSize)), .run 0 {}, .run 0 {}]

def afterTwoPosts : HttpSystem := Runs.after (step smallLibrary {}) Publishable initial twoPosts

theorem search_answers_two_posts :
    (∃ t ∈ afterTwoPosts.shared.turns, t.call = 0 ∧ Publishes 0 t.before t.after) ∧
      ∀ t ∈ afterTwoPosts.shared.turns, t.call = 1 → Untouched t.before t.after := by
  obtain ⟨hanswers, -, -⟩ := search_answers smallLibrary {} afterTwoPosts
    (Runs.reaches_after twoPosts .start (by decide +kernel))
  have hposts : afterTwoPosts.shared.answers = [(0, accepted 0), (1, errorResponse .json)] := by decide +kernel
  rw [hposts] at hanswers
  refine ⟨((hanswers 0 (accepted 0) (by simp)).1 0).mp rfl, ?_⟩
  exact (hanswers 1 (errorResponse .json) (by simp)).2 (errorResponse_ne_accepted .json)

/-! ## A search with too many tasks -/

theorem readRequest_small (size : FileSize) :
    readRequest smallLibrary onePath (oneFile size) = .ok (searchRequest size) := by
  have hparse : smallLibrary.parse onePath =
      .ok (.object [(ascii "keyword", .string (ascii "E")), (ascii "path", .string (ascii "a.log"))]) := by
    unfold smallLibrary
    simp only [if_true]
  unfold readRequest
  rw [hparse]
  rfl

theorem lone_search (size : FileSize) (hsize : size.val ≠ 0) : ∃ (p : HttpSystem) (session : SearchSession),
    Reaches (step smallLibrary {}) Any initial p ∧ p.shared.answers = [(0, accepted 0)] ∧
      session.searchId = 0 ∧
      let allocated := ({} : MasterServer).allocateSearchId.2
      let searched := allocated.addPendingTasks session (fileTasks (ascii "E") 0 {} (smallTarget, size))
      p.shared.turns = [⟨0, searched, searched⟩, ⟨0, allocated, searched⟩, ⟨0, {}, allocated⟩] := by
  obtain ⟨session, hid, hprepare⟩ := prepareSearch_small size hsize
  have htarget : resolveTarget {} (searchRequest size) = .ok smallTarget := rfl
  generalize fileTasks (ascii "E") 0 {} (smallTarget, size) = newTasks at hprepare ⊢
  let search : Search := { request := searchRequest size, target := smallTarget, session, newTasks }
  let allocated := ({} : MasterServer).allocateSearchId.2
  let searched := allocated.addPendingTasks session newTasks
  let s₁ : HttpState := { master := { server := allocated }, calls := 1, turns := [⟨0, {}, allocated⟩] }
  let s₂ : HttpState := {
    master := { server := searched, history := { searches := [search] } }
    calls := 1
    turns := ⟨0, allocated, searched⟩ :: s₁.turns }
  let s₃ : HttpState := { s₂ with turns := ⟨0, searched, searched⟩ :: s₂.turns, answers := [(0, accepted 0)] }
  -- The call, and then its three sections.
  have hcall : step smallLibrary {} initial (.call (.postSearch onePath (oneFile size))) = some
      ⟨{ calls := 1 }, [.post 0 0 (.searchAllocate (searchRequest size) smallTarget)]⟩ := by
    simp only [Threads.step, start, readRequest_small, htarget]
    rfl
  have hallocate : turn smallLibrary {} {} { calls := 1 }
      (.post 0 0 (.searchAllocate (searchRequest size) smallTarget)) =
      some (s₁, some (.post 0 0 (.searchPublish search))) := by
    simp only [turn, postTurn, exec, MasterServer.allocateSearchId, hprepare, ownId, Option.map_some]
    rfl
  have hpublish : turn smallLibrary {} {} s₁ (.post 0 0 (.searchPublish search)) =
      some (s₂, some (.post 0 0 .assign)) := rfl
  have hassign : turn smallLibrary {} {} s₂ (.post 0 0 .assign) = some (s₃, none) := by
    have hpop : s₂.master.server.popIdleWorker = none := by
      generalize hr : s₂.master.server.popIdleWorker = r
      have hspec := hr ▸ s₂.master.server.popIdleWorker_spec
      cases hspec with
      | stop _ => rfl
      | skip client idleWorkers hidle _ => cases hidle
      | wake client idleWorkers threadsCount hidle _ => cases hidle
    simp only [turn, postTurn, exec, hpop, Option.map_some]
    rfl
  refine ⟨⟨s₃, []⟩, session, ?_, rfl, hid, rfl⟩
  exact (((Reaches.start.step _ trivial hcall).step _ trivial (Threads.step_single hallocate)).step _ trivial
    (Threads.step_single hpublish)).step _ trivial (Threads.step_single hassign)

/-- `2 ^ 31` chunks. -/
def hugeSize : FileSize := ⟨11258999068426240, by decide⟩

theorem hugeSize_tasks (keyword : Bytes) (searchId : Nat) (config : SearchConfig) (path : Bytes) :
    (fileTasks keyword searchId config (path, hugeSize)).length = 2 ^ 31 := by
  have hchunk : chunkSize.toNat = 5242880 := rfl
  have hhuge : hugeSize.val.toNat = 11258999068426240 := rfl
  rw [fileTasks_length, hchunk]
  simp only [hhuge]
  omega

/-- The search is accepted, and its session counts no task right. -/
theorem accepted_uncounted : ∃ p, Reaches (step smallLibrary {}) Any initial p ∧
    (0, accepted 0) ∈ p.shared.answers ∧
      ¬ ∃ t ∈ p.shared.turns, t.call = 0 ∧ Publishes 0 t.before t.after := by
  obtain ⟨p, session, hreach, hanswers, hid, hturns⟩ := lone_search hugeSize (by decide)
  refine ⟨p, hreach, by rw [hanswers]; exact List.mem_singleton_self _, ?_⟩
  rw [hturns]
  rintro ⟨t, ht, -, hpub⟩
  simp only [List.mem_cons, List.not_mem_nil, or_false] at ht
  rcases ht with rfl | rfl | rfl
  · exact not_publishes 0 rfl hpub
  · have htasks : ∀ task ∈ fileTasks (ascii "E") 0 {} (smallTarget, hugeSize), task.searchId = 0 := by
      intro task htask
      have hsame := (fileTasks_spec (ascii "E") 0 {} (smallTarget, hugeSize)).2 task htask
      exact congrArg TaskPayload.searchId hsame
    have hmany := hugeSize_tasks (ascii "E") 0 {} smallTarget
    have hfew := (publishes_addPendingTasks_iff _ 0 session _ hid (AList.notMem_empty _) htasks).mp hpub
    omega
  · have hsame : ({} : MasterServer).allocateSearchId.2.sessions = ({} : MasterServer).sessions := rfl
    exact not_publishes 0 hsame hpub

/-! ## An append that throws -/

/-- The session is seen from now on, none of its tasks is, and the answer is not its id. -/
theorem appendThrows_leaves (lib : Library) (s : HttpState) (call : Nat) (search : Search)
    (hnew : search.session.searchId ∉ s.master.server.sessions) :
    let s' := appendThrows lib s call search
    (call, errorResponse .other) ∈ s'.answers ∧ (s'.master.server.getStatus search.session.searchId).isSome ∧
      s'.master.server.pendingTasks = s.master.server.pendingTasks ∧
      ¬ ∀ t ∈ s'.turns, t.call = call → Untouched t.before t.after := by
  intro s'
  have hsession : search.session.searchId ∈ s'.master.server.sessions :=
    (AList.mem_insert _).mpr (Or.inl rfl)
  refine ⟨List.mem_cons_self, ?_, rfl, ?_⟩
  · unfold MasterServer.getStatus
    rwa [Option.isSome_map, AList.lookup_isSome]
  · intro huntouched
    have hsame := (huntouched _ List.mem_cons_self rfl).sessions
    exact hnew (hsame ▸ hsession)

def afterThrownAppend : HttpSystem := Runs.after (step smallLibrary {}) Any initial
  [.call (.postSearch onePath (oneFile oneChunkSize)), .run 0 {}, .run 0 { appends := false }]

/-- The search is refused, and `GetStatus` finds its session, which none of its tasks is left to finish. -/
theorem refused_with_session : Reaches (step smallLibrary {}) Any initial afterThrownAppend ∧
    afterThrownAppend.shared.answers = [(0, errorResponse .other)] ∧
    (afterThrownAppend.shared.master.server.getStatus 0).isSome ∧
    afterThrownAppend.shared.master.server.pendingTasks = [] ∧
    ¬ ∀ t ∈ afterThrownAppend.shared.turns, t.call = 0 → Untouched t.before t.after := by
  refine ⟨Runs.reaches_after _ .start (by decide +kernel), by decide +kernel, by decide +kernel, by decide +kernel, ?_⟩
  obtain ⟨t, ht, hcall, hbefore, hafter⟩ : ∃ t ∈ afterThrownAppend.shared.turns, t.call = 0 ∧
      (t.before.getStatus 0).isSome = false ∧ (t.after.getStatus 0).isSome = true := by decide +kernel
  intro huntouched
  unfold MasterServer.getStatus at hbefore hafter
  rw [(huntouched t ht hcall).sessions, hbefore] at hafter
  cases hafter

end Http

end LogGrid.Master
