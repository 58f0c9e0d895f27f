import LogGrid.Base.Stoull
import LogGrid.Master.SearchController

/-!
# `SearchController::HandleGetSearch`

The id in the path goes through `std::stoull`, which reads the number that a
text begins with. What is behind the number, blanks and signs go unnoticed.
-/

open LogGrid.Stoull

namespace LogGrid.Master

/-! ## The answer -/

/-- `response.dump()`, which sorts the keys. -/
def statusJson (searchId : Nat) (session : SearchStatus) : Bytes :=
  ascii "\x7b\"chunksDone\":" ++ formatInt session.chunksDone.toInt ++
  ascii ",\"chunksTotal\":" ++ formatInt session.chunksTotal.toInt ++
  ascii ",\"linesCount\":" ++ decimal session.linesFound.toNat ++
  ascii ",\"scanErrors\":" ++ decimal session.scanErrors.toNat ++
  ascii ",\"searchId\":" ++ decimal searchId ++
  ascii ",\"state\":\"" ++ ascii (if session.state = .running then "Running" else "Done") ++
  ascii "\",\"totalMatches\":" ++ decimal session.totalMatches.toNat ++ ascii "\x7d"

def statusResponse (searchId : Nat) (session : SearchStatus) : Response where
  status := 200
  contentType := ascii "application/json"
  content := statusJson searchId session

/-- The three `catch` clauses. -/
def statusError : Thrown → Response
  | .json => { status := 400, contentType := ascii "text/plain", content := ascii "Bad Request" }
  | .runtimeError what => { status := 404, contentType := ascii "text/plain", content := what }
  | .other => { status := 400, contentType := ascii "text/plain", content := ascii "Bad Request" }

/-- The `try` block. What `std::stoull` throws is neither of the first two. -/
def readStatus (m : MasterServer) (id : Bytes) : Except Thrown Response := do
  let sessionId ← (stoull id).mapError fun _ => Thrown.other
  match m.getStatus sessionId.toNat with
  | some session => return statusResponse sessionId.toNat session
  | none => throw (.runtimeError (ascii "Session Not Found"))

def handleGetSearch (m : MasterServer) (id : Bytes) : Response :=
  match readStatus m id with
  | .ok response => response
  | .error e => statusError e

/-! ## What an answer says -/

theorem comma_notMem_decimal (n : Nat) : ch ',' ∉ decimal n := by
  intro h
  exact absurd (decimal_digit n _ h) (by decide)

theorem comma_notMem_formatInt (n : Int) : ch ',' ∉ formatInt n := by
  intro h
  exact absurd (formatInt_byte n _ h) (by decide)

theorem field_inj (separator : UInt8) {field field' rest rest' : Bytes} (hfield : separator ∉ field)
    (hfield' : separator ∉ field') (h : field ++ separator :: rest = field' ++ separator :: rest') :
    field = field' ∧ rest = rest' := by
  have hinside : ∀ {field : Bytes}, separator ∉ field → ∀ b ∈ field, (decide (b ≠ separator)) = true := by
    intro field hnot b hb
    exact decide_eq_true fun heq => hnot (heq ▸ hb)
  have hstop : ∀ rest : Bytes, ∀ b ∈ (separator :: rest).head?, (decide (b ≠ separator)) = false := by
    rintro rest _ ⟨⟩
    exact decide_eq_false fun hne => hne rfl
  have hsame : field = field' := by
    rw [← takeWhile_stop (hinside hfield) (hstop rest), h, takeWhile_stop (hinside hfield') (hstop rest')]
  subst hsame
  exact ⟨rfl, (List.cons.inj (List.append_cancel_left h)).2⟩

theorem stateText_injective {state state' : SearchState}
    (h : ascii (if state = .running then "Running" else "Done") =
      ascii (if state' = .running then "Running" else "Done")) : state = state' := by
  cases state <;> cases state' <;> first | rfl | exact absurd h (by decide)

theorem statusJson_injective {k k' : Nat} {session session' : SearchStatus}
    (h : statusJson k session = statusJson k' session') : k = k' ∧ session = session' := by
  have hnumber : ∀ n, ch ',' ∉ decimal n := comma_notMem_decimal
  have hint : ∀ n, ch ',' ∉ formatInt n := comma_notMem_formatInt
  have hstate : ∀ state : SearchState, ch '"' ∉ ascii (if state = .running then "Running" else "Done") := by
    intro state
    cases state <;> decide
  unfold statusJson at h
  rw [show ascii ",\"chunksTotal\":" = ch ',' :: ascii "\"chunksTotal\":" from rfl,
    show ascii ",\"linesCount\":" = ch ',' :: ascii "\"linesCount\":" from rfl,
    show ascii ",\"scanErrors\":" = ch ',' :: ascii "\"scanErrors\":" from rfl,
    show ascii ",\"searchId\":" = ch ',' :: ascii "\"searchId\":" from rfl,
    show ascii ",\"state\":\"" = ch ',' :: ascii "\"state\":\"" from rfl,
    show ascii "\",\"totalMatches\":" = ch '"' :: ascii ",\"totalMatches\":" from rfl] at h
  simp only [List.append_assoc, List.cons_append, List.append_cancel_left_eq] at h
  -- Field by field, from the front.
  obtain ⟨hchunksDone, h⟩ := field_inj _ (hint _) (hint _) h
  obtain ⟨hchunksTotal, h⟩ := field_inj _ (hint _) (hint _) (List.append_cancel_left h)
  obtain ⟨hlinesFound, h⟩ := field_inj _ (hnumber _) (hnumber _) (List.append_cancel_left h)
  obtain ⟨hscanErrors, h⟩ := field_inj _ (hnumber _) (hnumber _) (List.append_cancel_left h)
  obtain ⟨hsearchId, h⟩ := field_inj _ (hnumber _) (hnumber _) (List.append_cancel_left h)
  obtain ⟨hstates, h⟩ := field_inj _ (hstate _) (hstate _) (List.append_cancel_left h)
  have htotalMatches := List.append_cancel_right (List.append_cancel_left h)
  refine ⟨decimal_injective hsearchId, ?_⟩
  cases session
  cases session'
  rw [SearchStatus.mk.injEq]
  exact ⟨stateText_injective hstates, UInt64.toNat_inj.mp (decimal_injective hlinesFound),
    UInt64.toNat_inj.mp (decimal_injective htotalMatches), UInt64.toNat_inj.mp (decimal_injective hscanErrors),
    Int32.toInt_inj.mp (formatInt_injective hchunksDone), Int32.toInt_inj.mp (formatInt_injective hchunksTotal)⟩

/-! ## Which ids are answered -/

/-- The answer for this id is the status of the session that the id denotes, or says that there is none. -/
structure LooksUp (m : MasterServer) (id : Bytes) : Prop where
  found : ∀ k session, handleGetSearch m id = statusResponse k session ↔
    Numeral id k ∧ k < 2 ^ 64 ∧ m.getStatus k = some session
  missing : ∀ k, Numeral id k → k < 2 ^ 64 → m.getStatus k = none → (handleGetSearch m id).status = 404
  refused : (∀ k, Numeral id k → 2 ^ 64 ≤ k) → (handleGetSearch m id).status ≠ 200

/-- The three ways a lookup goes. -/
inductive Looked (m : MasterServer) (id : Bytes) : Response → Prop
  | refused (h : ∀ k, ¬ ReadsAs id k) : Looked m id (statusError .other)
  | missing (k : Nat) (h : ReadsAs id k) (hnone : m.getStatus k = none) :
      Looked m id (statusError (.runtimeError (ascii "Session Not Found")))
  | found (k : Nat) (session : SearchStatus) (h : ReadsAs id k) (hsome : m.getStatus k = some session) :
      Looked m id (statusResponse k session)

theorem handleGetSearch_spec (m : MasterServer) (id : Bytes) : Looked m id (handleGetSearch m id) := by
  unfold handleGetSearch readStatus
  cases hread : stoull id with
  | error e =>
    refine .refused fun k hk => ?_
    obtain ⟨n, hn, -⟩ := (readsAs_iff id k).mp hk
    rw [hread] at hn
    cases hn
  | ok n =>
    have hreads := (stoull_ok_iff id n).mp hread
    cases hstatus : m.getStatus n.toNat with
    | none =>
      simp only [Except.mapError, bind, Except.bind, hstatus]
      exact .missing n.toNat hreads hstatus
    | some session =>
      simp only [Except.mapError, bind, Except.bind, hstatus]
      exact .found n.toNat session hreads hstatus

theorem readsAs_unique {id : Bytes} {k k' : Nat} (h : ReadsAs id k) (h' : ReadsAs id k') : k = k' := by
  obtain ⟨n, hn, rfl⟩ := (readsAs_iff id k).mp h
  obtain ⟨n', hn', rfl⟩ := (readsAs_iff id k').mp h'
  rw [hn, Except.ok.injEq] at hn'
  rw [hn']

/-- **Status lookup.** The answer is right for every numeral that fits in 64 bits, and for another text
exactly when no session has the number that the text begins with. -/
theorem status_lookup_iff (m : MasterServer) (id : Bytes) :
    LooksUp m id ↔ (∃ k < 2 ^ 64, Numeral id k) ∨ ∀ k, ReadsAs id k → m.getStatus k = none := by
  have hspec := handleGetSearch_spec m id
  generalize hanswer : handleGetSearch m id = answer at hspec
  have hstatus : ∀ k session, (statusResponse k session).status = 200 := fun _ _ => rfl
  cases hspec with
  | refused hnone =>
    refine iff_of_true ⟨?_, ?_, ?_⟩ (Or.inr fun k hk => absurd hk (hnone k))
    · intro k session
      rw [hanswer]
      refine iff_of_false (fun heq => ?_) fun hnumeral => hnone k (hnumeral.1.readsAs hnumeral.2.1)
      cases congrArg Response.status heq
    · exact fun k hnumeral hk => absurd (hnumeral.readsAs hk) (hnone k)
    · intro _
      rw [hanswer]
      decide
  | missing k hreads hnone =>
    have hall : ∀ k', ReadsAs id k' → m.getStatus k' = none := by
      intro k' hreads'
      rw [readsAs_unique hreads' hreads]
      exact hnone
    refine iff_of_true ⟨?_, ?_, ?_⟩ (Or.inr hall)
    · intro k' session
      rw [hanswer]
      refine iff_of_false (fun heq => ?_) fun ⟨hnumeral, hk', hsome⟩ => ?_
      · cases congrArg Response.status heq
      · rw [hall k' (hnumeral.readsAs hk')] at hsome
        cases hsome
    · intro _ _ _ _
      rw [hanswer]
      rfl
    · intro _
      rw [hanswer]
      decide
  | found k session hreads hsome =>
    constructor
    · intro hlooks
      obtain ⟨hnumeral, hk, -⟩ := (hlooks.found k session).mp hanswer
      exact Or.inl ⟨k, hk, hnumeral⟩
    · rintro (⟨k', hk', hnumeral⟩ | hnone)
      · obtain rfl := readsAs_unique (hnumeral.readsAs hk') hreads
        refine ⟨?_, ?_, ?_⟩
        · intro k session'
          rw [hanswer]
          constructor
          · intro heq
            obtain ⟨rfl, rfl⟩ := statusJson_injective (congrArg Response.content heq)
            exact ⟨hnumeral, hk', hsome⟩
          · rintro ⟨hnumeral', hk, hsome'⟩
            obtain rfl := readsAs_unique (hnumeral'.readsAs hk) hreads
            rw [hsome, Option.some.injEq] at hsome'
            rw [hsome']
        · intro k hnumeral' hk hnone
          rw [readsAs_unique (hnumeral'.readsAs hk) hreads, hsome] at hnone
          cases hnone
        · intro hlarge
          exact absurd hk' (Nat.not_lt_of_le (hlarge k' hnumeral))
      · rw [hnone k hreads] at hsome
        cases hsome

/-- Session 0, asked for by a text that is no number. -/
theorem status_lookup_suffix : Reachable {} afterTwoChunks ∧
    (handleGetSearch afterTwoChunks.shared.server (ascii "0abc")).status = 200 ∧
    ¬ LooksUp afterTwoChunks.shared.server (ascii "0abc") := by
  have hanswer : (handleGetSearch afterTwoChunks.shared.server (ascii "0abc")).status = 200 := by decide +kernel
  refine ⟨afterTwoChunks_reachable, hanswer, fun hlooks => ?_⟩
  refine hlooks.refused (fun k hnumeral => ?_) hanswer
  have hletter := hnumeral.2.1 (ch 'a') (by decide)
  cases hletter

end LogGrid.Master
