import LogGrid.BatchCodec

/-!
# Reading a batch from an untrusted peer

`DeserializeBatch` takes the fixed fields with a check and the lines without
one. The reads stay inside the body exactly when the lines that the count
announces are there.
-/

open LogGrid.StandardLayout LogGrid.BatchCodec

namespace LogGrid.BatchBounds

def fieldsSize : Nat := 20

/-- Decoding throws or returns, and reads nothing outside the body. -/
def ReadsInside (msg : Message) : Prop :=
  match deserializeBatch msg with
  | .ok (_, reads) => ∀ i ∈ reads, i < msg.body.length
  | .error (.thrown _) => True
  | .error .outOfBounds => False

/-- `bytes` begin with this many lines, each behind its length. -/
def BeginsWithLines (count : Nat) (bytes : Bytes) : Prop :=
  ∃ lines : List Bytes, lines.length = count ∧ (∀ line ∈ lines, line.length < 2 ^ 32) ∧
    encodeLines lines <+: bytes

/-- The line count that the peer put in front of the other two fields. -/
def announced (body : Bytes) : UInt32 := ofBytes ((body.drop (body.length - fieldsSize)).take 4)

/-! ## The fixed fields -/

theorem popField_short {α : Type} [StandardLayout α] (msg : Message) (h : msg.body.length < byteSize α) :
    ∃ e, popField α msg = .error (.thrown e) := by
  unfold popField Message.pop
  rw [if_pos h]
  exact ⟨_, rfl⟩

theorem popField_long {α : Type} [StandardLayout α] (msg : Message) (h : byteSize α ≤ msg.body.length) :
    ∃ rest : Message, rest.body = msg.body.take (msg.body.length - byteSize α) ∧
      rest.body.length = msg.body.length - byteSize α ∧
      popField α msg = .ok (ofBytes (msg.body.drop (msg.body.length - byteSize α)), rest,
        List.range' (msg.body.length - byteSize α) (byteSize α)) := by
  unfold popField Message.pop
  rw [if_neg (Nat.not_lt.mpr h)]
  refine ⟨⟨{ msg.header with size := UInt32.ofNat (msg.body.take (msg.body.length - byteSize α)).length },
    msg.body.take (msg.body.length - byteSize α)⟩, rfl, ?_, ?_⟩ <;>
  · simp only [List.length_take]
    rw [Nat.min_eq_left (Nat.sub_le _ _)]

theorem deserializeBatch_short (msg : Message) (h : msg.body.length < fieldsSize) :
    ∃ e, deserializeBatch msg = .error (.thrown e) := by
  unfold fieldsSize at h
  unfold deserializeBatch
  by_cases h₁ : msg.body.length < byteSize UInt64
  · obtain ⟨e, he⟩ := popField_short msg h₁
    exact ⟨e, by simp only [he, bind, Except.bind]⟩
  obtain ⟨m₁, -, hlen₁, hpop₁⟩ := popField_long msg (Nat.not_lt.mp h₁)
  by_cases h₂ : m₁.body.length < byteSize UInt64
  · obtain ⟨e, he⟩ := popField_short m₁ h₂
    exact ⟨e, by simp only [hpop₁, he, bind, Except.bind]⟩
  obtain ⟨m₂, -, hlen₂, hpop₂⟩ := popField_long m₁ (Nat.not_lt.mp h₂)
  rw [byteSize_uint64] at h₁ h₂ hlen₁ hlen₂
  have h₃ : m₂.body.length < byteSize UInt32 := by rw [byteSize_uint32]; omega
  obtain ⟨e, he⟩ := popField_short m₂ h₃
  exact ⟨e, by simp only [hpop₁, hpop₂, he, bind, Except.bind]⟩

theorem deserializeBatch_long (msg : Message) (h : fieldsSize ≤ msg.body.length) :
    ∃ (batch : ChunkResult) (fields : List Nat), (∀ i ∈ fields, i < msg.body.length) ∧
      deserializeBatch msg =
        match readLines (msg.body.take (msg.body.length - fieldsSize)) (announced msg.body).toNat {} with
        | .error e => .error e
        | .ok r => .ok ({ batch with lines := r.lines }, r.reads ++ fields) := by
  unfold announced
  unfold fieldsSize at h ⊢
  obtain ⟨m₁, hm₁, hlen₁, hpop₁⟩ := popField_long (α := UInt64) msg (by rw [byteSize_uint64]; omega)
  rw [byteSize_uint64] at hm₁ hlen₁ hpop₁
  obtain ⟨m₂, hm₂, hlen₂, hpop₂⟩ := popField_long (α := UInt64) m₁ (by rw [byteSize_uint64]; omega)
  rw [byteSize_uint64] at hm₂ hlen₂ hpop₂
  obtain ⟨m₃, hm₃, -, hpop₃⟩ := popField_long (α := UInt32) m₂ (by rw [byteSize_uint32]; omega)
  rw [byteSize_uint32] at hm₃ hpop₃
  have hfront : m₂.body = msg.body.take (msg.body.length - 16) := by
    rw [hm₂, hlen₁, hm₁, List.take_take]
    congr 1
    omega
  have hlines : m₃.body = msg.body.take (msg.body.length - 20) := by
    rw [hm₃, hlen₂, hlen₁, hfront, List.take_take]
    congr 1
    omega
  have hcount : m₂.body.drop (m₂.body.length - 4) = (msg.body.drop (msg.body.length - 20)).take 4 := by
    rw [hlen₂, hlen₁, hfront, List.drop_take]
    congr 1
    omega
  refine ⟨{
    searchId := ofBytes (msg.body.drop (msg.body.length - 8))
    totalMatches := ofBytes (m₁.body.drop (m₁.body.length - 8))
    linesFound := ofBytes (m₂.body.drop (m₂.body.length - 4)) },
    List.range' (m₂.body.length - 4) 4 ++ List.range' (m₁.body.length - 8) 8 ++
      List.range' (msg.body.length - 8) 8, ?_, ?_⟩
  · intro i hi
    simp only [List.mem_append, List.mem_range'_1] at hi
    omega
  · simp only [deserializeBatch, hpop₁, hpop₂, hpop₃, bind, Except.bind, pure, Except.pure, hcount, hlines]
    cases readLines (msg.body.take (msg.body.length - 20))
      (ofBytes ((msg.body.drop (msg.body.length - 20)).take 4) : UInt32).toNat {} with
    | error e => rfl
    | ok r => simp only [List.append_assoc]

/-! ## The lines -/

theorem announced_bytes (bytes : Bytes) (h : bytes.length = 4) : toBytes (ofBytes bytes : UInt32) = bytes := by
  have hlt : LittleEndian.decode bytes < 2 ^ 32 := by simpa [h] using LittleEndian.decode_lt bytes
  have hround := LittleEndian.encode_decode bytes
  rw [h] at hround
  show LittleEndian.encode 4 (UInt32.ofNat (LittleEndian.decode bytes)).toNat = bytes
  rw [UInt32.toNat_ofNat', Nat.mod_eq_of_lt hlt, hround]

theorem readLine_ok (body : Bytes) (r r' : LineReader) (h : readLine body r = .ok r') :
    ∃ line : Bytes, line.length < 2 ^ 32 ∧ body.drop r.offset = encodeLine line ++ body.drop r'.offset := by
  unfold readLine at h
  split at h
  · cases h
  · rename_i hlen
    simp only at h
    split at h
    · cases h
    · rename_i hline
      cases h
      generalize hn : (ofBytes ((body.drop r.offset).take 4) : UInt32) = len at hline ⊢
      have hlt := len.toNat_lt
      have hcount : ((body.drop (r.offset + 4)).take len.toNat).length = len.toNat := by
        rw [List.length_take, List.length_drop]
        omega
      refine ⟨(body.drop (r.offset + 4)).take len.toNat, by rw [hcount]; exact hlt, ?_⟩
      have hprefix : (body.drop r.offset).take 4 = toBytes len := by
        rw [← hn, announced_bytes]
        rw [List.length_take, List.length_drop]
        omega
      rw [encodeLine, hcount, UInt32.ofNat_toNat, ← hprefix, List.append_assoc]
      simp only
      rw [← List.drop_drop (j := r.offset + 4), List.take_append_drop, ← List.drop_drop (j := r.offset),
        List.take_append_drop]

theorem readLine_error (body : Bytes) (r : LineReader) (e : Fault) (h : readLine body r = .error e) :
    e = .outOfBounds := by
  unfold readLine at h
  split at h
  · cases h; rfl
  · simp only at h
    split at h <;> cases h
    rfl

theorem readLine_reads (body : Bytes) (r r' : LineReader) (h : readLine body r = .ok r')
    (hreads : ∀ i ∈ r.reads, i < body.length) : ∀ i ∈ r'.reads, i < body.length := by
  unfold readLine at h
  split at h
  · cases h
  · simp only at h
    split at h
    · cases h
    · cases h
      intro i hi
      rcases List.mem_append.mp hi with hi | hi
      · exact hreads i hi
      · rw [List.mem_range'_1] at hi
        omega

/-- **The loop stays inside the body exactly when the lines are there.** -/
theorem readLines_ok_iff (body : Bytes) (count : Nat) (r : LineReader) :
    (∃ r', readLines body count r = .ok r') ↔ BeginsWithLines count (body.drop r.offset) := by
  induction count generalizing r with
  | zero =>
    constructor
    · intro _
      exact ⟨[], rfl, by simp, by simp [encodeLines]⟩
    · intro _
      exact ⟨r, rfl⟩
  | succ count ih =>
    constructor
    · rintro ⟨r', h⟩
      unfold readLines at h
      split at h
      · cases h
      · rename_i r₁ hfirst
        obtain ⟨line, hlt, hline⟩ := readLine_ok body r r₁ hfirst
        obtain ⟨lines, hcount, hall, hrest⟩ := (ih r₁).mp ⟨r', h⟩
        refine ⟨line :: lines, by rw [List.length_cons, hcount], ?_, ?_⟩
        · exact List.forall_mem_cons.mpr ⟨hlt, hall⟩
        · rw [hline, encodeLines_eq, List.flatMap_cons, ← encodeLines_eq]
          exact List.prefix_append_right_inj _ |>.mpr hrest
    · rintro ⟨lines, hcount, hall, hrest⟩
      obtain ⟨line, lines, rfl⟩ := List.exists_cons_of_length_eq_add_one hcount
      obtain ⟨hlt, hall⟩ := List.forall_mem_cons.mp hall
      rw [encodeLines_eq, List.flatMap_cons, ← encodeLines_eq] at hrest
      obtain ⟨tail, htail⟩ := hrest
      rw [List.append_assoc] at htail
      have hfirst := readLine_encoded body r line _ hlt htail.symm
      unfold readLines
      rw [hfirst]
      apply (ih _).mpr
      refine ⟨lines, by simpa using hcount, hall, ?_⟩
      simp only
      rw [← List.drop_drop, ← htail, List.drop_left]
      exact List.prefix_append _ _

theorem readLines_error (body : Bytes) (count : Nat) (r : LineReader) (e : Fault)
    (h : readLines body count r = .error e) : e = .outOfBounds := by
  induction count generalizing r with
  | zero => cases h
  | succ count ih =>
    unfold readLines at h
    split at h
    · rename_i e' hfirst
      cases h
      exact readLine_error body r _ hfirst
    · exact ih _ h

theorem readLines_reads (body : Bytes) (count : Nat) (r r' : LineReader) (h : readLines body count r = .ok r')
    (hreads : ∀ i ∈ r.reads, i < body.length) : ∀ i ∈ r'.reads, i < body.length := by
  induction count generalizing r with
  | zero => cases h; exact hreads
  | succ count ih =>
    unfold readLines at h
    split at h
    · cases h
    · rename_i r₁ hfirst
      exact ih r₁ h (readLine_reads body r r₁ hfirst hreads)

/-! ## The result -/

/-- **Decoding stays in bounds** exactly when the body is too short for its fields, which throws, or the
bytes in front of them begin with as many lines as announced. -/
theorem reads_inside_iff (msg : Message) :
    ReadsInside msg ↔ msg.body.length < fieldsSize ∨
      BeginsWithLines (announced msg.body).toNat (msg.body.take (msg.body.length - fieldsSize)) := by
  unfold ReadsInside
  rcases Nat.lt_or_ge msg.body.length fieldsSize with hshort | hlong
  · obtain ⟨e, he⟩ := deserializeBatch_short msg hshort
    rw [he]
    exact iff_of_true trivial (Or.inl hshort)
  · obtain ⟨batch, fields, hfields, hdecode⟩ := deserializeBatch_long msg hlong
    have hiff := readLines_ok_iff (msg.body.take (msg.body.length - fieldsSize)) (announced msg.body).toNat {}
    rw [List.drop_zero] at hiff
    rw [hdecode]
    cases hlines : readLines (msg.body.take (msg.body.length - fieldsSize)) (announced msg.body).toNat {} with
    | error e =>
      have hno : ¬ BeginsWithLines (announced msg.body).toNat (msg.body.take (msg.body.length - fieldsSize)) := by
        rw [← hiff, hlines]
        rintro ⟨r', hr'⟩
        cases hr'
      rw [readLines_error _ _ _ e hlines]
      exact iff_of_false id (not_or.mpr ⟨Nat.not_lt.mpr hlong, hno⟩)
    | ok r =>
      refine iff_of_true ?_ (Or.inr (hiff.mp ⟨r, hlines⟩))
      intro i hi
      rcases List.mem_append.mp hi with hi | hi
      · have hread := readLines_reads _ _ _ r hlines (by simp) i hi
        rw [List.length_take] at hread
        omega
      · exact hfields i hi

/-- One line announced, and no byte of it in the body. -/
theorem reads_outside : ¬ ReadsInside { body := [1, 0, 0, 0] ++ List.replicate 16 0 } := by
  have hfault : deserializeBatch { body := [1, 0, 0, 0] ++ List.replicate 16 0 } = .error .outOfBounds := rfl
  unfold ReadsInside
  rw [hfault]
  exact id

end LogGrid.BatchBounds
