import LogGrid.Net.Link

/-!
# The backlog of a link

A message takes two writes at one end and two reads at the other. As long as
nothing fails, every completion leaves less to do.
-/

open LogGrid.StandardLayout

namespace LogGrid.Net.Link

open Connection Framing

/-- The writes that are still to complete. -/
def writesLeft (c : Connection) : Nat := 2 * c.messagesOut.length - if c.writing = some .body then 1 else 0

/-- What is still to be read. A message counts `weight`, and one less when its header is there. -/
def readsLeft (weight : Nat) (sent delivered : List Message) (c : Connection) : Nat :=
  weight * (sent.length - delivered.length) - if c.reading = some .body then 1 else 0

section

variable {sent delivered : List Message} {c c' : Connection}

/-! ## Writing -/

theorem writesLeft_congr (hqueue : c'.messagesOut = c.messagesOut) (hwriting : c'.writing = c.writing) :
    writesLeft c' = writesLeft c := by
  rw [writesLeft, hqueue, hwriting, writesLeft]

theorem writesLeft_send (c : Connection) (msg : Message) : writesLeft (c.send msg) ≤ writesLeft c + 2 := by
  unfold send writesLeft
  cases hqueue : c.messagesOut with
  | nil => simp [writeHeader]
  | cons front rest =>
    simp only [List.isEmpty_cons, Bool.not_false, Bool.not_true, Bool.false_eq_true, if_false, List.length_append,
      List.length_cons, List.length_nil]
    omega

theorem writesLeft_popFront (c : Connection) : writesLeft c.popFront = 2 * c.messagesOut.tail.length := by
  unfold popFront writesLeft
  cases hqueue : c.messagesOut.tail with
  | nil => simp
  | cons front rest => simp [writeHeader]

theorem Pumps.writesLeft_lt (h : Pumps sent c) (hstep : writerStep c (.wrote true) = some c') :
    writesLeft c' < writesLeft c := by
  obtain ⟨done, -, hinv⟩ := h
  unfold WriterInv at hinv
  split at hinv
  · rename_i hnone _
    simp [writerStep, hnone] at hstep
  · rename_i msg rest hheader hqueue
    simp only [writerStep, hheader, onWriteHeader, hqueue, if_true, Option.some.injEq] at hstep
    subst hstep
    split
    · simp [writesLeft, writeBody, hqueue, hheader]
    · rw [writesLeft_popFront]
      simp [writesLeft, hqueue, hheader]
  · rename_i msg rest hbody hqueue
    simp only [writerStep, hbody, onWriteBody, if_true, Option.some.injEq] at hstep
    subst hstep
    rw [writesLeft_popFront]
    simp only [writesLeft, hqueue, hbody, if_true, List.tail_cons, List.length_cons]
    omega
  · exact absurd hinv id

theorem Writes.writesLeft_lt (h : Writes sent c) (hstep : writerStep c (.wrote true) = some c') :
    writesLeft c' < writesLeft c := by
  rcases h with hpumps | ⟨hidle, -⟩
  · exact hpumps.writesLeft_lt hstep
  · simp [writerStep, hidle] at hstep

/-! ## Reading -/

theorem readsLeft_congr (sent delivered : List Message) (weight : Nat) (hreading : c'.reading = c.reading) :
    readsLeft weight sent delivered c' = readsLeft weight sent delivered c := by
  rw [readsLeft, hreading, readsLeft]

theorem readsLeft_send (sent delivered : List Message) (c : Connection) (weight : Nat) (msg : Message) :
    readsLeft weight (sent ++ [msg]) delivered c ≤ readsLeft weight sent delivered c + weight := by
  unfold readsLeft
  rw [List.length_append, List.length_singleton]
  have hmore : weight * (sent.length + 1 - delivered.length) ≤ weight * (sent.length - delivered.length + 1) :=
    Nat.mul_le_mul_left _ (by omega)
  rw [Nat.mul_succ] at hmore
  omega

theorem Receives.lt_of_body {consumed : Nat} (h : Receives sent delivered consumed c)
    (hreading : c.reading = some .body) : delivered.length < sent.length := by
  obtain ⟨rest, rfl, hreads⟩ := h
  cases hreads with
  | header _ hheader _ => rw [hheader] at hreading; cases hreading
  | body msg rest _ _ _ _ => simp
  | ended _ hended => rw [hended] at hreading; cases hreading

theorem readsLeft_lt (weight : Nat) {consumed : Nat} {bytes : Bytes} {owner : Owner} {part : Part}
    (hpart : c.reading = some part) (h : Receives sent (delivered ++ (c.onRead owner true bytes part).2.toList) consumed
      (c.onRead owner true bytes part).1) (hweight : 0 < weight) :
    ((c.onRead owner true bytes part).2 = none →
      readsLeft weight sent delivered (c.onRead owner true bytes part).1 < readsLeft weight sent delivered c) ∧
    ∀ msg, (c.onRead owner true bytes part).2 = some msg →
      readsLeft weight sent (delivered ++ [msg]) (c.onRead owner true bytes part).1 + weight ≤
        readsLeft weight sent delivered c + 1 := by
  have hhanded : ∀ msg, (c.onRead owner true bytes part).2 = some msg →
      (c.onRead owner true bytes part).1.reading ≠ some .body →
      readsLeft weight sent (delivered ++ [msg]) (c.onRead owner true bytes part).1 + weight ≤
        readsLeft weight sent delivered c + 1 := by
    intro msg hmsg hreading
    obtain ⟨rest, hsent, -⟩ := h
    have hlength := congrArg List.length hsent
    simp only [hmsg, Option.toList_some, List.length_append, List.length_singleton] at hlength
    unfold readsLeft
    rw [if_neg hreading, List.length_append, List.length_singleton]
    have hone : sent.length - delivered.length = sent.length - (delivered.length + 1) + 1 := by omega
    rw [hone, Nat.mul_succ]
    split <;> omega
  cases part with
  | body =>
    refine ⟨fun hnone => ?_, fun msg hmsg => hhanded msg hmsg ?_⟩
    · simp [onRead, onReadBody, addToIncomingMessageQueue] at hnone
    · simp [onRead, onReadBody, addToIncomingMessageQueue, readHeader]
  | header =>
    simp only [onRead, onReadHeader, if_true] at h hhanded ⊢
    split at h
    · rename_i hsize
      simp only [if_pos hsize, Option.toList_none, List.append_nil] at h hhanded ⊢
      refine ⟨fun _ => ?_, fun msg hmsg => by cases hmsg⟩
      have hlt := h.lt_of_body rfl
      have hpos := Nat.mul_pos hweight (Nat.sub_pos_of_lt hlt)
      unfold readsLeft readBody
      rw [hpart, if_pos rfl, if_neg (by simp)]
      omega
    · rename_i hsize
      simp only [if_neg hsize] at hhanded ⊢
      refine ⟨fun hnone => ?_, fun msg hmsg => hhanded msg hmsg ?_⟩
      · simp [addToIncomingMessageQueue] at hnone
      · simp [addToIncomingMessageQueue, readHeader]

end

end LogGrid.Net.Link
