import GrahaOS.TxnNesting

/-!
# A refused send inside nested transactions

The prologue of `chan_send` appends a message to one buffer after the other, from the innermost
transaction outward, and returns the error of the first append that fails. The buffers before it
keep the message.
-/

namespace GrahaOS.RefusedSends

open Channels Transactions TxnNesting List

/-- The call returns an error, or it waits and may return one later. -/
def MayFail (outcome : Outcome) : Prop := outcome = .blocks ∨ ∃ rc < 0, outcome = .code rc

/-- The buffer of a transaction takes one more message; a buffer that does not exist yet is
taken from `vmo_create`. -/
def HasRoom (vmo : ℕ → Bool) (t : Txn) : Prop :=
  if t.bufferVmo.isSome then t.bufferVmoHead + entrySize channelMsgBytes ≤ t.bufferVmoCapacity
  else vmo t.id = true

/-- The transactions that buffer a send on the channel, innermost first. -/
def buffering (w : TxnWorld) (chanId : ℕ) : List Txn :=
  w.stack.filter (txnIsExternalPeer (w.holders chanId) · w.pid)

/-- The buffers all have room, or the first of them has none. -/
def AllOrNone (vmo : ℕ → Bool) (ts : List Txn) : Prop :=
  (∀ t ∈ ts, HasRoom vmo t) ∨ ∀ t ∈ ts.head?, ¬HasRoom vmo t

/-- What the buffers of the open transactions hold, innermost first. -/
def contents (w : TxnWorld) : List (List (ℕ × ChannelMsg)) := w.stack.map bufferedMsgs

section Walk

variable (external : Txn → Bool) (chanId : ℕ) (msg : ChannelMsg) (vmo : ℕ → Bool)

lemma append_fails_iff (t : Txn) :
    (txnBufferAppend t chanId msg 0#32 (vmo t.id)).1 < 0 ↔ ¬HasRoom vmo t := by
  unfold txnBufferAppend txnBufferLazyAlloc HasRoom
  by_cases hsome : t.bufferVmo.isSome
  · by_cases hfull : t.bufferVmoCapacity < t.bufferVmoHead + entrySize channelMsgBytes
    · simp [hsome, hfull, enospc]
    · simp [hsome, hfull, not_lt.mp hfull]
  cases hvmo : vmo t.id with
  | false => simp [hsome, txnEnomem]
  | true =>
    -- a new buffer has at least one page
    have hroom : entrySize channelMsgBytes ≤ ((if t.bufferVmoCapacity = 0 then
        txnDefaultBufferBytes else t.bufferVmoCapacity) + 4095) / 4096 * 4096 := by
      unfold entrySize channelMsgBytes txnDefaultBufferBytes
      split_ifs <;> omega
    simp [hsome, not_lt.mpr hroom]

/-- The route is an error exactly if a buffer that the send reaches has no room. -/
lemma route_walk (stack : List Txn) :
    (∃ rc < 0, txnRoute (txnWalk external chanId msg vmo stack).1 = .error rc) ∧
        (∃ t ∈ stack.filter external, ¬HasRoom vmo t) ∨
      txnRoute (txnWalk external chanId msg vmo stack).1 = .ok (!(stack.filter external).isEmpty) ∧
        ∀ t ∈ stack.filter external, HasRoom vmo t := by
  induction stack with
  | nil => exact .inr ⟨rfl, fun _ ht => absurd ht not_mem_nil⟩
  | cons t outer ih =>
  by_cases hext : external t = true
  · rw [filter_cons_of_pos hext, txnWalk, if_pos hext]
    by_cases hneg : (txnBufferAppend t chanId msg 0#32 (vmo t.id)).1 < 0
    · rw [if_pos hneg]
      exact .inl ⟨⟨_, hneg, rfl⟩, t, mem_cons_self, (append_fails_iff _ _ _ t).mp hneg⟩
    have hroom : HasRoom vmo t := not_not.mp (hneg ∘ (append_fails_iff _ _ _ t).mpr)
    rw [if_neg hneg]
    rcases ih with ⟨⟨rc, hrc, hroute⟩, u, hu, hnone⟩ | ⟨hroute, hall⟩
    · exact .inl ⟨⟨rc, hrc, by simp [txnRoute, hroute, Except.map]⟩, u, mem_cons_of_mem t hu, hnone⟩
    · refine .inr ⟨by simp [txnRoute, hroute, Except.map], fun u hu => ?_⟩
      rcases mem_cons.mp hu with rfl | hu
      · exact hroom
      · exact hall u hu
  · rw [filter_cons_of_neg hext, txnWalk, if_neg hext]
    exact ih

/-- The walk leaves what the buffers hold alone exactly if the first one that it reaches has no
room. -/
lemma contents_walk {stack : List Txn} (hbuffers : ∀ t ∈ stack, ∃ msgs, Holds t msgs) :
    (txnWalk external chanId msg vmo stack).2.map bufferedMsgs = stack.map bufferedMsgs ↔
      ∀ t ∈ (stack.filter external).head?, ¬HasRoom vmo t := by
  induction stack with
  | nil => simp [txnWalk]
  | cons t outer ih =>
  have ih := ih fun u hu => hbuffers u (mem_cons_of_mem t hu)
  obtain ⟨msgs, hholds⟩ := hbuffers t mem_cons_self
  by_cases hext : external t = true
  · rw [filter_cons_of_pos hext, txnWalk, if_pos hext, head?_cons]
    simp only [Option.mem_some_iff, forall_eq', ← append_fails_iff chanId msg vmo]
    rcases holds_append hholds chanId msg 0#32 (vmo t.id) with ⟨hneg, hkept⟩ | ⟨hzero, hmore⟩
    · simp [hneg, bufferedMsgs_eq hholds, bufferedMsgs_eq hkept]
    · simp [hzero, bufferedMsgs_eq hholds, bufferedMsgs_eq hmore]
  · rw [filter_cons_of_neg hext, txnWalk, if_neg hext, ← ih]
    simp

end Walk

/-- A send that fails, at once or after it has waited, leaves what the buffers hold alone exactly
if it does not come to the walk over the transactions, or every buffer that it reaches has room,
or the first one has none. -/
theorem refused_send_is_not_buffered {w : TxnWorld} {chanId : ℕ} {msg : ChannelMsg} {timeoutNs : ℕ}
    {fault : Bool} {vmo : ℕ → Bool} (hbuffers : ∀ t ∈ w.stack, ∃ msgs, Holds t msgs) :
    (MayFail (chanSendFrom w chanId msg timeoutNs fault vmo).1 →
      contents (chanSendFrom w chanId msg timeoutNs fault vmo).2 = contents w) ↔
    ∀ c, w.chans chanId = some c → w.intercepts c msg fault = true →
      AllOrNone vmo (buffering w chanId) := by
  unfold chanSendFrom
  cases hc : w.chans chanId with
  | none => exact iff_of_true (fun _ => rfl) fun c hc => by cases hc
  | some c =>
  by_cases hint : w.intercepts c msg fault = true
  · obtain ⟨rfl, htype⟩ : fault = false ∧ msg.header.typeHash = c.typeHash := by
      simp only [TxnWorld.intercepts, Bool.and_eq_true, Bool.not_eq_true', decide_eq_true_eq]
        at hint
      exact hint.1.1
    have hcontents : _ ↔ ∀ t ∈ (buffering w chanId).head?, ¬HasRoom vmo t :=
      contents_walk (txnIsExternalPeer (w.holders chanId) · w.pid) chanId msg vmo hbuffers
    have hroute := route_walk (txnIsExternalPeer (w.holders chanId) · w.pid) chanId msg vmo w.stack
    simp only [hint, Option.some.injEq, forall_eq', forall_const]
    generalize txnWalk (txnIsExternalPeer (w.holders chanId) · w.pid) chanId msg vmo w.stack =
      walk at hcontents hroute ⊢
    rcases hroute with ⟨⟨rc, hrc, herror⟩, hnone⟩ | ⟨hok, hall⟩
    · have hcode : (chanSend c w.pid msg timeoutNs false walk.1).1 = .code rc := by
        simp [chanSend, htype, herror]
      have hnot : ¬∀ t ∈ buffering w chanId, HasRoom vmo t := by
        obtain ⟨t, ht, hroom⟩ := hnone
        exact fun h => hroom (h t ht)
      rw [AllOrNone, ← hcontents, hcode]
      exact ⟨fun h => Or.inr (h (Or.inr ⟨rc, hrc, rfl⟩)), fun h _ => h.resolve_left hnot⟩
    · refine iff_of_true (fun hfail => hcontents.mpr fun t ht => ?_) (Or.inl hall)
      -- a send that a buffer takes does not fail
      have hsome : (buffering w chanId).isEmpty = false := by
        cases hb : buffering w chanId with
        | nil => simp [hb] at ht
        | cons => rfl
      have hbuffered : (chanSend c w.pid msg timeoutNs false walk.1).1 = .buffered := by
        rw [chanSend_route _ _ _ _ htype, hok]
        exact congrArg (fun b => Except.ok (!b)) hsome
      rcases hfail with hblocks | ⟨rc, -, hcode⟩
      · cases hblocks.symm.trans hbuffered
      · cases hcode.symm.trans hbuffered
  · simp only [if_neg hint]
    refine iff_of_true (fun _ => rfl) fun c' hc' hint' => ?_
    cases hc'
    exact absurd hint' hint

/-- Pid 7 inside two transactions, neither of which has a buffer yet. -/
def nested : TxnWorld := (Runs.run record (start roomyWriter) [enter, enter]).world

lemma holds_nested : ∀ t ∈ nested.stack, ∃ msgs, Holds t msgs := by
  intro t ht
  have hstack : nested.stack = [newTxn 2 txnFlagSelfScope [7], newTxn 1 txnFlagSelfScope [7]] := rfl
  rw [hstack] at ht
  rcases mem_cons.mp ht with rfl | ht
  · exact ⟨[], holds_new _ _ _⟩
  · rw [mem_singleton.mp ht]
    exact ⟨[], holds_new _ _ _⟩

/-- Without memory for the inner buffer nothing is kept. -/
theorem send_without_memory_is_not_buffered :
    (chanSendFrom nested 1 zeroMsg 0 false fun _ => false).1 = .code txnEnomem ∧
      contents (chanSendFrom nested 1 zeroMsg 0 false fun _ => false).2 = contents nested := by
  have hcode : (chanSendFrom nested 1 zeroMsg 0 false fun _ => false).1 = .code txnEnomem := rfl
  refine ⟨hcode, (refused_send_is_not_buffered holds_nested).mpr (fun _ _ _ => Or.inr ?_)
    (Or.inr ⟨_, by decide, hcode⟩)⟩
  intro t ht
  obtain rfl := Option.mem_some_iff.mp ht
  simp [HasRoom, newTxn]

/-- Without memory for the outer buffer only, the send fails, the inner buffer holds the message,
and the commit of the inner transaction delivers it. -/
theorem refused_send_is_delivered :
    (chanSendFrom nested 1 zeroMsg 0 false (· = 2)).1 = .code txnEnomem ∧
      contents nested = [[], []] ∧
      contents (chanSendFrom nested 1 zeroMsg 0 false (· = 2)).2 = [[(1, zeroMsg)], []] ∧
      (txnCommit (chanSendFrom nested 1 zeroMsg 0 false (· = 2)).2 2 TxnDelivery.calm).delivered =
        [(1, stamp zeroMsg 7 0)] := by
  refine ⟨rfl, rfl, rfl, rfl⟩

end GrahaOS.RefusedSends
