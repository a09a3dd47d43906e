import GrahaOS.Runs
import GrahaOS.Transactions

/-!
# Exactly-once delivery from one transaction

A run of one task inside one transaction: sends, commit attempts that may stall anywhere, retries
and an abort, with the other tasks acting in between. The invariant ties the three cursors together:
the buffer holds the sends of the trace, and the record behind which the next replay starts is the
number of messages delivered.
-/

namespace GrahaOS.TxnDelivery

open Channels Transactions Runs List

/-- The task with the history of its transaction. -/
structure Trace where
  world : TxnWorld
  buffered : List (ℕ × ChannelMsg)
  delivered : List (ℕ × ChannelMsg)

def record (s : Trace) : TxnOp → Trace
  | .txnBegin flags system scopePids failure =>
    { s with world := (txnBegin s.world flags system scopePids failure).2 }
  | .chanSend chanId msg timeoutNs fault vmo =>
    let r := chanSendFrom s.world chanId msg timeoutNs fault vmo
    { s with
      world := r.2
      buffered := if r.1 = .buffered then s.buffered ++ [(chanId, msg)] else s.buffered }
  | .txnCommit handle env =>
    let r := txnCommit s.world handle env
    { s with world := r.world, delivered := s.delivered ++ r.delivered }
  | .txnAbort handle => { s with world := (txnAbort s.world handle).2 }
  | .others chans holders issued => { s with world := s.world.afterOthers chans holders issued }

/-- The transaction of the run is the only one. -/
def SingleLevel : TxnOp → Prop
  | .txnBegin _ _ _ _ => False
  | _ => True

/-- The messages delivered are the first ones buffered, in order and each once. -/
structure DeliveredPrefix (pid : ℤ) (buffered delivered : List (ℕ × ChannelMsg)) : Prop where
  le : delivered.length ≤ buffered.length
  stored : List.Forall₂ (Stored pid) delivered (buffered.take delivered.length)

/-- What every state of the run satisfies. -/
structure Inv (pid : ℤ) (s : Trace) : Prop where
  task : s.world.pid = pid
  idle : s.world.replayInProgress = false
  in_order : DeliveredPrefix pid s.buffered s.delivered
  cursor : s.world.stack = [] ∨ ∃ t, s.world.stack = [t] ∧ Holds t s.buffered ∧
    Standing t s.delivered.length

variable {pid : ℤ} {s : Trace}

/-- A further send leaves what was delivered the beginning of what was buffered. -/
lemma DeliveredPrefix.send {buffered delivered : List (ℕ × ChannelMsg)}
    (h : DeliveredPrefix pid buffered delivered) (m : ℕ × ChannelMsg) :
    DeliveredPrefix pid (buffered ++ [m]) delivered := by
  refine ⟨h.le.trans (by simp), ?_⟩
  rw [take_append_of_le_length h.le]
  exact h.stored

lemma inv_send (h : Inv pid s) (chanId : ℕ) (msg : ChannelMsg) (timeoutNs : ℕ) (fault : Bool)
    (vmo : ℕ → Bool) : Inv pid (record s (.chanSend chanId msg timeoutNs fault vmo)) := by
  rcases chanSendFrom_cases s.world chanId msg timeoutNs fault vmo with
    ⟨hnot, chans, hworld⟩ | ⟨c, hc, hint⟩
  · simp only [record, if_neg hnot, hworld]
    exact ⟨h.task, h.idle, h.in_order, h.cursor⟩
  have hopen : s.world.stack ≠ [] := by
    intro hnil
    simp [TxnWorld.intercepts, hnil] at hint
  obtain ⟨⟨rfl, htype⟩, -⟩ : (fault = false ∧ msg.header.typeHash = c.typeHash) ∧ _ := by
    simpa [TxnWorld.intercepts, and_assoc] using hint
  obtain ⟨t, hstack, hholds, hstanding⟩ := h.cursor.resolve_left hopen
  obtain ⟨layers, t', hwalk, -, hstand, hroute⟩ := walk_single
    (txnIsExternalPeer (s.world.holders chanId) · s.world.pid) chanId msg vmo hholds hstanding
  have hsend := chanSend_route c s.world.pid msg timeoutNs htype layers
  simp only [record, chanSendFrom, hc, hint, if_true, hstack, hwalk]
  rcases hroute with ⟨hok, hmore⟩ | ⟨hother, hkept⟩
  · rw [if_pos (hsend.mpr hok)]
    exact ⟨h.task, h.idle, h.in_order.send _, .inr ⟨t', rfl, hmore, hstand⟩⟩
  · rw [if_neg (fun hbuf => hother (hsend.mp hbuf))]
    exact ⟨h.task, h.idle, h.in_order, .inr ⟨t', rfl, hkept, hstand⟩⟩

lemma attempt_of_inv (h : Inv pid s) {t : Txn} {outer : List Txn}
    (hstack : s.world.stack = t :: outer) :
    outer = [] ∧ ∀ env, Attempt s.world t [] s.buffered s.delivered.length
      (commitCurrent s.world t outer env) := by
  rcases h.cursor with hnil | ⟨t', hone, hholds, hstanding⟩
  · rw [hstack] at hnil
    cases hnil
  · obtain ⟨rfl, rfl⟩ := cons.inj (hstack.symm.trans hone)
    exact ⟨rfl, commitCurrent_spec hholds hstanding h.in_order.le h.idle⟩

lemma inv_commit (h : Inv pid s) (handle : ℕ) (env : Interference) :
    Inv pid (record s (.txnCommit handle env)) := by
  rcases txnCommit_cases s.world handle env with ⟨-, hworld, hnone⟩ | ⟨t, outer, hstack, -, heq⟩
  · simp only [record, hworld, hnone, append_nil]
    exact h
  have hattempt := (attempt_of_inv h hstack).2 env
  simp only [record, heq]
  refine ⟨hattempt.pid.trans h.task, hattempt.idle, ⟨by simpa using hattempt.progress, ?_⟩, ?_⟩
  · rw [length_append, take_add]
    exact rel_append h.in_order.stored (h.task ▸ hattempt.stored)
  rcases hattempt.ends with ⟨-, hempty, -⟩ | ⟨-, t', hsame, -, hholds, hstanding⟩
  · exact .inl hempty
  · refine .inr ⟨t', hsame, hholds, ?_⟩
    rw [length_append]
    exact hstanding

lemma inv_abort (h : Inv pid s) (handle : ℕ) : Inv pid (record s (.txnAbort handle)) := by
  rcases txnAbort_cases s.world handle with ⟨-, hworld⟩ | ⟨t, outer, hstack, -, heq⟩
  · simp only [record, hworld]
    exact h
  · obtain rfl := (attempt_of_inv h hstack).1
    simp only [record, heq]
    exact ⟨h.task, h.idle, h.in_order, .inl rfl⟩

theorem inv_record (s : Trace) (op : TxnOp) (h : Inv pid s) (hop : SingleLevel op) :
    Inv pid (record s op) := by
  cases op with
  | txnBegin flags system scopePids failure => exact hop.elim
  | chanSend chanId msg timeoutNs fault vmo => exact inv_send h chanId msg timeoutNs fault vmo
  | txnCommit handle env => exact inv_commit h handle env
  | txnAbort handle => exact inv_abort h handle
  | others chans holders issued => exact ⟨h.task, h.idle, h.in_order, h.cursor⟩

/-- The state after `txn_begin` by a task that is in no transaction. -/
def opened (w : TxnWorld) (flags : BitVec 32) (system : Bool) (scopePids : List ℤ)
    (failure : Option ℤ) : Trace :=
  ⟨(txnBegin w flags system scopePids failure).2, [], []⟩

lemma inv_opened {w : TxnWorld} (hstack : w.stack = []) (hidle : w.replayInProgress = false)
    (flags : BitVec 32) (system : Bool) (scopePids : List ℤ) (failure : Option ℤ) :
    Inv w.pid (opened w flags system scopePids failure) := by
  have hrefused : Inv w.pid ⟨w, [], []⟩ := ⟨rfl, hidle, ⟨le_rfl, by simp⟩, .inl hstack⟩
  unfold opened
  rcases txnBegin_cases w flags system scopePids failure with hsame | ⟨flags', hnew⟩
  · rw [hsame]
    exact hrefused
  · rw [hnew]
    exact ⟨rfl, hidle, ⟨le_rfl, by simp⟩, .inr ⟨newTxn w.nextTxnId flags' scopePids,
      by simp [hstack], holds_new .., standing_new ..⟩⟩

lemma delivered_of_closed (hstack : s.world.stack = []) {later : List TxnOp}
    (hlater : ∀ op ∈ later, SingleLevel op) : (run record s later).delivered = s.delivered := by
  induction later generalizing s with
  | nil => rfl
  | cons op later ih =>
  have hop := hlater op (mem_cons_self ..)
  have hstep : (record s op).world.stack = [] ∧ (record s op).delivered = s.delivered := by
    cases op with
    | txnBegin flags system scopePids failure => exact hop.elim
    | chanSend chanId msg timeoutNs fault vmo =>
      refine ⟨?_, rfl⟩
      rcases chanSendFrom_cases s.world chanId msg timeoutNs fault vmo with
        ⟨-, chans, hworld⟩ | ⟨c, -, hint⟩
      · simp [record, hworld, hstack]
      · simp [TxnWorld.intercepts, hstack] at hint
    | txnCommit handle env => simp [record, txnCommit, hstack]
    | txnAbort handle => simp [record, txnAbort, hstack]
    | others chans holders issued => exact ⟨hstack, rfl⟩
  rw [run_cons, ih hstep.1 fun o ho => hlater o (mem_cons_of_mem _ ho), hstep.2]

/-- Pid 7 holds the write end of channel 1, which has one slot, and pid 8 the read end. -/
def writer : TxnWorld where
  pid := 7
  stack := []
  replayInProgress := false
  chans := Function.update (fun _ => none) 1 (some (freshChannel 0#64 .blocking 1 Nat.one_pos))
  holders := fun _ => (8, 7)
  nextTxnId := 1

/-- Nothing else happens during a replay. -/
def calm : Interference := ⟨fun _ chans => chans, fun _ => false⟩

/-- Two sends, an attempt that stalls when the channel is full, a third send after it, the
channel drained twice, and two more attempts. -/
def stalledOps : List TxnOp :=
  let send := .chanSend 1 zeroMsg 0 false fun _ => true
  let drained := .others writer.chans writer.holders 0
  [send, send, .txnCommit 1 calm, send, drained, .txnCommit 1 calm, drained, .txnCommit 1 calm]

end GrahaOS.TxnDelivery
