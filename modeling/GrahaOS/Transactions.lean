import GrahaOS.Channels

/-!
# Transactions over channel sends

`kernel/txn` with the transaction prologue of `chan_send`. The state is that of one task: its stack
of transactions, innermost first, and the flag that lets a replay pass the prologue. `Interference`
is what other tasks do to the channels between two calls and between two records of a replay.

A buffer is the memory of its VMO, read and written one record at a time. The snapshot behind a
transaction, its capability object and its handle are left out; a handle is the number of the
transaction it was issued for.
-/

namespace GrahaOS.Transactions

open Channels List

def txnMaxNesting : ℕ := 4
def txnDefaultBufferBytes : ℕ := 4 * 1024 * 1024

def txnBufferMagicHead : BitVec 32 := 0xBEADF00D#32
def txnBufferMagicTail : BitVec 32 := 0xDEADC0DE#32

/-! `TXN_FLAG_*`. -/

def txnFlagSelfScope : BitVec 32 := 0x1#32
def txnFlagGlobalScope : BitVec 32 := 0x2#32
def txnFlagBuffer2MB : BitVec 32 := 0x10#32
def txnFlagBuffer4MB : BitVec 32 := 0x20#32
def txnFlagBuffer8MB : BitVec 32 := 0x40#32

def txnFlagValidMask : BitVec 32 :=
  txnFlagSelfScope ||| txnFlagGlobalScope ||| txnFlagBuffer2MB ||| txnFlagBuffer4MB |||
    txnFlagBuffer8MB

/-! The `TXN_*` return codes and the two bare ones of `buffer.c`. -/

def txnEinval : ℤ := -22
def txnEperm : ℤ := -1
def txnEnomem : ℤ := -3
def txnEbusy : ℤ := -16
def txnEalready : ℤ := -114
def txnEtxnreplay : ℤ := -200
def txnEnested : ℤ := -201
def enospc : ℤ := -28
def enodata : ℤ := -61

inductive TxnState
  | active | committing | committed | committingFailed | aborting | aborted
deriving DecidableEq

/-- One record of a buffer: `buffered_msg_header_t`, the `channel_msg_t` behind it and the
tail mark. -/
structure BufferedMsg where
  magic : BitVec 32
  targetChanId : ℕ
  payloadLen : ℕ
  flags : BitVec 32
  originalSendSeq : ℕ
  payload : ChannelMsg
  tailMagic : BitVec 32

/-- `sizeof(channel_msg_t)`. -/
def channelMsgBytes : ℕ := 320

/-- Header, payload rounded up to eight bytes, tail mark. -/
def entrySize (payloadLen : ℕ) : ℕ := 32 + (payloadLen + 7) / 8 * 8 + 4

/-- `transaction_t`. -/
structure Txn where
  id : ℕ
  flags : BitVec 32
  scopePids : List ℤ
  state : TxnState
  bufferVmo : Option (ℕ → Option BufferedMsg)
  bufferVmoCapacity : ℕ
  bufferVmoHead : ℕ
  bufferedCount : ℕ
  replayCursor : ℕ
  replayDelivered : ℕ
  replayFailedChanId : ℕ

/-- `txn_buffer_lazy_alloc`; `vmo` is the outcome of `vmo_create`. -/
def txnBufferLazyAlloc (t : Txn) (vmo : Bool) : ℤ × Txn :=
  if t.bufferVmo.isSome then (0, t)
  else if !vmo then (txnEnomem, t)
  else
    let capacity := if t.bufferVmoCapacity = 0 then txnDefaultBufferBytes else t.bufferVmoCapacity
    (0, { t with
      bufferVmo := some fun _ => none
      bufferVmoCapacity := (capacity + 4095) / 4096 * 4096
      bufferVmoHead := 0 })

/-- The record that `txn_buffer_append` writes. -/
def newRecord (t : Txn) (targetChanId : ℕ) (msg : ChannelMsg) (flags : BitVec 32) : BufferedMsg where
  magic := txnBufferMagicHead
  targetChanId := targetChanId
  payloadLen := channelMsgBytes
  flags := flags
  originalSendSeq := t.bufferedCount
  payload := msg
  tailMagic := txnBufferMagicTail

def txnBufferAppend (t : Txn) (targetChanId : ℕ) (msg : ChannelMsg) (flags : BitVec 32)
    (vmo : Bool) : ℤ × Txn :=
  let a := txnBufferLazyAlloc t vmo
  if a.1 < 0 then a
  else if a.2.bufferVmoCapacity < a.2.bufferVmoHead + entrySize channelMsgBytes then (enospc, a.2)
  else (0, { a.2 with
    bufferVmo := a.2.bufferVmo.map fun mem =>
      Function.update mem a.2.bufferVmoHead (some (newRecord a.2 targetChanId msg flags))
    bufferVmoHead := a.2.bufferVmoHead + entrySize channelMsgBytes
    bufferedCount := a.2.bufferedCount + 1 })

/-- `txn_buffer_iter_next` at an offset: the record there and the offset behind it. -/
def txnBufferIterNext (t : Txn) (offset : ℕ) : Except ℤ (BufferedMsg × ℕ) :=
  match t.bufferVmo with
  | none => .error enodata
  | some mem =>
    if t.bufferVmoHead ≤ offset then .error enodata
    else match mem offset with
      | none => .error txnEinval
      | some r =>
        if r.magic ≠ txnBufferMagicHead then .error txnEinval
        else if channelMsgBytes < r.payloadLen then .error txnEinval
        else if r.tailMagic ≠ txnBufferMagicTail then .error txnEinval
        else .ok (r, offset + entrySize r.payloadLen)

def txnBufferFreeDrop (t : Txn) : Txn :=
  { t with bufferVmo := none, bufferVmoHead := 0, bufferedCount := 0 }

/-- `txn_is_external_peer`, given the holders of the two endpoints of the channel, -1 for
none. The array of scope pids is sorted, so that the binary search finds its members. -/
def txnIsExternalPeer (holders : ℤ × ℤ) (t : Txn) (senderId : ℤ) : Bool :=
  let external := fun peer : ℤ =>
    if peer < 0 then true else if peer = senderId then false else !t.scopePids.contains peer
  if holders.1 = senderId then external holders.2
  else if holders.2 = senderId then external holders.1
  else true

/-- The task, and the channels as it finds them: `chans` is `chan_lookup_by_id`. -/
structure TxnWorld where
  pid : ℤ
  stack : List Txn
  replayInProgress : Bool
  chans : ℕ → Option Channel
  holders : ℕ → ℤ × ℤ
  nextTxnId : ℕ

/-- The walk over the stack in the prologue of `chan_send`: what each transaction does with
the message, up to the first append that fails, and the stack afterwards. -/
def txnWalk (external : Txn → Bool) (chanId : ℕ) (msg : ChannelMsg) (vmo : ℕ → Bool) :
    List Txn → List TxnLayer × List Txn
  | [] => ([], [])
  | t :: outer =>
    if external t then
      let r := txnBufferAppend t chanId msg 0#32 (vmo t.id)
      if r.1 < 0 then ([.refused r.1], r.2 :: outer)
      else
        let rest := txnWalk external chanId msg vmo outer
        (.appended :: rest.1, r.2 :: rest.2)
    else
      let rest := txnWalk external chanId msg vmo outer
      (.inScope :: rest.1, t :: rest.2)

variable (w : TxnWorld)

def TxnWorld.setChan (chanId : ℕ) (c : Channel) : TxnWorld :=
  { w with chans := Function.update w.chans chanId (some c) }

/-- Whether a send of the task reaches the walk. -/
def TxnWorld.intercepts (c : Channel) (msg : ChannelMsg) (fault : Bool) : Bool :=
  !fault && decide (msg.header.typeHash = c.typeHash) && !w.stack.isEmpty && !w.replayInProgress

/-- `chan_send` by the task. -/
def chanSendFrom (chanId : ℕ) (msg : ChannelMsg) (timeoutNs : ℕ) (fault : Bool)
    (vmo : ℕ → Bool) : Outcome × TxnWorld :=
  match w.chans chanId with
  | none => (.error .einval, w)
  | some c =>
    if w.intercepts c msg fault then
      let walk := txnWalk (txnIsExternalPeer (w.holders chanId) · w.pid) chanId msg vmo w.stack
      let r := chanSend c w.pid msg timeoutNs fault walk.1
      (r.1, { w.setChan chanId r.2 with stack := walk.2 })
    else
      let r := chanSend c w.pid msg timeoutNs fault []
      (r.1, w.setChan chanId r.2)

/-- `txn_replay_context_t`. -/
structure ReplayContext where
  currentOffset : ℕ
  deliveredCount : ℕ
  failedChanId : ℕ

/-- What happens around a replay: what the other tasks do to the channels before the k-th
record, and whether the fault injection hook fires for it. -/
structure Interference where
  others : ℕ → (ℕ → Option Channel) → ℕ → Option Channel
  fault : ℕ → Bool

/-- How a replay ends: its return code, its context, the state, and the messages it has put
into channels, each with the channel's id. -/
structure Replay where
  rc : ℤ
  ctx : ReplayContext
  world : TxnWorld
  delivered : List (ℕ × ChannelMsg)

/-- The loop of `txn_replay_all` for the innermost transaction, from the k-th record on. A
record is at least one byte long, so the head of the buffer bounds the turns. -/
def replayLoop (env : Interference) : (fuel k : ℕ) → ReplayContext → TxnWorld → Replay
  | 0, _, ctx, w => ⟨txnEinval, ctx, w, []⟩
  | fuel + 1, k, ctx, w =>
    match w.stack with
    | [] => ⟨txnEinval, ctx, w, []⟩
    | t :: _ =>
      if t.bufferVmoHead ≤ ctx.currentOffset then ⟨0, ctx, w, []⟩
      else match txnBufferIterNext t ctx.currentOffset with
        | .error rc => ⟨if rc = enodata then 0 else rc, { ctx with failedChanId := 0 }, w, []⟩
        | .ok (r, next) =>
          let w := { w with chans := env.others k w.chans }
          let failed := { ctx with failedChanId := r.targetChanId }
          let done : ReplayContext := ⟨next, ctx.deliveredCount + 1, 0⟩
          match w.chans r.targetChanId with
          | none => ⟨txnEtxnreplay, failed, w, []⟩
          | some _ =>
            match chanSendFrom w r.targetChanId r.payload 0 (env.fault k) (fun _ => true) with
            | (.sent stored, w) =>
              let rest := replayLoop env fuel (k + 1) done w
              { rest with delivered := (r.targetChanId, stored) :: rest.delivered }
            -- `chan_send` also returns 0 for a message it has buffered.
            | (.buffered, w) => replayLoop env fuel (k + 1) done w
            | (_, w) => ⟨txnEtxnreplay, failed, w, []⟩

/-- `txn_replay_all` of the innermost transaction. -/
def txnReplayAll (ctx : ReplayContext) (env : Interference) : Replay :=
  match w.stack with
  | [] => ⟨txnEinval, ctx, w, []⟩
  | t :: _ =>
    if t.bufferVmo.isNone || t.bufferedCount = 0 then ⟨0, { ctx with deliveredCount := 0 }, w, []⟩
    else
      let r := replayLoop env (t.bufferVmoHead + 1) 0 ctx { w with replayInProgress := true }
      { r with world := { r.world with replayInProgress := false } }

def txnBufferBytesForFlags (flags : BitVec 32) : ℕ :=
  if flags &&& txnFlagBuffer2MB ≠ 0#32 then 2 * 1024 * 1024
  else if flags &&& txnFlagBuffer8MB ≠ 0#32 then 8 * 1024 * 1024
  else txnDefaultBufferBytes

/-- The record of a new transaction. -/
def newTxn (id : ℕ) (flags : BitVec 32) (scopePids : List ℤ) : Txn where
  id := id
  flags := flags
  scopePids := scopePids
  state := .active
  bufferVmo := none
  bufferVmoCapacity := txnBufferBytesForFlags flags
  bufferVmoHead := 0
  bufferedCount := 0
  replayCursor := 0
  replayDelivered := 0
  replayFailedChanId := 0

/-- `txn_begin`: `system` is the answer of `cap_system_resolve`, `scopePids` are the tasks of
the snapshot it takes, and `failure` is the code of an allocation that fails. It returns the
handle. -/
def txnBegin (flags : BitVec 32) (system : Bool) (scopePids : List ℤ)
    (failure : Option ℤ) : ℤ × TxnWorld :=
  if flags &&& ~~~txnFlagValidMask ≠ 0#32 then (txnEinval, w)
  else if flags &&& txnFlagGlobalScope ≠ 0#32 ∧ system = false then (txnEperm, w)
  else if txnMaxNesting ≤ w.stack.length then (txnEnested, w)
  else match failure with
    | some rc => (rc, w)
    | none =>
      let flags := if flags &&& (txnFlagSelfScope ||| txnFlagGlobalScope) = 0#32 then
          flags ||| txnFlagSelfScope else flags
      (w.nextTxnId, { w with
        stack := newTxn w.nextTxnId flags scopePids :: w.stack
        nextTxnId := w.nextTxnId + 1 })

/-- How a commit ends: its return code, the state, and the messages it has delivered. -/
structure Commit where
  rc : ℤ
  world : TxnWorld
  delivered : List (ℕ × ChannelMsg)

/-- The context a replay starts from: the beginning on the first attempt, otherwise where
the last attempt stopped. -/
def startContext (t : Txn) : ReplayContext :=
  if t.state = .active then ⟨0, 0, 0⟩ else ⟨t.replayCursor, t.replayDelivered, 0⟩

/-- What an attempt leaves in the transaction's record. -/
def keepProgress (ctx : ReplayContext) (t : Txn) : Txn :=
  { t with
    state := .committingFailed
    replayCursor := ctx.currentOffset
    replayDelivered := ctx.deliveredCount
    replayFailedChanId := ctx.failedChanId }

/-- `txn_commit` of the innermost transaction `t`, once its state is COMMITTING. -/
def commitCurrent (t : Txn) (outer : List Txn) (env : Interference) : Commit :=
  if t.bufferedCount = 0 then ⟨0, { w with stack := outer }, []⟩
  else
    let r := txnReplayAll { w with stack := { t with state := .committing } :: outer }
      (startContext t) env
    if r.rc < 0 then
      ⟨r.rc, { r.world with stack := r.world.stack.modifyHead (keepProgress r.ctx) }, r.delivered⟩
    else ⟨0, { r.world with stack := r.world.stack.tail }, r.delivered⟩

def txnCommit (handle : ℕ) (env : Interference) : Commit :=
  match w.stack with
  | [] => ⟨txnEinval, w, []⟩
  | t :: outer =>
    if t.id ≠ handle then ⟨if outer.any (·.id = handle) then txnEbusy else txnEinval, w, []⟩
    else match t.state with
      | .active | .committingFailed => commitCurrent w t outer env
      | _ => ⟨txnEbusy, w, []⟩

/-- `txn_abort`. A transaction that another call is committing would be waited for; here no
call is under way, so that state is refused like the ones after it. -/
def txnAbort (handle : ℕ) : ℤ × TxnWorld :=
  match w.stack with
  | [] => (txnEinval, w)
  | t :: outer =>
    if t.id ≠ handle then (if outer.any (·.id = handle) then txnEbusy else txnEinval, w)
    else match t.state with
      | .active | .committingFailed => (0, { w with stack := outer })
      | .committed => (txnEalready, w)
      | _ => (txnEbusy, w)

/-- The calls of the task, and what the other tasks do to what it shares with them: the
channels, the holders of their endpoints and the transaction numbers handed out. -/
inductive TxnOp
  | txnBegin (flags : BitVec 32) (system : Bool) (scopePids : List ℤ) (failure : Option ℤ)
  | chanSend (chanId : ℕ) (msg : ChannelMsg) (timeoutNs : ℕ) (fault : Bool) (vmo : ℕ → Bool)
  | txnCommit (handle : ℕ) (env : Interference)
  | txnAbort (handle : ℕ)
  | others (chans : ℕ → Option Channel) (holders : ℕ → ℤ × ℤ) (issued : ℕ)

def TxnWorld.afterOthers (chans : ℕ → Option Channel) (holders : ℕ → ℤ × ℤ)
    (issued : ℕ) : TxnWorld :=
  { w with chans := chans, holders := holders, nextTxnId := w.nextTxnId + issued }

/-- The buffer holds exactly these sends: the i-th record stands at the i-th multiple of the
record size, and the head behind the last. -/
structure Holds (t : Txn) (msgs : List (ℕ × ChannelMsg)) : Prop where
  count : t.bufferedCount = msgs.length
  head : t.bufferVmoHead = entrySize channelMsgBytes * msgs.length
  record : ∀ i, (hi : i < msgs.length) → ∃ mem r, t.bufferVmo = some mem ∧
    mem (entrySize channelMsgBytes * i) = some r ∧ r.magic = txnBufferMagicHead ∧
    r.payloadLen = channelMsgBytes ∧ r.tailMagic = txnBufferMagicTail ∧
    (r.targetChanId, r.payload) = msgs[i]

lemma entrySize_pos (n : ℕ) : 0 < entrySize n := by
  unfold entrySize
  omega

theorem holds_new (id : ℕ) (flags : BitVec 32) (scopePids : List ℤ) :
    Holds (newTxn id flags scopePids) [] :=
  ⟨rfl, rfl, fun _ hi => absurd hi (Nat.not_lt_zero _)⟩

variable {t : Txn} {msgs : List (ℕ × ChannelMsg)} {w : TxnWorld} {outer : List Txn} {d : ℕ}
  {c : Channel} {msg : ChannelMsg} {fault : Bool} {ctx : ReplayContext}

variable (h : Holds t msgs)
include h

/-- The buffer does not depend on the state and the replay fields. -/
theorem Holds.of_buffer {t' : Txn} (hvmo : t'.bufferVmo = t.bufferVmo)
    (hhead : t'.bufferVmoHead = t.bufferVmoHead) (hcount : t'.bufferedCount = t.bufferedCount) :
    Holds t' msgs := by
  refine ⟨hcount.trans h.count, hhead.trans h.head, ?_⟩
  rw [hvmo]
  exact h.record

/-- A buffer that holds something has been allocated. -/
theorem Holds.isSome_of_count (hcount : t.bufferedCount ≠ 0) : t.bufferVmo.isNone = false := by
  have hpos : 0 < msgs.length := by
    rw [← h.count]
    exact Nat.pos_of_ne_zero hcount
  obtain ⟨mem, -, hmem, -⟩ := h.record 0 hpos
  simp [hmem]

/-- Allocating the buffer changes nothing that it holds, and nothing else. -/
lemma holds_lazyAlloc (vmo : Bool) : Holds (txnBufferLazyAlloc t vmo).2 msgs ∧
      ((txnBufferLazyAlloc t vmo).1 < 0 ∨ (txnBufferLazyAlloc t vmo).2.bufferVmo.isSome) := by
  unfold txnBufferLazyAlloc
  cases hvmo : t.bufferVmo with
  | some mem => exact ⟨h, .inr (by simp [hvmo])⟩
  | none =>
  cases vmo with
  | false => exact ⟨h, .inl (show txnEnomem < 0 by decide)⟩
  | true =>
  -- A buffer that was never allocated holds nothing.
  have hempty : msgs = [] := by
    cases msgs with
    | nil => rfl
    | cons m rest =>
      obtain ⟨mem, r, hmem, -⟩ := h.record 0 (Nat.succ_pos _)
      rw [hvmo] at hmem
      cases hmem
  subst hempty
  exact ⟨⟨h.count, rfl, fun _ hi => absurd hi (Nat.not_lt_zero _)⟩, .inr rfl⟩

omit h

lemma append_frame (t : Txn) (chanId : ℕ) (msg : ChannelMsg) (flags : BitVec 32) (vmo : Bool) :
    (txnBufferAppend t chanId msg flags vmo).2.id = t.id ∧
      (txnBufferAppend t chanId msg flags vmo).2.state = t.state ∧
      (txnBufferAppend t chanId msg flags vmo).2.replayCursor = t.replayCursor ∧
      (txnBufferAppend t chanId msg flags vmo).2.replayDelivered = t.replayDelivered := by
  have halloc : (txnBufferLazyAlloc t vmo).2.id = t.id ∧
      (txnBufferLazyAlloc t vmo).2.state = t.state ∧
      (txnBufferLazyAlloc t vmo).2.replayCursor = t.replayCursor ∧
      (txnBufferLazyAlloc t vmo).2.replayDelivered = t.replayDelivered := by
    unfold txnBufferLazyAlloc
    split_ifs <;> exact ⟨rfl, rfl, rfl, rfl⟩
  unfold txnBufferAppend
  simp only
  split_ifs
  · exact halloc
  · exact halloc
  · exact halloc

include h

/-- An append either fails and keeps what the buffer holds, or adds the message. -/
theorem holds_append (chanId : ℕ) (msg : ChannelMsg) (flags : BitVec 32) (vmo : Bool) :
    ((txnBufferAppend t chanId msg flags vmo).1 < 0 ∧
      Holds (txnBufferAppend t chanId msg flags vmo).2 msgs) ∨
    ((txnBufferAppend t chanId msg flags vmo).1 = 0 ∧
      Holds (txnBufferAppend t chanId msg flags vmo).2 (msgs ++ [(chanId, msg)])) := by
  obtain ⟨ha, hsome⟩ := holds_lazyAlloc h vmo
  unfold txnBufferAppend
  generalize txnBufferLazyAlloc t vmo = a at ha hsome
  simp only
  split_ifs with hneg hfull
  · exact .inl ⟨hneg, ha⟩
  · exact .inl ⟨show enospc < 0 by decide, ha⟩
  right
  obtain ⟨mem, hmem⟩ := Option.isSome_iff_exists.mp (hsome.resolve_left hneg)
  refine ⟨rfl, by simp [ha.count], by simp [ha.head, Nat.mul_add], ?_⟩
  intro i hi
  refine ⟨Function.update mem a.2.bufferVmoHead (some (newRecord a.2 chanId msg flags)), ?_⟩
  rcases Nat.lt_or_ge i msgs.length with hold | hnew
  · obtain ⟨mem', r, hmem', hr, hmagic, hlen, htail, heq⟩ := ha.record i hold
    obtain rfl : mem = mem' := by
      rw [hmem] at hmem'
      exact Option.some.inj hmem'
    have hne : entrySize channelMsgBytes * i ≠ a.2.bufferVmoHead := by
      rw [ha.head]
      intro hsame
      exact hold.ne (Nat.eq_of_mul_eq_mul_left (entrySize_pos _) hsame)
    refine ⟨r, by simp [hmem], by simpa [hne] using hr, hmagic, hlen, htail, ?_⟩
    rw [heq, getElem_append_left hold]
  · obtain rfl : i = msgs.length := by
      have hlt : i < msgs.length + 1 := by simpa using hi
      omega
    refine ⟨newRecord a.2 chanId msg flags, by simp [hmem], by simp [ha.head], rfl, rfl, rfl, ?_⟩
    simp [newRecord]

/-- The iterator reads the buffer back record by record. -/
theorem iterNext_holds {i : ℕ} (hi : i < msgs.length) :
    ∃ r, txnBufferIterNext t (entrySize channelMsgBytes * i) =
        .ok (r, entrySize channelMsgBytes * (i + 1)) ∧ (r.targetChanId, r.payload) = msgs[i] := by
  obtain ⟨mem, r, hmem, hr, hmagic, hlen, htail, heq⟩ := h.record i hi
  have hbefore : ¬t.bufferVmoHead ≤ entrySize channelMsgBytes * i := by
    rw [h.head, not_le]
    exact Nat.mul_lt_mul_of_pos_left hi (entrySize_pos _)
  refine ⟨r, ?_, heq⟩
  simp [txnBufferIterNext, hmem, hbefore, hr, hmagic, hlen, htail, Nat.mul_add]

omit h

variable (w)

/-- A begin is refused without effect or pushes a new transaction. -/
theorem txnBegin_cases (flags : BitVec 32) (system : Bool) (scopePids : List ℤ) (failure : Option ℤ)
    :
    (txnBegin w flags system scopePids failure).2 = w ∨
      ∃ flags', (txnBegin w flags system scopePids failure).2 = { w with
        stack := newTxn w.nextTxnId flags' scopePids :: w.stack
        nextTxnId := w.nextTxnId + 1 } := by
  unfold txnBegin
  cases failure with
  | some rc =>
    left
    split_ifs <;> rfl
  | none =>
  by_cases hvalid : flags &&& ~~~txnFlagValidMask ≠ 0#32
  · exact .inl (by rw [if_pos hvalid])
  rw [if_neg hvalid]
  by_cases hscope : flags &&& txnFlagGlobalScope ≠ 0#32 ∧ system = false
  · exact .inl (by rw [if_pos hscope])
  rw [if_neg hscope]
  by_cases hdepth : txnMaxNesting ≤ w.stack.length
  · exact .inl (by rw [if_pos hdepth])
  rw [if_neg hdepth]
  exact .inr ⟨_, rfl⟩

/-- A commit is refused without effect, or is an attempt of the innermost transaction. -/
theorem txnCommit_cases (handle : ℕ) (env : Interference) :
    (txnCommit w handle env).rc ≠ 0 ∧ (txnCommit w handle env).world = w ∧
        (txnCommit w handle env).delivered = [] ∨
      ∃ t outer, w.stack = t :: outer ∧ t.id = handle ∧
        txnCommit w handle env = commitCurrent w t outer env := by
  have hinval : txnEinval ≠ 0 := by decide
  have hbusy : txnEbusy ≠ 0 := by decide
  unfold txnCommit
  split
  · exact .inl ⟨hinval, rfl, rfl⟩
  next t outer hstack =>
  split_ifs with hid hany
  · exact .inl ⟨hbusy, rfl, rfl⟩
  · exact .inl ⟨hinval, rfl, rfl⟩
  push Not at hid
  split
  · exact .inr ⟨t, outer, hstack, hid, rfl⟩
  · exact .inr ⟨t, outer, hstack, hid, rfl⟩
  · exact .inl ⟨hbusy, rfl, rfl⟩

/-- An abort is refused without effect or ends the innermost transaction. -/
theorem txnAbort_cases (handle : ℕ) : ((txnAbort w handle).1 ≠ 0 ∧ (txnAbort w handle).2 = w) ∨
      ∃ t outer, w.stack = t :: outer ∧ t.id = handle ∧
        txnAbort w handle = (0, { w with stack := outer }) := by
  have hinval : txnEinval ≠ 0 := by decide
  have hbusy : txnEbusy ≠ 0 := by decide
  have halready : txnEalready ≠ 0 := by decide
  unfold txnAbort
  split
  · exact .inl ⟨hinval, rfl⟩
  next t outer hstack =>
  split_ifs with hid hany
  · exact .inl ⟨hbusy, rfl⟩
  · exact .inl ⟨hinval, rfl⟩
  push Not at hid
  split
  · exact .inr ⟨t, outer, hstack, hid, rfl⟩
  · exact .inr ⟨t, outer, hstack, hid, rfl⟩
  · exact .inl ⟨halready, rfl⟩
  · exact .inl ⟨hbusy, rfl⟩

/-- A message as the channel stores it. -/
def Stored (pid : ℤ) (d b : ℕ × ChannelMsg) : Prop :=
  d.1 = b.1 ∧ ∃ seq, d.2 = stamp b.2 pid seq

/-- The channel takes the message at once. -/
def Accepts (c : Channel) (msg : ChannelMsg) (fault : Bool) : Prop :=
  fault = false ∧ msg.header.typeHash = c.typeHash ∧ c.frozenAtSnap = 0 ∧
    c.ring.count < c.ring.capacity

lemma chanSend_accepted (h : Accepts c msg fault) (pid : ℤ) (timeoutNs : ℕ) :
    (chanSend c pid msg timeoutNs fault []).1 = .sent (stamp msg pid c.seqNext) := by
  obtain ⟨rfl, htype, hfrozen, hroom⟩ := h
  simp [chanSend, txnRoute, chanSendTurn, htype, hfrozen, hroom]

lemma chanSend_refused (h : ¬Accepts c msg fault) (pid : ℤ) (timeoutNs : ℕ) :
    (∃ rc, (chanSend c pid msg timeoutNs fault []).1 = .code rc) ∨
      (chanSend c pid msg timeoutNs fault []).1 = .blocks := by
  unfold chanSend chanSendTurn Outcome.error
  simp only [txnRoute]
  split_ifs with hfault htype hfrozen hroom hwait
  · exact .inl ⟨_, rfl⟩
  · exact .inl ⟨_, rfl⟩
  · exact .inl ⟨_, rfl⟩
  · push Not at htype hfrozen
    exact absurd ⟨by simpa using hfault, htype, hfrozen, hroom⟩ h
  · exact .inl ⟨_, rfl⟩
  · exact .inr rfl

lemma chanSend_live_ne_buffered (c : Channel) (pid : ℤ) (msg : ChannelMsg) (timeoutNs : ℕ)
    (fault : Bool) : (chanSend c pid msg timeoutNs fault []).1 ≠ .buffered := by
  by_cases h : Accepts c msg fault
  · simp [chanSend_accepted h]
  · rcases chanSend_refused h pid timeoutNs with ⟨rc, hcode⟩ | hblocks
    · simp [hcode]
    · simp [hblocks]

/-- A send that is not intercepted leaves the stack alone and is not buffered; one that is
takes the route that the walk over the stack gives it. -/
theorem chanSendFrom_cases (chanId : ℕ) (msg : ChannelMsg) (timeoutNs : ℕ) (fault : Bool)
    (vmo : ℕ → Bool) :
    ((chanSendFrom w chanId msg timeoutNs fault vmo).1 ≠ .buffered ∧
      ∃ chans, (chanSendFrom w chanId msg timeoutNs fault vmo).2 = { w with chans := chans }) ∨
    ∃ c, w.chans chanId = some c ∧ w.intercepts c msg fault = true := by
  unfold chanSendFrom
  cases hc : w.chans chanId with
  | none => exact .inl ⟨by simp [Outcome.error], w.chans, rfl⟩
  | some c =>
    by_cases hint : w.intercepts c msg fault = true
    · exact .inr ⟨c, rfl, hint⟩
    · left
      simp only [if_neg hint]
      exact ⟨chanSend_live_ne_buffered c w.pid msg timeoutNs fault, _, rfl⟩

variable {w}

/-- One turn of the replay at the d-th record: the channel takes the message and the replay
goes on, or the replay stalls there. -/
lemma replayLoop_turn (env : Interference) (fuel k : ℕ) (hstack : w.stack = t :: outer)
    (hholds : Holds t msgs) (hreplay : w.replayInProgress = true) (hd : d < msgs.length)
    (hoffset : ctx.currentOffset = entrySize channelMsgBytes * d) :
    (∃ c rest, env.others k w.chans msgs[d].1 = some c ∧ Accepts c msgs[d].2 (env.fault k) ∧
      rest = replayLoop env fuel (k + 1)
        ⟨entrySize channelMsgBytes * (d + 1), ctx.deliveredCount + 1, 0⟩
        (TxnWorld.setChan { w with chans := env.others k w.chans } msgs[d].1
          (chanSend c w.pid msgs[d].2 0 (env.fault k) []).2) ∧
      replayLoop env (fuel + 1) k ctx w = { rest with
        delivered := (msgs[d].1, stamp msgs[d].2 w.pid c.seqNext) :: rest.delivered }) ∨
    ((∀ c, env.others k w.chans msgs[d].1 = some c → ¬Accepts c msgs[d].2 (env.fault k)) ∧
      ∃ failed chans, replayLoop env (fuel + 1) k ctx w =
        ⟨txnEtxnreplay, { ctx with failedChanId := failed }, { w with chans := chans }, []⟩) := by
  obtain ⟨pid, stack, replaying, chans, holders, nextTxnId⟩ := w
  obtain rfl : stack = t :: outer := hstack
  obtain rfl : replaying = true := hreplay
  obtain ⟨r, hnext, hr⟩ := iterNext_holds hholds hd
  have hbefore : ¬t.bufferVmoHead ≤ ctx.currentOffset := by
    rw [hholds.head, hoffset, not_le]
    exact Nat.mul_lt_mul_of_pos_left hd (entrySize_pos _)
  rw [← hr, replayLoop]
  simp only [if_neg hbefore]
  rw [hoffset, hnext]
  simp only
  cases hchan : env.others k chans r.targetChanId with
  | none =>
    exact .inr ⟨fun c hc => by simp at hc, r.targetChanId, env.others k chans, by rw [← hoffset]⟩
  | some c =>
  simp only [chanSendFrom, hchan, TxnWorld.intercepts, Bool.not_true, Bool.and_false,
    Bool.false_eq_true, if_false]
  by_cases haccept : Accepts c r.payload (env.fault k)
  · left
    refine ⟨c, _, rfl, haccept, rfl, ?_⟩
    rw [chanSend_accepted haccept]
  right
  refine ⟨fun c' hc' => Option.some.inj hc' ▸ haccept, r.targetChanId, ?_⟩
  rcases chanSend_refused haccept pid 0 with ⟨rc, hcode⟩ | hblocks
  · rw [hcode]
    exact ⟨_, by rw [← hoffset]; rfl⟩
  · rw [hblocks]
    exact ⟨_, by rw [← hoffset]; rfl⟩

lemma replayLoop_end (env : Interference) {fuel k : ℕ}
    (hstack : w.stack = t :: outer)
    (hholds : Holds t msgs) (hoffset : ctx.currentOffset = entrySize channelMsgBytes * msgs.length) :
    replayLoop env (fuel + 1) k ctx w = ⟨0, ctx, w, []⟩ := by
  obtain ⟨pid, stack, replaying, chans, holders, nextTxnId⟩ := w
  obtain rfl : stack = t :: outer := hstack
  have hend : t.bufferVmoHead ≤ ctx.currentOffset := by rw [hholds.head, hoffset]
  rw [replayLoop]
  simp only [if_pos hend]

/-- What a replay from the d-th record on has done when it ends. -/
structure Replayed (w : TxnWorld) (msgs : List (ℕ × ChannelMsg)) (d : ℕ) (ctx : ReplayContext)
    (r : Replay) : Prop where
  stack : r.world.stack = w.stack
  pid : r.world.pid = w.pid
  nextTxnId : r.world.nextTxnId = w.nextTxnId
  progress : d + r.delivered.length ≤ msgs.length
  offset : r.ctx.currentOffset = entrySize channelMsgBytes * (d + r.delivered.length)
  delivered : r.ctx.deliveredCount = ctx.deliveredCount + r.delivered.length
  stored : List.Forall₂ (Stored w.pid) r.delivered ((msgs.drop d).take r.delivered.length)
  complete : r.rc = 0 → d + r.delivered.length = msgs.length
  code : r.rc = 0 ∨ r.rc = txnEtxnreplay

lemma Replayed.cons {w' : TxnWorld} {seq : ℕ}
    {rest : Replay} (h : Replayed w' msgs (d + 1)
      ⟨entrySize channelMsgBytes * (d + 1), ctx.deliveredCount + 1, 0⟩ rest)
    (hd : d < msgs.length) (hstack : w'.stack = w.stack) (hpid : w'.pid = w.pid)
    (hnext : w'.nextTxnId = w.nextTxnId) :
    Replayed w msgs d ctx { rest with
      delivered := (msgs[d].1, stamp msgs[d].2 w.pid seq) :: rest.delivered } := by
  refine ⟨h.stack.trans hstack, h.pid.trans hpid, h.nextTxnId.trans hnext, ?_, ?_, ?_, ?_, ?_,
    h.code⟩
  · have := h.progress
    simp only [length_cons]
    omega
  · rw [h.offset, length_cons]
    ring
  · rw [h.delivered, length_cons]
    simp only
    omega
  · rw [drop_eq_getElem_cons hd, length_cons, take_succ_cons]
    exact Forall₂.cons ⟨rfl, seq, rfl⟩ (hpid ▸ h.stored)
  · intro hrc
    have := h.complete hrc
    simp only [length_cons]
    omega

/-- The replay delivers the records in order from its cursor on, and stops behind the last
one it has delivered. -/
theorem replayLoop_spec (env : Interference) (hholds : Holds t msgs) :
    ∀ (fuel k d : ℕ) (ctx : ReplayContext) (w : TxnWorld), w.stack = t :: outer →
      w.replayInProgress = true → d ≤ msgs.length →
      ctx.currentOffset = entrySize channelMsgBytes * d → msgs.length - d < fuel →
      Replayed w msgs d ctx (replayLoop env fuel k ctx w) := by
  intro fuel
  induction fuel with
  | zero =>
    intro k d ctx w _ _ _ _ hfuel
    exact absurd hfuel (Nat.not_lt_zero _)
  | succ fuel ih =>
  intro k d ctx w hstack hreplay hd hoffset hfuel
  rcases Nat.lt_or_ge d msgs.length with hlt | hge
  · rcases replayLoop_turn env fuel k hstack hholds hreplay hlt hoffset with
      ⟨c, rest, -, -, hrest, heq⟩ | ⟨-, failed, chans, heq⟩
    · have hmore := ih (k + 1) (d + 1)
        ⟨entrySize channelMsgBytes * (d + 1), ctx.deliveredCount + 1, 0⟩
        (TxnWorld.setChan { w with chans := env.others k w.chans } msgs[d].1
          (chanSend c w.pid msgs[d].2 0 (env.fault k) []).2) hstack hreplay hlt rfl (by omega)
      rw [← hrest] at hmore
      rw [heq]
      exact hmore.cons hlt rfl rfl rfl
    · have hcode : txnEtxnreplay ≠ 0 := by decide
      rw [heq]
      exact ⟨rfl, rfl, rfl, hd, hoffset, rfl, by simp, fun h => absurd h hcode, .inr rfl⟩
  · obtain rfl : d = msgs.length := le_antisymm hd hge
    rw [replayLoop_end env hstack hholds hoffset]
    exact ⟨rfl, rfl, rfl, hd, hoffset, rfl, by simp, fun _ => rfl, .inl rfl⟩

/-- The transaction may be committed or aborted, and its first `d` records are delivered. -/
structure Standing (t : Txn) (d : ℕ) : Prop where
  open_ : t.state = .active ∨ t.state = .committingFailed
  offset : (startContext t).currentOffset = entrySize channelMsgBytes * d
  delivered : (startContext t).deliveredCount = d

theorem standing_new (id : ℕ) (flags : BitVec 32) (scopePids : List ℤ) :
    Standing (newTxn id flags scopePids) 0 :=
  ⟨.inl rfl, rfl, rfl⟩

/-- Appending to the buffer does not move the cursor. -/
theorem Standing.append (h : Standing t d) (chanId : ℕ) (msg : ChannelMsg) (flags : BitVec 32)
    (vmo : Bool) : Standing (txnBufferAppend t chanId msg flags vmo).2 d := by
  obtain ⟨-, hstate, hcursor, hdelivered⟩ := append_frame t chanId msg flags vmo
  have hctx : startContext (txnBufferAppend t chanId msg flags vmo).2 = startContext t := by
    simp only [startContext, hstate, hcursor, hdelivered]
  exact ⟨hstate ▸ h.open_, hctx ▸ h.offset, hctx ▸ h.delivered⟩

/-- A commit with a buffer that is not empty: the replay, and what is made of its end. -/
lemma commitCurrent_eq (hvmo : t.bufferVmo.isNone = false) (hcount : t.bufferedCount ≠ 0)
    (env : Interference) :
    commitCurrent w t outer env =
      let r := replayLoop env (t.bufferVmoHead + 1) 0 (startContext t)
        { w with stack := { t with state := .committing } :: outer, replayInProgress := true }
      if r.rc < 0 then
        ⟨r.rc, { r.world with
          replayInProgress := false
          stack := r.world.stack.modifyHead (keepProgress r.ctx) }, r.delivered⟩
      else ⟨0, { r.world with replayInProgress := false, stack := r.world.stack.tail },
        r.delivered⟩ := by
  rw [commitCurrent, if_neg hcount, txnReplayAll]
  simp only [hvmo, hcount, decide_false, Bool.or_self, Bool.false_eq_true, if_false]

/-- What a commit of the innermost transaction does when its buffer holds `msgs` and the
first `d` of them are delivered. -/
structure Attempt (w : TxnWorld) (t : Txn) (outer : List Txn) (msgs : List (ℕ × ChannelMsg))
    (d : ℕ) (r : Commit) : Prop where
  pid : r.world.pid = w.pid
  nextTxnId : r.world.nextTxnId = w.nextTxnId
  idle : r.world.replayInProgress = false
  progress : d + r.delivered.length ≤ msgs.length
  stored : List.Forall₂ (Stored w.pid) r.delivered ((msgs.drop d).take r.delivered.length)
  ends : (r.rc = 0 ∧ r.world.stack = outer ∧ d + r.delivered.length = msgs.length) ∨
    (r.rc = txnEtxnreplay ∧ ∃ t', r.world.stack = t' :: outer ∧ t'.id = t.id ∧ Holds t' msgs ∧
      Standing t' (d + r.delivered.length))

theorem commitCurrent_spec (hholds : Holds t msgs) (hstanding : Standing t d) (hd : d ≤ msgs.length)
    (hidle : w.replayInProgress = false) (env : Interference) :
    Attempt w t outer msgs d (commitCurrent w t outer env) := by
  by_cases hempty : t.bufferedCount = 0
  · have hlen : msgs.length = 0 := hholds.count.symm.trans hempty
    rw [commitCurrent, if_pos hempty]
    exact ⟨rfl, rfl, hidle, by simpa using hd, by simp, .inl ⟨rfl, rfl, by simp; omega⟩⟩
  have hfuel : msgs.length - d < t.bufferVmoHead + 1 := by
    rw [hholds.head]
    have := Nat.le_mul_of_pos_left msgs.length (entrySize_pos channelMsgBytes)
    omega
  have hcommitting : Holds { t with state := .committing } msgs := hholds.of_buffer rfl rfl rfl
  have hspec := replayLoop_spec env hcommitting (t.bufferVmoHead + 1) 0 d (startContext t)
    { w with stack := { t with state := .committing } :: outer, replayInProgress := true }
    rfl rfl hd hstanding.offset hfuel
  rw [commitCurrent_eq (hholds.isSome_of_count hempty) hempty]
  generalize replayLoop env (t.bufferVmoHead + 1) 0 (startContext t) _ = r at hspec ⊢
  by_cases hstall : r.rc < 0
  · rw [if_pos hstall]
    have hcode : r.rc = txnEtxnreplay := hspec.code.resolve_left hstall.ne
    refine ⟨hspec.pid, hspec.nextTxnId, rfl, hspec.progress, hspec.stored,
      .inr ⟨hcode, keepProgress r.ctx { t with state := .committing }, ?_, rfl,
        hholds.of_buffer rfl rfl rfl, .inr rfl, hspec.offset, ?_⟩⟩
    · rw [hspec.stack]
      rfl
    · exact hspec.delivered.trans (by rw [hstanding.delivered])
  · rw [if_neg hstall]
    have hzero : r.rc = 0 := by
      rcases hspec.code with hzero | hcode
      · exact hzero
      · rw [hcode] at hstall
        exact absurd (show txnEtxnreplay < 0 by decide) hstall
    refine ⟨hspec.pid, hspec.nextTxnId, rfl, hspec.progress, hspec.stored,
      .inl ⟨rfl, ?_, hspec.complete hzero⟩⟩
    rw [hspec.stack]
    rfl

/-- A send inside one transaction is appended to its buffer, refused by it, or passes to the
channel. -/
lemma walk_single (external : Txn → Bool) (chanId : ℕ) (msg : ChannelMsg) (vmo : ℕ → Bool)
    (hholds : Holds t msgs) (hstanding : Standing t d) :
    ∃ layers t', txnWalk external chanId msg vmo [t] = (layers, [t']) ∧ t'.id = t.id ∧
      Standing t' d ∧ ((txnRoute layers = .ok true ∧ Holds t' (msgs ++ [(chanId, msg)])) ∨
        (txnRoute layers ≠ .ok true ∧ Holds t' msgs)) := by
  unfold txnWalk
  by_cases hext : external t = true
  · rw [if_pos hext]
    have hstand := hstanding.append chanId msg 0#32 (vmo t.id)
    have hid := (append_frame t chanId msg 0#32 (vmo t.id)).1
    rcases holds_append hholds chanId msg 0#32 (vmo t.id) with ⟨hneg, hkept⟩ | ⟨hzero, hmore⟩
    · simp only [if_pos hneg]
      exact ⟨_, _, rfl, hid, hstand, .inr ⟨by simp [txnRoute], hkept⟩⟩
    · have hnonneg : ¬(txnBufferAppend t chanId msg 0#32 (vmo t.id)).1 < 0 := by omega
      simp only [if_neg hnonneg]
      exact ⟨_, _, rfl, hid, hstand, .inl ⟨rfl, hmore⟩⟩
  · rw [if_neg hext]
    exact ⟨_, _, rfl, rfl, hstanding, .inr ⟨by simp [txnRoute, txnWalk], hholds⟩⟩

lemma walk_inScope {external : Txn → Bool} (chanId : ℕ) (msg : ChannelMsg) (vmo : ℕ → Bool)
    {stack : List Txn} (h : ∀ t ∈ stack, external t = false) :
    (txnWalk external chanId msg vmo stack).2 = stack := by
  induction stack with
  | nil => rfl
  | cons t outer ih =>
    have ht : ¬external t = true := by simp [h t mem_cons_self]
    have houter := ih fun t' ht' => h t' (mem_cons_of_mem _ ht')
    simp only [txnWalk, if_neg ht, houter]

lemma chanSend_route (c : Channel) (pid : ℤ) (msg : ChannelMsg) (timeoutNs : ℕ)
    (htype : msg.header.typeHash = c.typeHash) (layers : List TxnLayer) :
    (chanSend c pid msg timeoutNs false layers).1 = .buffered ↔ txnRoute layers = .ok true := by
  have hlive := chanSend_live_ne_buffered c pid msg timeoutNs false
  simp only [chanSend, htype, ne_eq, not_true_eq_false, if_false, Bool.false_eq_true,
    txnRoute] at hlive ⊢
  rcases txnRoute layers with rc | b
  · simp
  · cases b with
    | true => simp
    | false => simpa using hlive

end GrahaOS.Transactions
