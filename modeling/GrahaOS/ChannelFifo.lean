import GrahaOS.Channels
import GrahaOS.Runs

/-!
# A channel is a bounded queue

The abstract channel is a bounded queue of messages with a freeze mark and a sequence counter. Every
call on the ring ends as the same call on the queue does and leaves a ring that holds the queue,
provided a thaw puts back the queue it saved.
-/

namespace GrahaOS.ChannelFifo

open RingBuffer Channels Runs List

/-- A channel as its two ends see it. -/
@[ext]
structure Queue where
  fifo : Fifo ChannelMsg
  mode : ChanMode
  typeHash : BitVec 64
  refcount : ℕ
  seqNext : ℕ
  frozenAtSnap : ℕ

variable (c : Channel)

def abstraction : Queue where
  fifo := c.ring.toFifo
  mode := c.mode
  typeHash := c.typeHash
  refcount := c.refcount
  seqNext := c.seqNext
  frozenAtSnap := c.frozenAtSnap

/-- The end of a call that finds nothing to do: it fails or waits. -/
def waitOrFail (mode : ChanMode) (timeoutNs : ℕ) : Outcome :=
  if mode = .nonblocking ∨ timeoutNs = 0 then .error .eagain else .blocks

def Queue.send (q : Queue) (senderId : ℤ) (msg : ChannelMsg) (timeoutNs : ℕ) : Outcome × Queue :=
  if q.frozenAtSnap ≠ 0 then (.error .efrozen, q)
  else match q.fifo.enqueue (stamp msg senderId q.seqNext) with
    | some fifo => (.sent (stamp msg senderId q.seqNext),
        { q with fifo := fifo, seqNext := (q.seqNext + 1) % 2 ^ 64 })
    | none => (waitOrFail q.mode timeoutNs, q)

def Queue.recv (q : Queue) (timeoutNs : ℕ) : Outcome × Queue :=
  if q.frozenAtSnap ≠ 0 then (.error .efrozen, q)
  else match q.fifo.dequeue with
    | some (msg, fifo) => (.got msg, { q with fifo := fifo })
    | none => (if q.refcount < 2 then .error .epipe else waitOrFail q.mode timeoutNs, q)

def Queue.freeze (q : Queue) (snapId : ℕ) : Outcome × Queue :=
  if snapId = 0 then (.error .einval, q)
  else if q.frozenAtSnap ≠ 0 ∧ q.frozenAtSnap ≠ snapId then (.error .ebusy, q)
  else (.code 0, { q with frozenAtSnap := snapId })

def Queue.thaw (q : Queue) : Outcome × Queue :=
  if q.frozenAtSnap = 0 then (.error .einval, q) else (.code 0, { q with frozenAtSnap := 0 })

/-- The calls on the abstract channel. -/
def Queue.perform (q : Queue) : ChanOp → Outcome × Queue
  | .send senderId msg timeoutNs fault =>
    if fault then (.error .eagain, q)
    else if msg.header.typeHash ≠ q.typeHash then (.error .eprototype, q)
    else q.send senderId msg timeoutNs
  | .resend senderId msg timeoutNs => q.send senderId msg timeoutNs
  | .recv timeoutNs => q.recv timeoutNs
  | .freeze snapId => q.freeze snapId
  | .thaw _ _ => q.thaw

/-- While a channel is frozen the saved positions are the ones it has. -/
def SavedCurrent : Prop :=
  c.frozenAtSnap ≠ 0 →
    c.savedHead = c.ring.head ∧ c.savedTail = c.ring.tail ∧ c.savedMsgcount = c.ring.count

/-- A thaw keeps the saved queue: it is told to leave the positions alone, or the
positions it restores, with the count it derives from them, are the saved ones. -/
def KeepsSaved : ChanOp → Prop
  | .thaw restoreHead restoreTail =>
    restoreHead = chanThawKeep ∨ restoreTail = chanThawKeep ∨
      ((c.ring.reposition restoreHead restoreTail).head = c.savedHead ∧
        (c.ring.reposition restoreHead restoreTail).tail = c.savedTail ∧
        (c.ring.reposition restoreHead restoreTail).count = c.savedMsgcount)
  | _ => True

instance keepsSavedDecidable : ∀ op, Decidable (KeepsSaved c op)
  | .thaw _ _ => by unfold KeepsSaved; infer_instance
  | .send _ _ _ _ | .resend _ _ _ | .recv _ | .freeze _ => .isTrue trivial

/-- The call on the ring and the call on the queue end alike. -/
def Agrees (r : Outcome × Channel) (q : Outcome × Queue) : Prop :=
  r.1 = q.1 ∧ abstraction r.2 = q.2

lemma chanSendTurn_agrees (senderId : ℤ) (msg : ChannelMsg) (timeoutNs : ℕ) :
    Agrees (chanSendTurn c senderId msg timeoutNs)
      ((abstraction c).send senderId msg timeoutNs) := by
  unfold chanSendTurn Queue.send
  have habs : (abstraction c).frozenAtSnap = c.frozenAtSnap := rfl
  rw [habs]
  by_cases hfrozen : c.frozenAtSnap ≠ 0
  · rw [if_pos hfrozen, if_pos hfrozen]
    exact ⟨rfl, rfl⟩
  rw [if_neg hfrozen, if_neg hfrozen]
  by_cases hroom : c.ring.count < c.ring.capacity
  · have henq : (abstraction c).fifo.enqueue (stamp msg senderId (abstraction c).seqNext) =
        some (c.ring.push (stamp msg senderId c.seqNext) hroom).toFifo :=
      c.ring.toFifo_push _ hroom
    rw [dif_pos hroom, henq]
    exact ⟨rfl, rfl⟩
  · have henq : (abstraction c).fifo.enqueue (stamp msg senderId (abstraction c).seqNext) =
        none := c.ring.toFifo_enqueue_none _ hroom
    rw [dif_neg hroom, henq]
    simp only [waitOrFail]
    have hmode : (abstraction c).mode = c.mode := rfl
    rw [hmode]
    split_ifs <;> exact ⟨rfl, rfl⟩

lemma chanSend_agrees (senderId : ℤ) (msg : ChannelMsg) (timeoutNs : ℕ)
    (fault : Bool) :
    Agrees (chanSend c senderId msg timeoutNs fault [])
      ((abstraction c).perform (.send senderId msg timeoutNs fault)) := by
  unfold chanSend Queue.perform
  have htype : (abstraction c).typeHash = c.typeHash := rfl
  simp only [htype, txnRoute]
  split_ifs
  · exact ⟨rfl, rfl⟩
  · exact ⟨rfl, rfl⟩
  · exact chanSendTurn_agrees c senderId msg timeoutNs

lemma chanRecv_agrees (timeoutNs : ℕ) :
    Agrees (chanRecv c timeoutNs) ((abstraction c).recv timeoutNs) := by
  unfold chanRecv Queue.recv
  have habs : (abstraction c).frozenAtSnap = c.frozenAtSnap := rfl
  rw [habs]
  by_cases hfrozen : c.frozenAtSnap ≠ 0
  · rw [if_pos hfrozen, if_pos hfrozen]
    exact ⟨rfl, rfl⟩
  rw [if_neg hfrozen, if_neg hfrozen]
  by_cases hsome : 0 < c.ring.count
  · have hdeq : (abstraction c).fifo.dequeue =
        some (c.ring.front, (c.ring.pop clearHandles hsome).toFifo) :=
      c.ring.toFifo_pop clearHandles hsome
    rw [dif_pos hsome, hdeq]
    exact ⟨rfl, rfl⟩
  · have hdeq : (abstraction c).fifo.dequeue = none := c.ring.toFifo_dequeue_none hsome
    rw [dif_neg hsome, hdeq]
    simp only [waitOrFail]
    have hmode : (abstraction c).mode = c.mode := rfl
    have hrefs : (abstraction c).refcount = c.refcount := rfl
    rw [hmode, hrefs]
    split_ifs <;> exact ⟨rfl, rfl⟩

lemma chanFreezeLocked_agrees (snapId : ℕ) :
    Agrees (chanFreezeLocked c snapId) ((abstraction c).freeze snapId) := by
  unfold chanFreezeLocked Queue.freeze
  have hfrozen : (abstraction c).frozenAtSnap = c.frozenAtSnap := rfl
  rw [hfrozen]
  split_ifs <;> exact ⟨rfl, rfl⟩

variable {c : Channel} {op : ChanOp}

lemma chanThawLocked_agrees {restoreHead restoreTail : ℕ} (hsaved : SavedCurrent c)
    (hkeeps : KeepsSaved c (.thaw restoreHead restoreTail)) :
    Agrees (chanThawLocked c restoreHead restoreTail) (abstraction c).thaw := by
  unfold chanThawLocked Queue.thaw
  have hfrozen : (abstraction c).frozenAtSnap = c.frozenAtSnap := rfl
  rw [hfrozen]
  split_ifs with hlive hrestore
  · exact ⟨rfl, rfl⟩
  · rcases hkeeps with hhead | htail | ⟨hhead, -, hcount⟩
    · exact absurd hhead hrestore.1
    · exact absurd htail hrestore.2
    · have hcontents : (c.ring.reposition restoreHead restoreTail).contents = c.ring.contents :=
        c.ring.contents_reposition (hhead.trans (hsaved hlive).1)
          (hcount.trans (hsaved hlive).2.2)
      refine ⟨rfl, ?_⟩
      have hfifo : (c.ring.reposition restoreHead restoreTail).toFifo = c.ring.toFifo :=
        Fifo.ext rfl hcontents
      simp only [abstraction, hfifo]
  · exact ⟨rfl, rfl⟩

/-- Every call that keeps the saved queue does to the ring what it does to the queue. -/
theorem perform_agrees (hsaved : SavedCurrent c) (hkeeps : KeepsSaved c op) :
    Agrees (perform c op) ((abstraction c).perform op) := by
  cases op with
  | send senderId msg timeoutNs fault => exact chanSend_agrees c senderId msg timeoutNs fault
  | resend senderId msg timeoutNs => exact chanSendTurn_agrees c senderId msg timeoutNs
  | recv timeoutNs => exact chanRecv_agrees c timeoutNs
  | freeze snapId => exact chanFreezeLocked_agrees c snapId
  | thaw restoreHead restoreTail => exact chanThawLocked_agrees hsaved hkeeps

/-- A call on a frozen channel other than a thaw leaves the ring alone. -/
theorem perform_frozen (hfrozen : c.frozenAtSnap ≠ 0) (hop : ∀ h t, op ≠ .thaw h t) :
    (perform c op).2.ring = c.ring := by
  have hsend : ∀ senderId msg timeoutNs, (chanSendTurn c senderId msg timeoutNs).2 = c := by
    intro senderId msg timeoutNs
    simp [chanSendTurn, hfrozen]
  cases op with
  | send senderId msg timeoutNs fault =>
    simp only [perform, chanSend, txnRoute]
    split_ifs
    · rfl
    · rfl
    · rw [hsend]
  | resend senderId msg timeoutNs => simp only [perform, hsend]
  | recv timeoutNs => simp [perform, chanRecv, hfrozen]
  | freeze snapId =>
    simp only [perform, chanFreezeLocked]
    split_ifs <;> rfl
  | thaw restoreHead restoreTail => exact absurd rfl (hop restoreHead restoreTail)

lemma savedCurrent_perform (op : ChanOp) (hsaved : SavedCurrent c) :
    SavedCurrent (perform c op).2 := by
  have hsend : ∀ senderId msg timeoutNs,
      SavedCurrent (chanSendTurn c senderId msg timeoutNs).2 := by
    intro senderId msg timeoutNs
    unfold chanSendTurn
    split_ifs with hfrozen
    · exact hsaved
    · exact fun hnow => absurd hnow hfrozen
    · exact hsaved
    · exact hsaved
  cases op with
  | send senderId msg timeoutNs fault =>
    simp only [perform, chanSend, txnRoute]
    split_ifs
    · exact hsaved
    · exact hsaved
    · exact hsend senderId msg timeoutNs
  | resend senderId msg timeoutNs => exact hsend senderId msg timeoutNs
  | recv timeoutNs =>
    simp only [perform, chanRecv]
    split_ifs with hfrozen
    · exact hsaved
    · exact fun hnow => absurd hnow hfrozen
    · exact hsaved
    · exact hsaved
    · exact hsaved
  | freeze snapId =>
    simp only [perform, chanFreezeLocked]
    split_ifs
    · exact hsaved
    · exact hsaved
    · exact fun _ => ⟨rfl, rfl, rfl⟩
  | thaw restoreHead restoreTail =>
    simp only [perform, chanThawLocked]
    split_ifs
    · exact hsaved
    · exact fun hnow => absurd rfl hnow
    · exact fun hnow => absurd rfl hnow

/-- A channel with the ends of all calls made on it so far, the latest last. -/
structure Session (σ : Type) where
  chan : σ
  log : List Outcome

/-- Make a call and log its end. -/
def advance {σ : Type} (perform : σ → ChanOp → Outcome × σ) (s : Session σ) (op : ChanOp) :
    Session σ :=
  ⟨(perform s.chan op).2, s.log ++ [(perform s.chan op).1]⟩

def ringStep : Session Channel → ChanOp → Session Channel := advance perform

def queueStep : Session Queue → ChanOp → Session Queue := advance Queue.perform

/-- The messages taken into the channel, in order. -/
def accepted (log : List Outcome) : List ChannelMsg :=
  log.filterMap fun
    | .sent msg => some msg
    | _ => none

/-- The messages handed out by the channel, in order. -/
def received (log : List Outcome) : List ChannelMsg :=
  log.filterMap fun
    | .got msg => some msg
    | _ => none

def SessionKeeps (s : Session Channel) (op : ChanOp) : Prop := KeepsSaved s.chan op

instance (s : Session Channel) (op : ChanOp) : Decidable (SessionKeeps s op) :=
  keepsSavedDecidable s.chan op

/-- The ring session and the queue session run in step. -/
theorem run_refines {s : Session Channel} {ops : List ChanOp} (hsaved : SavedCurrent s.chan)
    (hrun : Guarded ringStep SessionKeeps s ops) :
    (run ringStep s ops).log = (run queueStep ⟨abstraction s.chan, s.log⟩ ops).log ∧
    abstraction (run ringStep s ops).chan =
      (run queueStep ⟨abstraction s.chan, s.log⟩ ops).chan := by
  induction ops generalizing s with
  | nil => exact ⟨rfl, rfl⟩
  | cons op ops ih =>
    obtain ⟨houtcome, hstate⟩ := perform_agrees hsaved hrun.1
    have hnext : queueStep ⟨abstraction s.chan, s.log⟩ op =
        ⟨abstraction (ringStep s op).chan, (ringStep s op).log⟩ := by
      simp only [queueStep, ringStep, advance, houtcome, hstate]
    rw [run_cons, run_cons, hnext]
    exact ih (savedCurrent_perform op hsaved) hrun.2

/-- What a queue session has taken in it has handed out or still holds, and the sequence
numbers count the messages taken in. -/
structure Accounts (s : Session Queue) : Prop where
  balance : accepted s.log = received s.log ++ s.chan.fifo.queue
  numbered : (accepted s.log).map (·.header.seq) =
    (List.range (accepted s.log).length).map (· % 2 ^ 64)
  next : s.chan.seqNext = (accepted s.log).length % 2 ^ 64

variable {s : Session Queue}

lemma accepted_append (log log' : List Outcome) :
    accepted (log ++ log') = accepted log ++ accepted log' := filterMap_append

lemma received_append (log log' : List Outcome) :
    received (log ++ log') = received log ++ received log' := filterMap_append

lemma Accounts.idle (h : Accounts s) {outcome : Outcome} (hsent : accepted [outcome] = [])
    (hgot : received [outcome] = []) (frozen : ℕ) :
    Accounts ⟨{ s.chan with frozenAtSnap := frozen }, s.log ++ [outcome]⟩ := by
  have haccepted : accepted (s.log ++ [outcome]) = accepted s.log := by
    rw [accepted_append, hsent, append_nil]
  have hreceived : received (s.log ++ [outcome]) = received s.log := by
    rw [received_append, hgot, append_nil]
  exact ⟨by rw [haccepted, hreceived]; exact h.balance, by rw [haccepted]; exact h.numbered,
    by rw [haccepted]; exact h.next⟩

lemma Accounts.waits (h : Accounts s) (mode : ChanMode) (timeoutNs : ℕ) :
    Accounts ⟨s.chan, s.log ++ [waitOrFail mode timeoutNs]⟩ := by
  unfold waitOrFail
  split_ifs <;> exact h.idle rfl rfl _

lemma Accounts.send (h : Accounts s) (senderId : ℤ) (msg : ChannelMsg) (timeoutNs : ℕ) :
    Accounts ⟨(s.chan.send senderId msg timeoutNs).2,
      s.log ++ [(s.chan.send senderId msg timeoutNs).1]⟩ := by
  unfold Queue.send
  split_ifs with hfrozen
  · exact h.idle rfl rfl _
  cases henq : s.chan.fifo.enqueue (stamp msg senderId s.chan.seqNext) with
  | none => exact h.waits _ _
  | some fifo =>
  obtain ⟨-, -, hqueue⟩ := Fifo.enqueue_eq_some.mp henq
  have haccepted : accepted (s.log ++ [.sent (stamp msg senderId s.chan.seqNext)]) =
      accepted s.log ++ [stamp msg senderId s.chan.seqNext] := accepted_append ..
  have hreceived : received (s.log ++ [.sent (stamp msg senderId s.chan.seqNext)]) =
      received s.log := by simp [received]
  refine ⟨?_, ?_, ?_⟩
  · rw [haccepted, hreceived, hqueue, h.balance, append_assoc]
  · rw [haccepted, map_append, h.numbered, length_append, length_singleton, range_succ, map_append]
    simp [stamp, h.next]
  · rw [haccepted, length_append, length_singleton]
    rw [h.next, Nat.mod_add_mod]

lemma Accounts.recv (h : Accounts s) (timeoutNs : ℕ) :
    Accounts ⟨(s.chan.recv timeoutNs).2, s.log ++ [(s.chan.recv timeoutNs).1]⟩ := by
  unfold Queue.recv
  by_cases hfrozen : s.chan.frozenAtSnap ≠ 0
  · rw [if_pos hfrozen]
    exact h.idle rfl rfl _
  rw [if_neg hfrozen]
  rcases hdeq : s.chan.fifo.dequeue with _ | ⟨msg, fifo⟩
  · split_ifs
    · exact h.idle rfl rfl _
    · exact h.waits _ _
  obtain ⟨-, hqueue⟩ := Fifo.dequeue_eq_some.mp hdeq
  have haccepted : accepted (s.log ++ [.got msg]) = accepted s.log := by simp [accepted]
  have hreceived : received (s.log ++ [.got msg]) = received s.log ++ [msg] := by
    simp [received]
  refine ⟨?_, by rw [haccepted]; exact h.numbered, by rw [haccepted]; exact h.next⟩
  rw [haccepted, hreceived, h.balance, hqueue, append_assoc]
  rfl

lemma accounts_step (s : Session Queue) (op : ChanOp) (h : Accounts s) :
    Accounts (queueStep s op) := by
  cases op with
  | send senderId msg timeoutNs fault =>
    simp only [queueStep, advance, Queue.perform]
    split_ifs
    · exact h.idle rfl rfl _
    · exact h.idle rfl rfl _
    · exact h.send senderId msg timeoutNs
  | resend senderId msg timeoutNs => exact h.send senderId msg timeoutNs
  | recv timeoutNs => exact h.recv timeoutNs
  | freeze snapId =>
    simp only [queueStep, advance, Queue.perform, Queue.freeze]
    split_ifs <;> exact h.idle rfl rfl _
  | thaw restoreHead restoreTail =>
    simp only [queueStep, advance, Queue.perform, Queue.thaw]
    split_ifs <;> exact h.idle rfl rfl _

/-- Numbers below `2 ^ 64` are their own remainders, so they increase as they are counted. -/
lemma seq_increasing (h : Accounts s) (hshort : (accepted s.log).length ≤ 2 ^ 64) :
    ((accepted s.log).map (·.header.seq)).Pairwise (· < ·) := by
  rw [h.numbered, pairwise_map]
  refine pairwise_lt_range.imp_of_mem ?_
  intro i j hi hj hlt
  have hj' := mem_range.mp hj
  rw [Nat.mod_eq_of_lt (by omega), Nat.mod_eq_of_lt (by omega)]
  exact hlt

/-- Every session on a new channel, of any capacity and with any interleaving of calls
whose thaws keep the saved queue, is a session on a bounded queue: the calls end alike
and the ring holds the queue. What was received is a prefix of what was sent, in order
and each once; the numbers of the messages sent increase (up to the width of the
counter); the count is at most the capacity and is the distance from head to tail; and
a frozen ring is changed by nothing but a thaw. -/
theorem channel_refines_bounded_fifo {typeHash : BitVec 64} {mode : ChanMode} {capacity : ℕ}
    {hpos : 0 < capacity} {ops : List ChanOp} {s : Session Channel}
    (hrun : Guarded ringStep SessionKeeps ⟨freshChannel typeHash mode capacity hpos, []⟩ ops)
    (hs : s = run ringStep ⟨freshChannel typeHash mode capacity hpos, []⟩ ops) :
    (s.log = (run queueStep ⟨abstraction (freshChannel typeHash mode capacity hpos), []⟩ ops).log ∧
      abstraction s.chan =
        (run queueStep ⟨abstraction (freshChannel typeHash mode capacity hpos), []⟩ ops).chan) ∧
    accepted s.log = received s.log ++ s.chan.ring.contents ∧
    ((accepted s.log).length ≤ 2 ^ 64 →
      ((accepted s.log).map (·.header.seq)).Pairwise (· < ·)) ∧
    (s.chan.ring.count ≤ s.chan.ring.capacity ∧
      s.chan.ring.tail = (s.chan.ring.head + s.chan.ring.count) % s.chan.ring.capacity) ∧
    (∀ op, s.chan.frozenAtSnap ≠ 0 → (∀ h t, op ≠ .thaw h t) →
      (ringStep s op).chan.ring = s.chan.ring) := by
  have hsaved : SavedCurrent (freshChannel typeHash mode capacity hpos) := fun h => absurd rfl h
  obtain ⟨hlog, hchan⟩ := run_refines hsaved hrun
  have haccounts := invariant_run_all Accounts accounts_step
    (s := ⟨abstraction (freshChannel typeHash mode capacity hpos), []⟩) ⟨rfl, rfl, rfl⟩ ops
  rw [← hs] at hlog hchan
  refine ⟨⟨hlog, hchan⟩, ?_, ?_, ⟨s.chan.ring.count_le, s.chan.ring.tail_eq⟩, ?_⟩
  · rw [hlog, haccounts.balance, ← hchan]
    rfl
  · rw [hlog]
    exact seq_increasing haccounts
  · intro op hfrozen hop
    exact perform_frozen hfrozen hop

/-- A message of the type with hash 7. -/
def hello : ChannelMsg := { zeroMsg with header := { zeroMsg.header with typeHash := 7#64 } }

/-- Two sends and a receive wrap a ring of two slots around a freeze and a thaw that
restores the saved positions. -/
def wrapAround : List ChanOp :=
  [.send 1 hello 0 false, .recv 0, .send 1 hello 0 false, .freeze 3, .recv 0, .thaw 1 0, .recv 0]

theorem wrapAround_in_order :
    ∃ s, s = run ringStep ⟨freshChannel 7#64 .blocking 2 (by decide), []⟩ wrapAround ∧
      accepted s.log = received s.log ++ s.chan.ring.contents ∧
      received s.log = [stamp hello 1 0, stamp hello 1 1] := by
  refine ⟨_, rfl, ?_, rfl⟩
  exact (channel_refines_bounded_fifo (by decide) rfl).2.1

/-- A thaw with the positions that the freeze saved. -/
def thawSaved (c : Channel) : Outcome × Channel := chanThawLocked c c.savedHead c.savedTail

/-- A channel frozen by a snapshot and thawed with the saved positions. -/
def freezeAndThaw (c : Channel) (snapId : ℕ) : Outcome × Channel :=
  thawSaved (chanFreezeLocked c snapId).2

/-- The saved positions of a ring are below its capacity, so none of them is read as the
mark that tells a thaw to leave the ring alone. -/
lemma freezeAndThaw_ring {snapId : ℕ} (hfreeze : (chanFreezeLocked c snapId).1 = .code 0)
    (hcap : c.ring.capacity ≤ chanCapacityMax) :
    (freezeAndThaw c snapId).1 = .code 0 ∧
    (freezeAndThaw c snapId).2.ring = c.ring.reposition c.ring.head c.ring.tail := by
  have hsmall : chanCapacityMax < chanThawKeep := by decide
  have hhead := c.ring.head_lt
  have htail : c.ring.tail < c.ring.capacity := by
    rw [c.ring.tail_eq]
    exact Nat.mod_lt _ c.ring.capacity_pos
  have hpositions : c.ring.head ≠ chanThawKeep ∧ c.ring.tail ≠ chanThawKeep := by omega
  unfold chanFreezeLocked at hfreeze
  split_ifs at hfreeze with hzero hbusy
  · cases hfreeze
  · cases hfreeze
  · simp only [freezeAndThaw, thawSaved, chanFreezeLocked, if_neg hzero, if_neg hbusy,
      chanThawLocked, if_pos hpositions]
    exact ⟨trivial, trivial⟩

/-- Freezing a channel and thawing it with the saved positions gives back its queue, with
the messages in order and their count, exactly if the ring was not full. -/
theorem freeze_thaw_keeps_queue {c : Channel} {snapId : ℕ}
    (hfreeze : (chanFreezeLocked c snapId).1 = .code 0) (hcap : c.ring.capacity ≤ chanCapacityMax) :
    ((freezeAndThaw c snapId).2.ring.contents = c.ring.contents ∧
      (freezeAndThaw c snapId).2.ring.count = c.ring.count) ↔
    c.ring.count < c.ring.capacity := by
  rw [(freezeAndThaw_ring hfreeze hcap).2]
  have hcount := c.ring.count_reposition_self
  constructor
  · rintro ⟨-, hsame⟩
    have hpos := c.ring.capacity_pos
    by_contra hfull
    rw [if_neg hfull] at hcount
    omega
  · intro hroom
    rw [if_pos hroom] at hcount
    exact ⟨c.ring.contents_reposition (Nat.mod_eq_of_lt c.ring.head_lt) hcount, hcount⟩

/-- A channel with one slot that holds one message. -/
def fullOfOne : Channel :=
  (chanSendTurn (freshChannel 7#64 .blocking 1 Nat.one_pos) 1 hello 0).2

/-- A channel with two slots whose only message is in the second. -/
def wrapped : Channel :=
  (run ringStep ⟨freshChannel 7#64 .blocking 2 (by decide), []⟩
    [.send 1 hello 0 false, .recv 0, .send 1 hello 0 false]).chan

theorem wrapped_queue_is_kept :
    wrapped.ring.tail < wrapped.ring.head ∧
      (freezeAndThaw wrapped 3).2.ring.contents = wrapped.ring.contents ∧
      (freezeAndThaw wrapped 3).2.ring.count = wrapped.ring.count :=
  ⟨by decide, (freeze_thaw_keeps_queue (by decide) (by decide)).mpr (by decide)⟩

/-- The message of a full ring is gone after the thaw. -/
theorem full_ring_is_thawed_empty :
    fullOfOne.ring.contents = [stamp hello 1 0] ∧
      (chanFreezeLocked fullOfOne 3).1 = .code 0 ∧
      (freezeAndThaw fullOfOne 3).1 = .code 0 ∧
      (freezeAndThaw fullOfOne 3).2.ring.contents = [] := by
  refine ⟨rfl, rfl, rfl, rfl⟩

end GrahaOS.ChannelFifo
