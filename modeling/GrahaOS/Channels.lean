import GrahaOS.RingBuffer
import GrahaOS.Token

/-!
# Message channels

`kernel/ipc/channel.c`: sending, receiving, freezing and thawing one channel, whose ring is a
`RingBuf`. `chan_check` holds of every live channel and the waiter lists only decide who runs next;
neither appears. A call that has to wait ends here with `blocks`, and the turn of the loop it makes
when it is woken is a step of its own.
-/

namespace GrahaOS.Channels

open RingBuffer Token

def chanMsgInlineMax : ℕ := 256
def chanMsgHandlesMax : ℕ := 8
def chanCapacityMax : ℕ := 4096

def chanThawKeep : ℕ := 0xFFFFFFFF

inductive ChanMode
  | blocking | nonblocking
deriving DecidableEq

/-- `chan_msg_header_t`. -/
structure MsgHeader where
  seq : ℕ
  typeHash : BitVec 64
  senderPid : BitVec 32
  inlineLen : ℕ
  nhandles : ℕ
  flags : BitVec 8
  timestampTsc : BitVec 64
deriving DecidableEq

/-- `channel_msg_t`. -/
structure ChannelMsg where
  header : MsgHeader
  inlinePayload : Fin chanMsgInlineMax → UInt8
  inFlightIdx : Fin chanMsgHandlesMax → ℕ
deriving DecidableEq

/-- `channel_t`. -/
structure Channel where
  mode : ChanMode
  typeHash : BitVec 64
  ring : RingBuf ChannelMsg
  refcount : ℕ
  seqNext : ℕ
  totalSends : ℕ
  totalRecvs : ℕ
  rejectedMessages : ℕ
  frozenAtSnap : ℕ
  savedHead : ℕ
  savedTail : ℕ
  savedMsgcount : ℕ

/-- A slot of a zeroed ring. -/
def zeroMsg : ChannelMsg where
  header := ⟨0, 0#64, 0#32, 0, 0, 0#8, 0#64⟩
  inlinePayload := fun _ => 0
  inFlightIdx := fun _ => 0

/-- The fields that `chan_create` and `chan_create_kernel` both set. -/
def freshChannel (typeHash : BitVec 64) (mode : ChanMode) (capacity : ℕ) (hpos : 0 < capacity) :
    Channel where
  mode := mode
  typeHash := typeHash
  ring := RingBuf.empty capacity hpos zeroMsg
  refcount := 2
  seqNext := 0
  totalSends := 0
  totalRecvs := 0
  rejectedMessages := 0
  frozenAtSnap := 0
  savedHead := 0
  savedTail := 0
  savedMsgcount := 0

/-- `chan_create_kernel`; `slab` and `heap` are the outcomes of its two allocations. -/
def chanCreateKernel (typeHash : BitVec 64) (mode : ChanMode) (capacity : ℕ)
    (slab heap : Bool) : Option Channel :=
  if h : 0 < capacity ∧ capacity ≤ chanCapacityMax then
    if slab && heap then some (freshChannel typeHash mode capacity h.1) else none
  else none

/-- How a call on a channel ends. -/
inductive Outcome
  | sent (msg : ChannelMsg)
  | got (msg : ChannelMsg)
  | buffered
  | code (rc : ℤ)
  | blocks
deriving DecidableEq

def Outcome.error (e : CapError) : Outcome := .code e.code

/-- What a sender's transaction does with a message: the peer is in its scope, the
message is appended to its buffer, or the append fails. -/
inductive TxnLayer
  | inScope
  | appended
  | refused (rc : ℤ)
deriving DecidableEq

/-- The walk over the sender's transactions, innermost first: the error of the first
append that fails, otherwise whether any transaction buffered the message. -/
def txnRoute : List TxnLayer → Except ℤ Bool
  | [] => .ok false
  | .inScope :: rest => txnRoute rest
  | .appended :: rest => (txnRoute rest).map fun _ => true
  | .refused rc :: _ => .error rc

/-- The message as the kernel stores it. -/
def stamp (msg : ChannelMsg) (senderId : ℤ) (seq : ℕ) : ChannelMsg :=
  { msg with header := { msg.header with senderPid := BitVec.ofInt 32 senderId, seq := seq } }

variable (c : Channel)

/-- One turn of the loop of `chan_send`, under the channel lock. -/
def chanSendTurn (senderId : ℤ) (msg : ChannelMsg) (timeoutNs : ℕ) : Outcome × Channel :=
  if c.frozenAtSnap ≠ 0 then (.error .efrozen, c)
  else if hroom : c.ring.count < c.ring.capacity then
    let stored := stamp msg senderId c.seqNext
    (.sent stored, { c with
      ring := c.ring.push stored hroom
      seqNext := (c.seqNext + 1) % 2 ^ 64
      totalSends := c.totalSends + 1 })
  else if c.mode = .nonblocking ∨ timeoutNs = 0 then (.error .eagain, c)
  else (.blocks, c)

/-- `chan_send` up to the end of its first turn. `fault` is the fault injection hook
firing; `layers` are the sender's transactions, none while it is replaying. -/
def chanSend (senderId : ℤ) (msg : ChannelMsg) (timeoutNs : ℕ) (fault : Bool)
    (layers : List TxnLayer) : Outcome × Channel :=
  if fault then (.error .eagain, c)
  else if msg.header.typeHash ≠ c.typeHash then
    (.error .eprototype, { c with rejectedMessages := c.rejectedMessages + 1 })
  else match txnRoute layers with
    | .error rc => (.code rc, c)
    | .ok true => (.buffered, c)
    | .ok false => chanSendTurn c senderId msg timeoutNs

/-- The `memset` on the slot a message is received from. -/
def clearHandles (msg : ChannelMsg) : ChannelMsg := { msg with inFlightIdx := fun _ => 0 }

/-- One turn of the loop of `chan_recv`, under the channel lock. -/
def chanRecv (timeoutNs : ℕ) : Outcome × Channel :=
  if c.frozenAtSnap ≠ 0 then (.error .efrozen, c)
  else if hsome : 0 < c.ring.count then
    (.got c.ring.front, { c with
      ring := c.ring.pop clearHandles hsome
      totalRecvs := c.totalRecvs + 1 })
  else if c.refcount < 2 then (.error .epipe, c)
  else if c.mode = .nonblocking ∨ timeoutNs = 0 then (.error .eagain, c)
  else (.blocks, c)

def chanFreezeLocked (snapId : ℕ) : Outcome × Channel :=
  if snapId = 0 then (.error .einval, c)
  else if c.frozenAtSnap ≠ 0 ∧ c.frozenAtSnap ≠ snapId then (.error .ebusy, c)
  else (.code 0, { c with
    frozenAtSnap := snapId
    savedHead := c.ring.head
    savedTail := c.ring.tail
    savedMsgcount := c.ring.count })

def chanThawLocked (restoreHead restoreTail : ℕ) : Outcome × Channel :=
  if c.frozenAtSnap = 0 then (.error .einval, c)
  else if restoreHead ≠ chanThawKeep ∧ restoreTail ≠ chanThawKeep then
    (.code 0, { c with frozenAtSnap := 0, ring := c.ring.reposition restoreHead restoreTail })
  else (.code 0, { c with frozenAtSnap := 0 })

/-- The calls on one channel, each one turn under its lock. -/
inductive ChanOp
  | send (senderId : ℤ) (msg : ChannelMsg) (timeoutNs : ℕ) (fault : Bool)
  | resend (senderId : ℤ) (msg : ChannelMsg) (timeoutNs : ℕ)
  | recv (timeoutNs : ℕ)
  | freeze (snapId : ℕ)
  | thaw (restoreHead restoreTail : ℕ)

/-- One call by a task that is in no transaction. -/
def perform : ChanOp → Outcome × Channel
  | .send senderId msg timeoutNs fault => chanSend c senderId msg timeoutNs fault []
  | .resend senderId msg timeoutNs => chanSendTurn c senderId msg timeoutNs
  | .recv timeoutNs => chanRecv c timeoutNs
  | .freeze snapId => chanFreezeLocked c snapId
  | .thaw restoreHead restoreTail => chanThawLocked c restoreHead restoreTail

end GrahaOS.Channels
