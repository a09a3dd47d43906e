import GrahaOS.Channels
import GrahaOS.HandleTable

/-!
# Passing handles in messages

`SYS_CHAN_SEND` and `SYS_CHAN_RECV` with the marshalling of `kernel/ipc/channel.c`. A sender's
tokens are resolved, their object indices are put into the message and the sender's entries for them
are removed, by a scan that may find nothing; the receiver's table gets an entry for each index. A
send that has to wait for room keeps its message in the kernel; a wake fails the call or lets it
make another turn.
-/

namespace GrahaOS.HandlePassing

open Token CapRegistry Channels HandleTable
open scoped BigOperators

inductive Direction
  | read | write
deriving DecidableEq

/-- `chan_endpoint_t`. -/
structure ChanEndpoint where
  channel : ℕ
  direction : Direction
  currentHolderPid : ℤ

/-- `chan_msg_user_t`. -/
structure UserMsg where
  header : MsgHeader
  inlinePayload : Fin chanMsgInlineMax → UInt8
  handles : Fin chanMsgHandlesMax → CapToken

/-- A message whose send waits for room in the ring. -/
structure WaitingSend where
  pid : ℤ
  channel : ℕ
  msg : ChannelMsg
  timeoutNs : ℕ

/-- The state the two system calls work on. Endpoints are found by the `kind_data` of
their capability object. -/
structure World where
  reg : Registry
  tasks : Finset ℤ
  tables : ℤ → Table
  endpoints : ℕ → Option ChanEndpoint
  live : Finset ℕ
  chans : ℕ → Channel
  waiting : List WaitingSend

/-- The tokens of a message that `nhandles` announces. -/
def sentTokens (m : UserMsg) : List CapToken := (List.ofFn m.handles).take m.header.nhandles

/-- Phase 1: every token must resolve; what is staged is its index field. -/
def resolveHandles (reg : Registry) (senderId : ℤ) : List CapToken → Except CapError (List ℕ)
  | [] => .ok []
  | tok :: rest =>
    match capTokenResolve reg senderId tok 0#64 with
    | none => .error .eperm
    | some _ => (resolveHandles reg senderId rest).map (capTokenIdx tok :: ·)

/-- The first slot of the table that refers to the object. -/
def findHandle (t : Table) (objectIdx : ℕ) : Option ℕ :=
  (List.range t.capacity).find? fun slot =>
    (capHandleLookup t slot).any fun e => e.objectIdx = objectIdx

def removeByObject (t : Table) (objectIdx : ℕ) : Table :=
  match findHandle t objectIdx with
  | none => t
  | some slot => (capHandleRemove t slot).2

/-- Phase 2. -/
def removeHandles (t : Table) (objectIdxs : List ℕ) : Table := objectIdxs.foldl removeByObject t

/-- The staged message; `stack` is what the uninitialised buffer held. -/
def stagedMsg (m : UserMsg) (objectIdxs : List ℕ) (stack : Fin chanMsgInlineMax → UInt8) :
    ChannelMsg where
  header := m.header
  inlinePayload := fun k => if k < m.header.inlineLen then m.inlinePayload k else stack k
  inFlightIdx := fun i => objectIdxs.getD i 0

def chanMarshalSend (reg : Registry) (senderId : ℤ) (t : Table) (m : UserMsg)
    (stack : Fin chanMsgInlineMax → UInt8) : Except CapError (ChannelMsg × Table) :=
  if chanMsgInlineMax < m.header.inlineLen then .error .einval
  else if chanMsgHandlesMax < m.header.nhandles then .error .einval
  else match resolveHandles reg senderId (sentTokens m) with
    | .error e => .error e
    | .ok objectIdxs => .ok (stagedMsg m objectIdxs stack, removeHandles t objectIdxs)

/-- What the insertion loop of `chan_marshal_recv` has done when it ends: its return
code, the table, the tokens written and the objects whose holder it has changed. -/
structure Inserted where
  rc : ℤ
  table : Table
  tokens : List CapToken
  passed : List ℕ

/-- The token handed to the receiver. -/
def tokenFor (reg : Registry) (objectIdx : ℕ) : CapToken :=
  match reg.ptrs objectIdx with
  | some o => capTokenPack o.generation objectIdx 0#8
  | none => capTokenPack 0#32 objectIdx 0#8

/-- Undo the insertions made so far. -/
def rollback (t : Table) (slots : List ℕ) : Table :=
  slots.foldl (fun t slot => (capHandleRemove t slot).2) t

/-- The insertion loop at position `i`; `heap` is the outcome of the allocation that a
growing table needs there. -/
def insertHandles (reg : Registry) (heap : ℕ → Bool) : List ℕ → ℕ → Table → List ℕ → Inserted
  | [], _, t, _ => ⟨0, t, [], []⟩
  | objectIdx :: rest, i, t, inserted =>
    if objectIdx = 0 then
      let r := insertHandles reg heap rest (i + 1) t inserted
      { r with tokens := ⟨0#64⟩ :: r.tokens }
    else
      let ins := capHandleInsert t objectIdx 0#8 (heap i)
      if ins.1 < 0 then ⟨ins.1, rollback ins.2.2 inserted, [], []⟩
      else
        let r := insertHandles reg heap rest (i + 1) ins.2.2 (inserted ++ [ins.2.1])
        { r with tokens := tokenFor reg objectIdx :: r.tokens, passed := objectIdx :: r.passed }

/-- `chan_marshal_recv`: the loop and the message left at the receiver's pointer. -/
def chanMarshalRecv (reg : Registry) (t : Table) (slot : ChannelMsg) (userMsg : UserMsg)
    (heap : ℕ → Bool) : Inserted × UserMsg :=
  let r := insertHandles reg heap ((List.ofFn slot.inFlightIdx).take slot.header.nhandles) 0 t []
  (r, { header := slot.header
        inlinePayload := fun k =>
          if k < slot.header.inlineLen then slot.inlinePayload k else userMsg.inlinePayload k
        handles := fun i => r.tokens.getD i ⟨0#64⟩ })

/-- The endpoints among the objects passed are now held by the receiver. -/
def passEndpoints (reg : Registry) (receiverId : ℤ) (endpoints : ℕ → Option ChanEndpoint)
    (passed : List ℕ) : ℕ → Option ChanEndpoint :=
  passed.foldl (fun eps objectIdx =>
    match reg.ptrs objectIdx with
    | some o =>
      if o.kind = .channel ∧ o.kindData ≠ 0 then
        Function.update eps o.kindData ((eps o.kindData).map fun ep =>
          { ep with currentHolderPid := receiverId })
      else eps
    | none => eps) endpoints

variable (w : World)

/-- `chan_resolve_endpoint`: the channel of an endpoint. -/
def chanResolveEndpoint (callerPid : ℤ) (tok : CapToken) (dir : Direction)
    (requiredRights : BitVec 64) : Except CapError ℕ :=
  match (capTokenResolve w.reg callerPid tok requiredRights).bind w.reg.ptrs with
  | none => .error .eperm
  | some obj =>
    if obj.kind ≠ .channel then .error .einval
    else match w.endpoints obj.kindData with
      | none => .error .einval
      | some ep =>
        if ep.channel ∉ w.live then .error .einval
        else if ep.direction ≠ dir then .error .eperm
        else .ok ep.channel

/-- What a call meets besides the state: whether the caller's pledge allows it, whether
its pointer is a user pointer, the fault injection hook, the caller's transactions, the
bytes of the kernel buffer and the outcomes of allocations. -/
structure Surroundings where
  pledged : Bool
  userPointer : Bool
  fault : Bool
  layers : List TxnLayer
  stack : Fin chanMsgInlineMax → UInt8
  heap : ℕ → Bool

def World.setChan (c : ℕ) (chan : Channel) : World :=
  { w with chans := Function.update w.chans c chan }

def World.setTable (pid : ℤ) (t : Table) : World :=
  { w with tables := Function.update w.tables pid t }

/-- The end of a turn of a send: a turn that blocks leaves its message waiting. -/
def World.afterTurn (send : WaitingSend) (r : Outcome × Channel) : Outcome × World :=
  (r.1, { w.setChan send.channel r.2 with
    waiting := if r.1 = .blocks then send :: w.waiting else w.waiting })

def sysChanSend (pid : ℤ) (tok : CapToken) (m : UserMsg) (timeoutNs : ℕ)
    (env : Surroundings) : Outcome × World :=
  if !env.pledged then (.error .epledge, w)
  else if !env.userPointer then (.error .efault, w)
  else if pid ∉ w.tasks then (.error .einval, w)
  else match chanResolveEndpoint w pid tok .write rightSend with
    | .error e => (.error e, w)
    | .ok c =>
      match chanMarshalSend w.reg pid (w.tables pid) m env.stack with
      | .error e => (.error e, w)
      | .ok (staged, t) =>
        (w.setTable pid t).afterTurn ⟨pid, c, staged, timeoutNs⟩
          (chanSend (w.chans c) pid staged timeoutNs env.fault env.layers)

/-- A waiting send is woken: it returns the error it was woken with, or makes another
turn if its channel is still there. -/
def wakeSend (k : ℕ) (waitResult : ℤ) : Outcome × World :=
  match w.waiting[k]? with
  | none => (.code 0, w)
  | some send =>
    let w := { w with waiting := w.waiting.eraseIdx k }
    if waitResult ≠ 0 then (.code waitResult, w)
    else if send.channel ∉ w.live then (.error .epipe, w)
    else w.afterTurn send (chanSendTurn (w.chans send.channel) send.pid send.msg send.timeoutNs)

/-- `SYS_CHAN_RECV` up to the end of its first turn; a later turn is a call again, as a
waiting receive holds nothing. -/
def sysChanRecv (pid : ℤ) (tok : CapToken) (userMsg : UserMsg) (timeoutNs : ℕ)
    (env : Surroundings) : Outcome × World :=
  if !env.pledged then (.error .epledge, w)
  else if !env.userPointer then (.error .efault, w)
  else if pid ∉ w.tasks then (.error .einval, w)
  else match chanResolveEndpoint w pid tok .read rightRecv with
    | .error e => (.error e, w)
    | .ok c =>
      match chanRecv (w.chans c) timeoutNs with
      | (.got slot, chan) =>
        let r := (chanMarshalRecv w.reg (w.tables pid) slot userMsg env.heap).1
        (if r.rc < 0 then .code r.rc else .got slot,
          { (w.setChan c chan).setTable pid r.table with
            endpoints := passEndpoints w.reg pid w.endpoints r.passed })
      | (outcome, chan) => (outcome, w.setChan c chan)

inductive IpcOp
  | send (pid : ℤ) (tok : CapToken) (m : UserMsg) (timeoutNs : ℕ) (env : Surroundings)
  | wake (k : ℕ) (waitResult : ℤ)
  | recv (pid : ℤ) (tok : CapToken) (userMsg : UserMsg) (timeoutNs : ℕ) (env : Surroundings)

def step : IpcOp → World
  | .send pid tok m timeoutNs env => (sysChanSend w pid tok m timeoutNs env).2
  | .wake k waitResult => (wakeSend w k waitResult).2
  | .recv pid tok userMsg timeoutNs env => (sysChanRecv w pid tok userMsg timeoutNs env).2

/-- The object references a message carries. -/
def msgRefs (m : ChannelMsg) : Multiset ℕ :=
  Multiset.filter (· ≠ 0) (List.ofFn m.inFlightIdx : Multiset ℕ)

/-- The references in flight in a channel's ring. -/
def inFlight (c : Channel) : Multiset ℕ := (c.ring.contents.map msgRefs).sum

def heldRefs : Multiset ℕ := ∑ pid ∈ w.tasks, refs (w.tables pid)

def ringRefs : Multiset ℕ := ∑ c ∈ w.live, inFlight (w.chans c)

def waitingRefs : Multiset ℕ := (w.waiting.map fun send => msgRefs send.msg).sum

/-- All references in handle tables and in messages on their way. -/
def total : Multiset ℕ := heldRefs w + ringRefs w + waitingRefs w

/-- A sender holds a table entry for every token it sends, as often as it sends it. -/
def HoldsWhatItSends : IpcOp → Prop
  | .send pid _ m _ _ =>
    (((sentTokens m).map capTokenIdx : List ℕ) : Multiset ℕ) ≤ refs (w.tables pid)
  | _ => True

instance holdsWhatItSendsDecidable : ∀ op, Decidable (HoldsWhatItSends w op)
  | .send _ _ _ _ _ => inferInstanceAs (Decidable (_ ≤ _))
  | .wake _ _ | .recv _ _ _ _ _ => .isTrue trivial

end GrahaOS.HandlePassing
