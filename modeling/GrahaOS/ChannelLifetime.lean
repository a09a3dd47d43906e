import GrahaOS.CapHistory
import GrahaOS.HandlePassing
import GrahaOS.SlabCache

/-!
# Creating and destroying channels

`chan_create`, `chan_free` and `chan_endpoint_deactivate` of `kernel/ipc/channel.c`, and
`cap_object_destroy` with its channel hook. Channels and endpoints live in slab caches and are named
by their addresses. A channel cell is `some` when `chan_check` accepts it. The list of all channels
and the waiters of a channel are left out. The handle tables also belong to other system calls, so
they may change in any way between two steps.
-/

namespace GrahaOS.ChannelLifetime

open Token CapRegistry CapHistory Channels HandleTable HandlePassing SlabCache

/-- The state that creation and destruction work on. A pid without a task has no table. -/
structure ChanWorld where
  reg : Registry
  tables : ℤ → Option Table
  channels : Cache (Option Channel)
  endpoints : Cache ChanEndpoint

/-- A zeroed `chan_endpoint_t`; its direction is set before it is read. -/
def zeroEndpoint : ChanEndpoint := ⟨0, .read, 0⟩

def initial : ChanWorld where
  reg := capObjectInit
  tables := fun _ => none
  channels := kmemCacheCreate none
  endpoints := kmemCacheCreate zeroEndpoint

variable (w : ChanWorld)

/-- `chan_free` of a channel that `chan_check` accepts. -/
def chanFree (c : ℕ) : ChanWorld :=
  { w with channels := kmemCacheFree (w.channels.write c none) c }

/-- Dropping the reference of one endpoint on its channel; the counter is a `uint32_t`. -/
def dropChannelRef (c : ℕ) : ChanWorld :=
  match w.channels.mem c with
  | none => w
  | some chan =>
    let refcount := (chan.refcount + (2 ^ 32 - 1)) % 2 ^ 32
    let w := { w with channels := w.channels.write c (some { chan with refcount := refcount }) }
    if refcount = 0 then chanFree w c else w

def releaseEndpoint (ep : ℕ) : ChanWorld :=
  { w with endpoints := kmemCacheFree w.endpoints ep }

def chanEndpointDeactivate (obj : CapObject) : ChanWorld :=
  if obj.kindData = 0 then w
  else releaseEndpoint (dropChannelRef w (w.endpoints.mem obj.kindData).channel) obj.kindData

/-- `cap_object_destroy` with its hook for channels. The hooks of the other kinds work on
other payloads. -/
def destroyObject (idx : ℕ) : ChanWorld :=
  if idx = 0 ∨ capObjectCapacity ≤ idx then w
  else match w.reg.ptrs idx with
    | none => w
    | some obj =>
      let w := { w with reg := capObjectDestroy w.reg idx }
      if obj.kind = .channel then chanEndpointDeactivate w obj else w

/-- The arguments of `chan_create` and the outcomes of its allocations: of the channel, of
its ring, of the two endpoints, of the two capability objects, and of the growth of the
caller's table at each insertion. `mode` is `none` for an invalid mode. -/
structure ChanArgs where
  typeHash : BitVec 64
  typeKnown : Bool
  mode : Option ChanMode
  capacity : ℕ
  callerPid : ℤ
  chanPick : Option ℕ
  heap : Bool
  rdPick : Option ℕ
  wrPick : Option ℕ
  rdSlab : Bool
  wrSlab : Bool
  rdHeap : Bool
  wrHeap : Bool

def rdRights : BitVec 64 := rightRead ||| rightRecv ||| rightInspect ||| rightDerive ||| rightRevoke

def wrRights : BitVec 64 :=
  rightWrite ||| rightSend ||| rightInspect ||| rightDerive ||| rightRevoke

def endpointArgs (rights : BitVec 64) (ep : ℕ) (callerPid : ℤ) : CreateArgs where
  kind := .channel
  rights := rights
  audience := some [callerPid]
  flags := 0#8
  kindData := ep
  ownerPid := callerPid

/-- The end of every failing path: the ring is freed, the channel unlinked and freed. -/
def releaseChannel (c : ℕ) : ChanWorld :=
  { w with channels := kmemCacheFree w.channels c }

def ChanWorld.setTable (pid : ℤ) (t : Table) : ChanWorld :=
  { w with tables := Function.update w.tables pid (some t) }

/-- A failure after both objects exist destroys them and then releases the channel. -/
def undoObjects (c rdIdx wrIdx : ℕ) : ChanWorld :=
  releaseChannel (destroyObject (destroyObject w rdIdx) wrIdx) c

/-- The last part of `chan_create`: both objects are entered in the caller's table. -/
def insertEndpoints (a : ChanArgs) (c rdIdx wrIdx : ℕ) :
    Except ℤ (CapToken × CapToken) × ChanWorld :=
  match w.tables a.callerPid with
  | none => (.error CapError.einval.code, undoObjects w c rdIdx wrIdx)
  | some t =>
    let rd := capHandleInsert t rdIdx 0#8 a.rdHeap
    if rd.1 < 0 then
      (.error rd.1, undoObjects (w.setTable a.callerPid rd.2.2) c rdIdx wrIdx)
    else
      let wr := capHandleInsert rd.2.2 wrIdx 0#8 a.wrHeap
      if wr.1 < 0 then
        (.error wr.1, undoObjects
          (w.setTable a.callerPid (capHandleRemove wr.2.2 rd.2.1).2) c rdIdx wrIdx)
      else (.ok (tokenFor w.reg rdIdx, tokenFor w.reg wrIdx), w.setTable a.callerPid wr.2.2)

/-- The capability objects of the two endpoints. -/
def createObjects (a : ChanArgs) (c rdEp wrEp : ℕ) : Except ℤ (CapToken × CapToken) × ChanWorld :=
  match capObjectCreate w.reg a.rdSlab (endpointArgs rdRights rdEp a.callerPid) idxNone with
  | (.error e, reg) => (.error e.code,
      releaseChannel (releaseEndpoint (releaseEndpoint { w with reg := reg } rdEp) wrEp) c)
  | (.ok rdIdx, reg) =>
    match capObjectCreate reg a.wrSlab (endpointArgs wrRights wrEp a.callerPid) idxNone with
    | (.error e, reg) => (.error e.code,
        releaseChannel (releaseEndpoint (destroyObject { w with reg := reg } rdIdx) wrEp) c)
    | (.ok wrIdx, reg) => insertEndpoints { w with reg := reg } a c rdIdx wrIdx

/-- The endpoint payloads; both allocations are made before either is checked. -/
def createEndpoints (a : ChanArgs) (c : ℕ) : Except ℤ (CapToken × CapToken) × ChanWorld :=
  match kmemCacheAlloc w.endpoints zeroEndpoint a.rdPick with
  | none =>
    match kmemCacheAlloc w.endpoints zeroEndpoint a.wrPick with
    | none => (.error CapError.enomem.code, releaseChannel w c)
    | some (wrEp, eps) => (.error CapError.enomem.code,
        releaseChannel (releaseEndpoint { w with endpoints := eps } wrEp) c)
  | some (rdEp, eps) =>
    match kmemCacheAlloc eps zeroEndpoint a.wrPick with
    | none => (.error CapError.enomem.code,
        releaseChannel (releaseEndpoint { w with endpoints := eps } rdEp) c)
    | some (wrEp, eps) =>
      let eps := (eps.write rdEp ⟨c, .read, a.callerPid⟩).write wrEp ⟨c, .write, a.callerPid⟩
      createObjects { w with endpoints := eps } a c rdEp wrEp

def chanCreate (a : ChanArgs) : Except ℤ (CapToken × CapToken) × ChanWorld :=
  if h : 0 < a.capacity ∧ a.capacity ≤ chanCapacityMax then
    match a.mode with
    | none => (.error CapError.einval.code, w)
    | some mode =>
      if !a.typeKnown then (.error CapError.eprototype.code, w)
      else match kmemCacheAlloc w.channels none a.chanPick with
        | none => (.error CapError.enomem.code, w)
        | some (c, channels) =>
          if !a.heap then
            (.error CapError.enomem.code, releaseChannel { w with channels := channels } c)
          else
            let chan := freshChannel a.typeHash mode a.capacity h.1
            createEndpoints { w with channels := channels.write c (some chan) } a c
  else (.error CapError.einval.code, w)

/-- The steps of a run. Objects of the kind CHANNEL are created by `chan_create` only. -/
inductive LifeOp
  | channel (a : ChanArgs)
  | object (slab : Bool) (a : CreateArgs) (other : a.kind ≠ .channel)
  | derive (slab : Bool) (a : DeriveArgs)
  | inherit (slab : Bool) (idx : ℕ) (parentId : ℤ) (childId : ℕ)
  | revoke (idx : ℕ)
  | destroy (idx : ℕ)
  | tables (tables : ℤ → Option Table)

def step : LifeOp → ChanWorld
  | .channel a => (chanCreate w a).2
  | .object slab a _ => { w with reg := capStep w.reg (.create slab a) }
  | .derive slab a => { w with reg := capStep w.reg (.derive slab a) }
  | .inherit slab idx parentId childId =>
    { w with reg := capStep w.reg (.inherit slab idx parentId childId) }
  | .revoke idx => { w with reg := capStep w.reg (.revoke idx) }
  | .destroy idx => destroyObject w idx
  | .tables tables => { w with tables := tables }

end GrahaOS.ChannelLifetime
