import GrahaOS.ChannelRefs

/-!
# What a failing `chan_create` gives back

`chan_create` with a ledger of what it makes and what is released. A creation that fails before both
capability objects exist releases what it made, each once. One that fails later destroys both
objects; the second destruction drops the last reference and frees the channel, and the failing path
then frees it again.
-/

namespace GrahaOS.ChannelCreation

open Token CapRegistry Channels HandleTable HandlePassing SlabCache ChannelLifetime List

inductive Resource
  | channel (c : ℕ)
  | ring (c : ℕ)
  | endpoint (ep : ℕ)
  | object (idx : ℕ)
deriving DecidableEq

/-- A state with what has been made and what has been released on the way to it. -/
structure Ledger where
  world : ChanWorld
  made : List Resource
  released : List Resource

variable (l : Ledger)

def Ledger.make (x : Resource) (w : ChanWorld) : Ledger := ⟨w, x :: l.made, l.released⟩

def Ledger.release (x : Resource) (w : ChanWorld) : Ledger :=
  ⟨w, l.made, x :: l.released⟩

def Ledger.move (w : ChanWorld) : Ledger := { l with world := w }

def chanFreeLogged (c : ℕ) : Ledger :=
  (l.release (.ring c) l.world).release (.channel c) (chanFree l.world c)

def dropChannelRefLogged (c : ℕ) : Ledger :=
  match l.world.channels.mem c with
  | none => l
  | some chan =>
    let refcount := (chan.refcount + (2 ^ 32 - 1)) % 2 ^ 32
    let l := l.move { l.world with
      channels := l.world.channels.write c (some { chan with refcount := refcount }) }
    if refcount = 0 then chanFreeLogged l c else l

def releaseEndpointLogged (ep : ℕ) : Ledger :=
  l.release (.endpoint ep) (releaseEndpoint l.world ep)

def chanEndpointDeactivateLogged (obj : CapObject) : Ledger :=
  if obj.kindData = 0 then l
  else releaseEndpointLogged
    (dropChannelRefLogged l (l.world.endpoints.mem obj.kindData).channel) obj.kindData

def destroyObjectLogged (idx : ℕ) : Ledger :=
  if idx = 0 ∨ capObjectCapacity ≤ idx then l
  else match l.world.reg.ptrs idx with
    | none => l
    | some obj =>
      let l := l.release (.object idx) { l.world with reg := capObjectDestroy l.world.reg idx }
      if obj.kind = .channel then chanEndpointDeactivateLogged l obj else l

/-- The end of the failing paths: `kfree` of the ring, which does nothing for a channel
that `chan_free` has left without one, and the release of the channel. -/
def releaseChannelLogged (c : ℕ) : Ledger :=
  let freed := if (l.world.channels.mem c).isSome then l.release (.ring c) l.world else l
  freed.release (.channel c) (releaseChannel l.world c)

def undoObjectsLogged (c rdIdx wrIdx : ℕ) : Ledger :=
  releaseChannelLogged (destroyObjectLogged (destroyObjectLogged l rdIdx) wrIdx) c

def insertEndpointsLogged (a : ChanArgs) (c rdIdx wrIdx : ℕ) :
    Except ℤ (CapToken × CapToken) × Ledger :=
  match l.world.tables a.callerPid with
  | none => (.error CapError.einval.code, undoObjectsLogged l c rdIdx wrIdx)
  | some t =>
    let rd := capHandleInsert t rdIdx 0#8 a.rdHeap
    if rd.1 < 0 then
      (.error rd.1,
        undoObjectsLogged (l.move (l.world.setTable a.callerPid rd.2.2)) c rdIdx wrIdx)
    else
      let wr := capHandleInsert rd.2.2 wrIdx 0#8 a.wrHeap
      if wr.1 < 0 then
        (.error wr.1, undoObjectsLogged
          (l.move (l.world.setTable a.callerPid (capHandleRemove wr.2.2 rd.2.1).2)) c rdIdx wrIdx)
      else
        (.ok (tokenFor l.world.reg rdIdx, tokenFor l.world.reg wrIdx),
          l.move (l.world.setTable a.callerPid wr.2.2))

def createObjectsLogged (a : ChanArgs) (c rdEp wrEp : ℕ) :
    Except ℤ (CapToken × CapToken) × Ledger :=
  match capObjectCreate l.world.reg a.rdSlab (endpointArgs rdRights rdEp a.callerPid) idxNone with
  | (.error e, reg) => (.error e.code, releaseChannelLogged (releaseEndpointLogged
      (releaseEndpointLogged (l.move { l.world with reg := reg }) rdEp) wrEp) c)
  | (.ok rdIdx, reg) =>
    let l := l.make (.object rdIdx) { l.world with reg := reg }
    match capObjectCreate reg a.wrSlab (endpointArgs wrRights wrEp a.callerPid) idxNone with
    | (.error e, reg) => (.error e.code, releaseChannelLogged (releaseEndpointLogged
        (destroyObjectLogged (l.move { l.world with reg := reg }) rdIdx) wrEp) c)
    | (.ok wrIdx, reg) =>
      insertEndpointsLogged (l.make (.object wrIdx) { l.world with reg := reg }) a c rdIdx wrIdx

def createEndpointsLogged (a : ChanArgs) (c : ℕ) : Except ℤ (CapToken × CapToken) × Ledger :=
  match kmemCacheAlloc l.world.endpoints zeroEndpoint a.rdPick with
  | none =>
    match kmemCacheAlloc l.world.endpoints zeroEndpoint a.wrPick with
    | none => (.error CapError.enomem.code, releaseChannelLogged l c)
    | some (wrEp, eps) => (.error CapError.enomem.code, releaseChannelLogged
        (releaseEndpointLogged (l.make (.endpoint wrEp) { l.world with endpoints := eps }) wrEp) c)
  | some (rdEp, eps) =>
    let l := l.make (.endpoint rdEp) { l.world with endpoints := eps }
    match kmemCacheAlloc eps zeroEndpoint a.wrPick with
    | none => (.error CapError.enomem.code,
        releaseChannelLogged (releaseEndpointLogged l rdEp) c)
    | some (wrEp, eps) =>
      let eps := (eps.write rdEp ⟨c, .read, a.callerPid⟩).write wrEp ⟨c, .write, a.callerPid⟩
      createObjectsLogged (l.make (.endpoint wrEp) { l.world with endpoints := eps }) a c rdEp wrEp

/-- `chan_create` with a ledger. -/
lemma capacity_pos {a : ChanArgs} (h : 0 < a.capacity ∧ a.capacity ≤ chanCapacityMax) :
    0 < a.capacity := h.1

def chanCreateLogged (a : ChanArgs) : Except ℤ (CapToken × CapToken) × Ledger :=
  if h : 0 < a.capacity ∧ a.capacity ≤ chanCapacityMax then
    match a.mode with
    | none => (.error CapError.einval.code, l)
    | some mode =>
      if !a.typeKnown then (.error CapError.eprototype.code, l)
      else match kmemCacheAlloc l.world.channels none a.chanPick with
        | none => (.error CapError.enomem.code, l)
        | some (c, channels) =>
          let l := l.make (.channel c) { l.world with channels := channels }
          if !a.heap then
            (.error CapError.enomem.code, l.release (.channel c) (releaseChannel l.world c))
          else
            let chan := freshChannel a.typeHash mode a.capacity (capacity_pos h)
            createEndpointsLogged (l.make (.ring c)
              { l.world with channels := channels.write c (some chan) }) a c
  else (.error CapError.einval.code, l)

section Unlogged

variable {l : Ledger}

def unlogged {α : Type*} (r : α × Ledger) : α × ChanWorld := (r.1, r.2.world)

lemma dropChannelRefLogged_world (c : ℕ) :
    (dropChannelRefLogged l c).world = dropChannelRef l.world c := by
  unfold dropChannelRefLogged dropChannelRef
  cases l.world.channels.mem c with
  | none => rfl
  | some chan =>
    simp only
    split_ifs <;> rfl

lemma destroyObjectLogged_world (idx : ℕ) :
    (destroyObjectLogged l idx).world = destroyObject l.world idx := by
  unfold destroyObjectLogged destroyObject
  split_ifs with hrange
  · rfl
  cases l.world.reg.ptrs idx with
  | none => rfl
  | some obj =>
    simp only
    split_ifs with hkind
    · unfold chanEndpointDeactivateLogged chanEndpointDeactivate
      split_ifs
      · rfl
      · exact congrArg (releaseEndpoint · obj.kindData) (dropChannelRefLogged_world _)
    · rfl

lemma releaseChannelLogged_world (c : ℕ) :
    (releaseChannelLogged l c).world = releaseChannel l.world c := rfl

lemma undoObjectsLogged_world (c rdIdx wrIdx : ℕ) :
    (undoObjectsLogged l c rdIdx wrIdx).world = undoObjects l.world c rdIdx wrIdx := by
  rw [undoObjectsLogged, releaseChannelLogged_world, destroyObjectLogged_world,
    destroyObjectLogged_world, undoObjects]

variable (a : ChanArgs)

lemma insertEndpointsLogged_unlogged (c rdIdx wrIdx : ℕ) :
    unlogged (insertEndpointsLogged l a c rdIdx wrIdx) =
      insertEndpoints l.world a c rdIdx wrIdx := by
  unfold insertEndpointsLogged insertEndpoints
  cases l.world.tables a.callerPid with
  | none => simp only [unlogged, undoObjectsLogged_world]
  | some t =>
    simp only
    split_ifs
    · simp only [unlogged, undoObjectsLogged_world, Ledger.move]
    · simp only [unlogged, undoObjectsLogged_world, Ledger.move]
    · rfl

lemma createObjectsLogged_unlogged (c rdEp wrEp : ℕ) :
    unlogged (createObjectsLogged l a c rdEp wrEp) = createObjects l.world a c rdEp wrEp := by
  unfold createObjectsLogged createObjects
  rcases capObjectCreate l.world.reg a.rdSlab (endpointArgs rdRights rdEp a.callerPid) idxNone with
    ⟨e | rdIdx, reg⟩
  · rfl
  simp only
  rcases capObjectCreate reg a.wrSlab (endpointArgs wrRights wrEp a.callerPid) idxNone with
    ⟨e | wrIdx, reg'⟩
  · simp only [unlogged, releaseChannelLogged_world, releaseEndpointLogged, Ledger.release,
      destroyObjectLogged_world, Ledger.move, Ledger.make]
  · exact insertEndpointsLogged_unlogged a c rdIdx wrIdx

lemma createEndpointsLogged_unlogged (c : ℕ) :
    unlogged (createEndpointsLogged l a c) = createEndpoints l.world a c := by
  unfold createEndpointsLogged createEndpoints
  rcases kmemCacheAlloc l.world.endpoints zeroEndpoint a.rdPick with _ | ⟨rdEp, eps⟩
  · rcases kmemCacheAlloc l.world.endpoints zeroEndpoint a.wrPick with _ | ⟨wrEp, eps⟩
    · rfl
    · rfl
  · simp only
    rcases kmemCacheAlloc eps zeroEndpoint a.wrPick with _ | ⟨wrEp, eps'⟩
    · rfl
    · exact createObjectsLogged_unlogged a c rdEp wrEp

theorem chanCreateLogged_unlogged : unlogged (chanCreateLogged l a) = chanCreate l.world a := by
  unfold chanCreateLogged chanCreate
  by_cases hcap : 0 < a.capacity ∧ a.capacity ≤ chanCapacityMax
  swap
  · rw [dif_neg hcap, dif_neg hcap]
    rfl
  rw [dif_pos hcap, dif_pos hcap]
  cases a.mode with
  | none => rfl
  | some mode =>
  by_cases hknown : (!a.typeKnown) = true
  · simp only [if_pos hknown]
    rfl
  simp only [if_neg hknown]
  rcases kmemCacheAlloc l.world.channels none a.chanPick with _ | ⟨c, channels⟩
  · rfl
  by_cases hheap : (!a.heap) = true
  · simp only [if_pos hheap]
    rfl
  · simp only [if_neg hheap]
    exact createEndpointsLogged_unlogged a c

end Unlogged

/-- The null pointer is never handed out. -/
def NoNull {α : Type*} (c : Cache α) : Prop := 0 < c.carved ∧ 0 ∉ c.free

/-- Everything made has been released as often as it was made, and the registry and the
handle tables are as before. -/
structure Restored (w : ChanWorld) (l : Ledger) : Prop where
  released : l.made.Perm l.released
  registry : l.world.reg.ptrs = w.reg.ptrs
  tables : l.world.tables = w.tables

/-- A slot for a capability object is free. -/
def FreeSlot (r : Registry) (i : ℕ) : Prop := 0 < i ∧ i < capObjectCapacity ∧ r.ptrs i = none

/-- The call comes as far as having made both capability objects: its arguments are valid,
its allocations up to there succeed and there are two free slots in the registry. -/
structure BothObjects (w : ChanWorld) (a : ChanArgs) : Prop where
  capacity : 0 < a.capacity ∧ a.capacity ≤ chanCapacityMax
  mode : a.mode.isSome
  typeKnown : a.typeKnown = true
  channel : a.chanPick.isSome
  ring : a.heap = true
  endpoints : a.rdPick.isSome ∧ a.wrPick.isSome
  objects : a.rdSlab = true ∧ a.wrSlab = true
  slots : ∃ i j, i ≠ j ∧ FreeSlot w.reg i ∧ FreeSlot w.reg j

lemma findFreeSlotFrom_none {ptrs : ℕ → Option CapObject} {fuel i : ℕ}
    (h : findFreeSlotFrom ptrs fuel i = none) {j : ℕ} (hlo : i ≤ j) (hhi : j < i + fuel) :
    ptrs j ≠ none := by
  induction fuel generalizing i with
  | zero => omega
  | succ fuel ih =>
  rw [findFreeSlotFrom] at h
  cases hi : ptrs i with
  | none => simp [hi] at h
  | some o =>
    rw [hi] at h
    by_cases hj : j = i
    · rw [hj, hi]
      simp
    · exact ih h (by omega) (by omega)

/-- Creation without a parent succeeds exactly if there is memory and a free slot. -/
lemma capObjectCreate_cases (r : Registry) (slab : Bool) (a : CreateArgs) :
    (slab = true ∧ ∃ slot, FreeSlot r slot ∧ capObjectCreate r slab a idxNone =
      (.ok slot, install r slot (newObject a idxNone))) ∨
    (¬(slab = true ∧ ∃ slot, FreeSlot r slot) ∧
      capObjectCreate r slab a idxNone = (.error .enomem, r)) := by
  cases slab with
  | false => exact .inr ⟨fun h => absurd h.1 (by decide), rfl⟩
  | true =>
    cases hslot : findFreeSlot r with
    | none =>
      refine .inr ⟨?_, by simp [capObjectCreate, hslot]⟩
      rintro ⟨-, slot, hpos, hcap, hfree⟩
      exact findFreeSlotFrom_none hslot hpos (by omega) hfree
    | some slot =>
      exact .inl ⟨rfl, slot, findFreeSlot_spec hslot, by simp [capObjectCreate, hslot]⟩

variable {l l' : Ledger} {c rdEp wrEp rdIdx idx ep wrIdx : ℕ} {w : ChanWorld} {α : Type*} {e : ℤ}

lemma kmemCacheAlloc_noNull {c c' : Cache α} {zero : α} {pick : Option ℕ} {addr : ℕ} (hc : NoNull c)
    (h : kmemCacheAlloc c zero pick = some (addr, c')) : addr ≠ 0 ∧ NoNull c' := by
  obtain ⟨hcarved, hfree⟩ := hc
  cases pick with
  | none => cases h
  | some pick =>
  simp only [kmemCacheAlloc] at h
  cases hget : c.free[pick]? with
  | some x =>
    simp only [hget, Option.some.injEq, Prod.mk.injEq] at h
    obtain ⟨rfl, rfl⟩ := h
    refine ⟨?_, hcarved, fun hmem => hfree (mem_of_mem_eraseIdx hmem)⟩
    rintro rfl
    exact hfree (mem_of_getElem? hget)
  | none =>
    simp only [hget, Option.some.injEq, Prod.mk.injEq] at h
    obtain ⟨rfl, rfl⟩ := h
    exact ⟨hcarved.ne', Nat.succ_pos _, hfree⟩

lemma kmemCacheAlloc_isSome (c : Cache α) (zero : α) (pick : Option ℕ) :
    (kmemCacheAlloc c zero pick).isSome = pick.isSome := by
  cases pick with
  | none => rfl
  | some pick =>
    simp only [kmemCacheAlloc]
    cases c.free[pick]? <;> rfl

/-- The object is the one of an endpoint of the channel, which counts `n` references. -/
structure EndpointObject (w : ChanWorld) (idx ep c n : ℕ) : Prop where
  range : 0 < idx ∧ idx < capObjectCapacity
  object : ∃ obj, w.reg.ptrs idx = some obj ∧ obj.kind = .channel ∧ obj.kindData = ep
  nonnull : ep ≠ 0
  endpoint : (w.endpoints.mem ep).channel = c
  channel : ∃ chan, w.channels.mem c = some chan ∧ chan.refcount = n

/-- The state in which an object is gone and its channel counts `n` references. -/
def dropped (w : ChanWorld) (idx c : ℕ) (chan : Channel) (n : ℕ) : ChanWorld :=
  { w with
    reg := capObjectDestroy w.reg idx
    channels := w.channels.write c (some { chan with refcount := n }) }

lemma in_range (h : 0 < idx ∧ idx < capObjectCapacity) : ¬(idx = 0 ∨ capObjectCapacity ≤ idx) := by
  omega

/-- The object goes first, then the reference of its endpoint, then the endpoint. -/
lemma destroyObjectLogged_eq {n : ℕ} (h : EndpointObject l.world idx ep c n) :
    destroyObjectLogged l idx = releaseEndpointLogged (dropChannelRefLogged
      (l.release (.object idx) { l.world with reg := capObjectDestroy l.world.reg idx }) c) ep := by
  obtain ⟨obj, hobj, hkind, hdata⟩ := h.object
  simp [destroyObjectLogged, if_neg (in_range h.range), hobj, hkind, chanEndpointDeactivateLogged, hdata,
    h.nonnull, Ledger.release, h.endpoint]

lemma destroyObjectLogged_first (h : EndpointObject l.world idx ep c 2) :
    ∃ chan, destroyObjectLogged l idx =
      ⟨releaseEndpoint (dropped l.world idx c chan 1) ep, l.made,
        .endpoint ep :: .object idx :: l.released⟩ := by
  obtain ⟨chan, hchan, hcount⟩ := h.channel
  refine ⟨chan, ?_⟩
  simp [destroyObjectLogged_eq h, Ledger.release, dropChannelRefLogged, hchan, hcount, Ledger.move,
    releaseEndpointLogged, dropped]

lemma destroyObjectLogged_last (h : EndpointObject l.world idx ep c 1) :
    ∃ chan, destroyObjectLogged l idx =
      ⟨releaseEndpoint (chanFree (dropped l.world idx c chan 0) c) ep, l.made,
        .endpoint ep :: .channel c :: .ring c :: .object idx :: l.released⟩ := by
  obtain ⟨chan, hchan, hcount⟩ := h.channel
  refine ⟨chan, ?_⟩
  simp [destroyObjectLogged_eq h, Ledger.release, dropChannelRefLogged, hchan, hcount, Ledger.move,
    releaseEndpointLogged, chanFreeLogged, dropped]

/-- Both objects stand in the registry and the channel counts them. -/
structure Published (l : Ledger) (c rdEp wrEp rdIdx wrIdx : ℕ) : Prop where
  rd : EndpointObject l.world rdIdx rdEp c 2
  wr : EndpointObject l.world wrIdx wrEp c 2
  distinct : rdIdx ≠ wrIdx

/-- The failing paths after both objects exist release seven things. -/
lemma undoObjectsLogged_released (h : Published l c rdEp wrEp rdIdx wrIdx) :
    (undoObjectsLogged l c rdIdx wrIdx).made = l.made ∧
    (undoObjectsLogged l c rdIdx wrIdx).released =
      [.channel c, .endpoint wrEp, .channel c, .ring c, .object wrIdx, .endpoint rdEp,
        .object rdIdx] ++ l.released := by
  obtain ⟨chan, hfirst⟩ := destroyObjectLogged_first h.rd
  obtain ⟨obj, hobj, hkind, hdata⟩ := h.wr.object
  have hwr : EndpointObject (destroyObjectLogged l rdIdx).world wrIdx wrEp c 1 := by
    rw [hfirst]
    refine ⟨h.wr.range, ⟨obj, ?_, hkind, hdata⟩, h.wr.nonnull, h.wr.endpoint, ?_⟩
    · simp [releaseEndpoint, dropped, capObjectDestroy, if_neg (in_range h.rd.range),
        h.distinct.symm, hobj]
    · exact ⟨{ chan with refcount := 1 }, by simp [releaseEndpoint, dropped], rfl⟩
  obtain ⟨chan', hlast⟩ := destroyObjectLogged_last hwr
  -- `chan_free` has left the channel without a ring, so the ring is not freed again
  have hnone : (destroyObjectLogged (destroyObjectLogged l rdIdx) wrIdx).world.channels.mem c =
      none := by
    rw [hlast]
    simp [releaseEndpoint, chanFree]
  rw [undoObjectsLogged, releaseChannelLogged, hnone, hlast, hfirst]
  exact ⟨rfl, rfl⟩

lemma undoObjectsLogged_twice (hundo : undoObjectsLogged l c rdIdx wrIdx = l')
    (h : Published l c rdEp wrEp rdIdx wrIdx) (hmade : l.made.length = 6) :
    ¬l'.made.Perm l'.released := by
  intro hperm
  obtain ⟨hkept, hreleased⟩ := undoObjectsLogged_released h
  have hlen := hperm.length_eq
  rw [← hundo, hkept, hreleased, length_append, hmade] at hlen
  simp only [length_cons, length_nil] at hlen
  omega

/-- What has been made when the capability objects are to be created. -/
structure Prepared (w : ChanWorld) (l : Ledger) (c rdEp wrEp : ℕ) : Prop where
  made : l.made = [.endpoint wrEp, .endpoint rdEp, .ring c, .channel c]
  released : l.released = []
  reg : l.world.reg = w.reg
  tables : l.world.tables = w.tables
  nonnull : rdEp ≠ 0 ∧ wrEp ≠ 0
  endpoints : (l.world.endpoints.mem rdEp).channel = c ∧ (l.world.endpoints.mem wrEp).channel = c
  channel : ∃ chan, l.world.channels.mem c = some chan ∧ chan.refcount = 2

lemma freeSlot_install {r : Registry} {slot i : ℕ} {obj : CapObject} :
    FreeSlot (install r slot obj) i ↔ FreeSlot r i ∧ i ≠ slot := by
  unfold FreeSlot install
  by_cases hi : i = slot
  · subst hi
    simp
  · simp [hi]

/-- A creation that fails gives everything back, or it has made both objects and releases more
than was made. -/
def Undone (w : ChanWorld) (both : Prop) (r : Except ℤ (CapToken × CapToken) × Ledger) : Prop :=
  (¬both ∧ ∃ e l', r = (.error e, l') ∧ Restored w l') ∨
    (both ∧ ∀ e l', r = (.error e, l') → ¬l'.made.Perm l'.released)

lemma Undone.congr {p q : Prop} {r : Except ℤ (CapToken × CapToken) × Ledger} (h : Undone w p r)
    (hpq : p ↔ q) : Undone w q r :=
  propext hpq ▸ h

lemma undone_of_restored {both : Prop} (hno : ¬both) (h : Restored w l) :
    Undone w both (.error e, l) := .inl ⟨hno, e, l, rfl, h⟩

/-- The two objects can be allocated. -/
def RoomForObjects (w : ChanWorld) (a : ChanArgs) : Prop :=
  (a.rdSlab = true ∧ a.wrSlab = true) ∧ ∃ i j, i ≠ j ∧ FreeSlot w.reg i ∧ FreeSlot w.reg j

/-- A failing insertion into the handle table releases more than was made. -/
lemma insertEndpointsLogged_error {a : ChanArgs}
    (h : Published l c rdEp wrEp rdIdx wrIdx) (hmade : l.made.length = 6)
    (herror : insertEndpointsLogged l a c rdIdx wrIdx = (.error e, l')) :
    ¬l'.made.Perm l'.released := by
  have hmoved : ∀ {tables}, Published (l.move { l.world with tables }) c rdEp wrEp rdIdx wrIdx :=
    ⟨⟨h.rd.range, h.rd.object, h.rd.nonnull, h.rd.endpoint, h.rd.channel⟩,
      ⟨h.wr.range, h.wr.object, h.wr.nonnull, h.wr.endpoint, h.wr.channel⟩, h.distinct⟩
  unfold insertEndpointsLogged at herror
  cases htable : l.world.tables a.callerPid with
  | none =>
    simp only [htable, Prod.mk.injEq] at herror
    exact undoObjectsLogged_twice herror.2 h hmade
  | some t =>
    simp only [htable] at herror
    split_ifs at herror
    · exact undoObjectsLogged_twice (Prod.mk.inj herror).2 hmoved hmade
    · exact undoObjectsLogged_twice (Prod.mk.inj herror).2 hmoved hmade
    · cases (Prod.mk.inj herror).1

/-- The object of an endpoint, as `chan_create` makes it. -/
def endpointObject (rights : BitVec 64) (ep : ℕ) (callerPid : ℤ) : CapObject :=
  newObject (endpointArgs rights ep callerPid) idxNone

/-- The ledger with one more object in the registry. -/
def Ledger.addObject (l : Ledger) (idx : ℕ) (obj : CapObject) : Ledger :=
  l.make (.object idx) { l.world with reg := install l.world.reg idx obj }

variable (h : Prepared w l c rdEp wrEp)
include h

/-- The registry has no room for the read object: everything made is given back. -/
lemma restored_without_objects :
    Restored w (releaseChannelLogged (releaseEndpointLogged (releaseEndpointLogged l rdEp) wrEp)
      c) := by
  obtain ⟨chan, hchan, -⟩ := h.channel
  refine ⟨?_, congrArg Registry.ptrs h.reg, h.tables⟩
  simp only [releaseChannelLogged, releaseEndpointLogged, releaseEndpoint, Ledger.release, hchan,
    Option.isSome_some, if_true, h.made, h.released]
  rw [perm_iff_count]
  intro x
  simp only [count_cons]
  ring

lemma endpointObject_added (hfree : FreeSlot w.reg rdIdx) (rights : BitVec 64) (callerPid : ℤ) :
    EndpointObject (l.addObject rdIdx (endpointObject rights rdEp callerPid)).world rdIdx rdEp c
      2 :=
  ⟨⟨hfree.1, hfree.2.1⟩, ⟨endpointObject rights rdEp callerPid,
    by simp [Ledger.addObject, Ledger.make, install], rfl, rfl⟩, h.nonnull.1, h.endpoints.1,
    h.channel⟩

/-- There is no room for the write object: the read object is destroyed while the channel
counts both references, and everything made is given back. -/
lemma restored_without_second (hfree : FreeSlot w.reg rdIdx) (rights : BitVec 64) (callerPid : ℤ) :
    Restored w (releaseChannelLogged (releaseEndpointLogged (destroyObjectLogged
      (l.addObject rdIdx (endpointObject rights rdEp callerPid)) rdIdx) wrEp) c) := by
  obtain ⟨chan, hfirst⟩ := destroyObjectLogged_first (endpointObject_added h hfree rights callerPid)
  rw [hfirst]
  have hrange := in_range ⟨hfree.1, hfree.2.1⟩
  refine ⟨?_, ?_, h.tables⟩
  · simp only [releaseChannelLogged, releaseEndpointLogged, releaseEndpoint, Ledger.release,
      dropped, mem_write_self, Option.isSome_some, if_true, Ledger.addObject, Ledger.make, h.made,
      h.released]
    rw [perm_iff_count]
    intro x
    simp only [count_cons]
    ring
  · funext i
    by_cases hi : i = rdIdx
    · subst hi
      simp [releaseChannelLogged, releaseChannel, releaseEndpointLogged, releaseEndpoint, dropped,
        Ledger.release, capObjectDestroy, if_neg hrange, hfree.2.2]
    · simp [releaseChannelLogged, releaseChannel, releaseEndpointLogged, releaseEndpoint, dropped,
        Ledger.release, capObjectDestroy, if_neg hrange, Ledger.addObject, Ledger.make, install,
        hi, h.reg]

lemma createObjectsLogged_cases (a : ChanArgs) :
    Undone w (RoomForObjects w a) (createObjectsLogged l a c rdEp wrEp) := by
  have hreg := h.reg
  rcases capObjectCreate_cases l.world.reg a.rdSlab (endpointArgs rdRights rdEp a.callerPid) with
    ⟨hrdSlab, rdIdx, hrdFree, hrd⟩ | ⟨hno, hrd⟩
  swap
  · rw [createObjectsLogged, hrd]
    refine undone_of_restored ?_ (restored_without_objects h)
    rintro ⟨⟨hslab, -⟩, i, -, -, hi, -⟩
    exact hno ⟨hslab, i, hreg ▸ hi⟩
  rcases capObjectCreate_cases
      (install l.world.reg rdIdx (newObject (endpointArgs rdRights rdEp a.callerPid) idxNone))
      a.wrSlab (endpointArgs wrRights wrEp a.callerPid) with ⟨hwrSlab, wrIdx, hwrFree, hwr⟩ | ⟨hno, hwr⟩
  · rw [freeSlot_install] at hwrFree
    have hne : wrIdx ≠ rdIdx := hwrFree.2
    refine .inr ⟨⟨⟨hrdSlab, hwrSlab⟩, rdIdx, wrIdx, hne.symm, hreg ▸ hrdFree, hreg ▸ hwrFree.1⟩, ?_⟩
    intro e l' herror
    obtain ⟨l₂, hl₂⟩ : ∃ l₂, l₂ =
        (l.addObject rdIdx (endpointObject rdRights rdEp a.callerPid)).addObject wrIdx
          (endpointObject wrRights wrEp a.callerPid) := ⟨_, rfl⟩
    have heq : createObjectsLogged l a c rdEp wrEp = insertEndpointsLogged l₂ a c rdIdx wrIdx := by
      simp only [createObjectsLogged, hrd, hwr, hl₂]
      rfl
    rw [heq] at herror
    have hrdObject := endpointObject_added h (hreg ▸ hrdFree) rdRights a.callerPid
    have hpublished : Published l₂ c rdEp wrEp rdIdx wrIdx := by
      rw [hl₂]
      refine ⟨?_, ?_, hne.symm⟩
      · obtain ⟨obj, hobj, hkind, hdata⟩ := hrdObject.object
        refine ⟨hrdObject.range, ⟨obj, ?_, hkind, hdata⟩, hrdObject.nonnull, hrdObject.endpoint,
          hrdObject.channel⟩
        rw [← hobj]
        simp [Ledger.addObject, Ledger.make, install, hne.symm]
      · refine ⟨⟨hwrFree.1.1, hwrFree.1.2.1⟩, ⟨endpointObject wrRights wrEp a.callerPid, ?_, rfl,
          rfl⟩, h.nonnull.2, h.endpoints.2, h.channel⟩
        simp [Ledger.addObject, Ledger.make, install]
    refine insertEndpointsLogged_error hpublished ?_ herror
    simp [hl₂, Ledger.addObject, Ledger.make, h.made]
  · simp only [createObjectsLogged, hrd, hwr]
    refine undone_of_restored ?_ (restored_without_second h (hreg ▸ hrdFree) rdRights a.callerPid)
    rintro ⟨⟨-, hslab⟩, i, j, hij, hi, hj⟩
    rw [← hreg] at hi hj
    refine hno ⟨hslab, ?_⟩
    by_cases hrdi : i = rdIdx
    · exact ⟨j, freeSlot_install.mpr ⟨hj, fun hj => hij (hrdi.trans hj.symm)⟩⟩
    · exact ⟨i, freeSlot_install.mpr ⟨hi, hrdi⟩⟩

omit h

/-- What has been made when the endpoints are to be allocated. -/
structure Opened (w : ChanWorld) (l : Ledger) (c : ℕ) : Prop where
  made : l.made = [.ring c, .channel c]
  released : l.released = []
  reg : l.world.reg = w.reg
  tables : l.world.tables = w.tables
  endpoints : l.world.endpoints = w.endpoints
  channel : ∃ chan, l.world.channels.mem c = some chan ∧ chan.refcount = 2

/-- Releasing the channel after a failed allocation of endpoints, of which `eps` were made
and have been released. -/
lemma restored_without_endpoints (h : Opened w l c) (eps : List Resource)
    (hmade : l'.made = eps ++ l.made) (hreleased : l'.released = eps)
    (hchannels : l'.world.channels = l.world.channels) (hreg : l'.world.reg = l.world.reg)
    (htables : l'.world.tables = l.world.tables) : Restored w (releaseChannelLogged l' c) := by
  obtain ⟨chan, hchan, -⟩ := h.channel
  refine ⟨?_, congrArg Registry.ptrs (hreg.trans h.reg), htables.trans h.tables⟩
  rw [← hchannels] at hchan
  simp only [releaseChannelLogged, Ledger.release, hchan, Option.isSome_some, if_true, hmade,
    h.made, hreleased]
  rw [perm_iff_count]
  intro x
  simp only [count_append, count_cons, count_nil]
  ring

lemma createEndpointsLogged_cases (hnull : NoNull w.endpoints) (h : Opened w l c) (a : ChanArgs) :
    Undone w ((a.rdPick.isSome ∧ a.wrPick.isSome) ∧ RoomForObjects w a)
      (createEndpointsLogged l a c) := by
  have hrdPick := kmemCacheAlloc_isSome l.world.endpoints zeroEndpoint a.rdPick
  unfold createEndpointsLogged
  rcases hrd : kmemCacheAlloc l.world.endpoints zeroEndpoint a.rdPick with _ | ⟨rdEp, eps⟩
  · rw [hrd] at hrdPick
    have hno : ¬((a.rdPick.isSome ∧ a.wrPick.isSome) ∧ RoomForObjects w a) :=
      fun hall => Bool.false_ne_true (hrdPick.trans hall.1.1)
    rcases kmemCacheAlloc l.world.endpoints zeroEndpoint a.wrPick with _ | ⟨wrEp, eps⟩
    · exact undone_of_restored hno (restored_without_endpoints h [] rfl h.released rfl rfl rfl)
    · refine undone_of_restored hno
        (restored_without_endpoints h [.endpoint wrEp] rfl ?_ rfl rfl rfl)
      simp [releaseEndpointLogged, Ledger.release, Ledger.make, h.released]
  · rw [hrd] at hrdPick
    have hnull' : NoNull l.world.endpoints := h.endpoints.symm ▸ hnull
    obtain ⟨hrdNe, hnull''⟩ := kmemCacheAlloc_noNull hnull' hrd
    have hwrPick := kmemCacheAlloc_isSome eps zeroEndpoint a.wrPick
    rcases hwr : kmemCacheAlloc eps zeroEndpoint a.wrPick with _ | ⟨wrEp, eps'⟩
    · rw [hwr] at hwrPick
      simp only [hwr]
      refine undone_of_restored (fun hall => Bool.false_ne_true (hwrPick.trans hall.1.2))
        (restored_without_endpoints h [.endpoint rdEp] rfl ?_ rfl rfl rfl)
      simp [releaseEndpointLogged, Ledger.release, Ledger.make, h.released]
    · rw [hwr] at hwrPick
      have hprepared : Prepared w ((l.make (.endpoint rdEp) { l.world with endpoints := eps }).make
          (.endpoint wrEp) { l.world with endpoints :=
            (eps'.write rdEp ⟨c, .read, a.callerPid⟩).write wrEp ⟨c, .write, a.callerPid⟩ })
          c rdEp wrEp := by
        refine ⟨by simp [Ledger.make, h.made], h.released, h.reg, h.tables,
          ⟨hrdNe, (kmemCacheAlloc_noNull hnull'' hwr).1⟩, ⟨?_, by simp [Ledger.make]⟩, h.channel⟩
        by_cases hsame : rdEp = wrEp
        · simp [Ledger.make, hsame]
        · simp [Ledger.make, mem_write_of_ne _ hsame]
      simp only [hwr]
      exact (createObjectsLogged_cases hprepared a).congr
        (and_iff_right ⟨hrdPick.symm, hwrPick.symm⟩).symm

/-- Every creation fails with everything given back, or makes both objects, and then a
failure releases something twice. -/
lemma chanCreateLogged_cases (hnull : NoNull w.endpoints) (a : ChanArgs) :
    Undone w (BothObjects w a) (chanCreateLogged ⟨w, [], []⟩ a) := by
  have hnothing : Restored w ⟨w, [], []⟩ := ⟨List.Perm.nil, rfl, rfl⟩
  unfold chanCreateLogged
  by_cases hcap : 0 < a.capacity ∧ a.capacity ≤ chanCapacityMax
  swap
  · rw [dif_neg hcap]
    exact undone_of_restored (fun h => hcap h.capacity) hnothing
  rw [dif_pos hcap]
  cases hmode : a.mode with
  | none => exact undone_of_restored (fun h => by simpa [hmode] using h.mode) hnothing
  | some mode =>
  by_cases hknown : a.typeKnown = true
  swap
  · simp only [hknown, Bool.not_false, if_true]
    exact undone_of_restored (fun h => hknown h.typeKnown) hnothing
  simp only [hknown, Bool.not_true, Bool.false_eq_true, if_false]
  have hpick := kmemCacheAlloc_isSome w.channels none a.chanPick
  rcases hchan : kmemCacheAlloc w.channels none a.chanPick with _ | ⟨c, channels⟩
  · rw [hchan] at hpick
    exact undone_of_restored (fun h => Bool.false_ne_true (hpick.trans h.channel)) hnothing
  rw [hchan] at hpick
  by_cases hheap : a.heap = true
  swap
  · simp only [hheap, Bool.not_false, if_true]
    exact undone_of_restored (fun h => hheap h.ring) ⟨.refl _, rfl, rfl⟩
  simp only [hheap, Bool.not_true, Bool.false_eq_true, if_false]
  have hopened : Opened w (((⟨w, [], []⟩ : Ledger).make (.channel c)
      { w with channels := channels }).make (.ring c) { w with
        channels := channels.write c (some (freshChannel a.typeHash mode a.capacity hcap.1)) })
      c :=
    ⟨rfl, rfl, rfl, rfl, rfl, _, mem_write_self .., rfl⟩
  refine (createEndpointsLogged_cases hnull hopened a).congr
    ⟨fun h => ⟨hcap, by simp [hmode], hknown, hpick.symm, hheap, h.1, h.2.1, h.2.2⟩,
      fun h => ⟨h.endpoints, h.objects, h.slots⟩⟩

/-- A creation that fails releases everything it made, each thing once, and leaves the
registry and the handle tables as they were, exactly if it does not come as far as having
made both capability objects. -/
theorem failed_creation_releases_once {w : ChanWorld} (hnull : NoNull w.endpoints) (a : ChanArgs) :
    (∀ e, (chanCreate w a).1 = .error e → Restored w (chanCreateLogged ⟨w, [], []⟩ a).2) ↔
      ∀ e, (chanCreate w a).1 = .error e → ¬BothObjects w a := by
  have hresult : (chanCreate w a).1 = (chanCreateLogged ⟨w, [], []⟩ a).1 := by
    rw [← chanCreateLogged_unlogged (l := ⟨w, [], []⟩)]
    rfl
  rw [hresult]
  refine forall_congr' fun e => imp_congr_right fun herror => ?_
  rcases chanCreateLogged_cases hnull a with ⟨hno, e', l', heq, hrestored⟩ | ⟨hboth, hcase⟩
  · rw [heq]
    exact ⟨fun _ => hno, fun _ => hrestored⟩
  · have htwice := hcase e _ (Prod.ext herror rfl)
    exact ⟨fun h => absurd h.released htwice, fun h => absurd hboth h⟩

/-- Pid 7 has a table without a free slot. -/
def crowded : ChanWorld :=
  { initial with tables := fun _ => some ⟨fun _ => ⟨5, 1#32, 0#8, slotNone⟩, 16, 16, slotNone⟩ }

/-- A call whose second capability object cannot be allocated. -/
theorem second_object_fails_cleanly :
    (∃ e, (chanCreate crowded { ChannelRefs.pipeArgs with wrSlab := false }).1 = .error e) ∧
      ∀ e, (chanCreate crowded { ChannelRefs.pipeArgs with wrSlab := false }).1 = .error e →
        Restored crowded
          (chanCreateLogged ⟨crowded, [], []⟩ { ChannelRefs.pipeArgs with wrSlab := false }).2 := by
  refine ⟨⟨_, rfl⟩, (failed_creation_releases_once ⟨by decide, by decide⟩ _).mpr ?_⟩
  intro e _ hboth
  exact absurd hboth.objects.2 (by decide)

/-- The insertion of the read handle fails and the channel is freed twice. -/
theorem failed_insert_frees_twice :
    (chanCreate crowded { ChannelRefs.pipeArgs with rdHeap := false }).1 =
        .error CapError.enomem.code ∧
      (chanCreateLogged ⟨crowded, [], []⟩ { ChannelRefs.pipeArgs with rdHeap := false }).2.made =
        [.object 2, .object 1, .endpoint 2, .endpoint 1, .ring 1, .channel 1] ∧
      (chanCreateLogged ⟨crowded, [], []⟩
          { ChannelRefs.pipeArgs with rdHeap := false }).2.released =
        [.channel 1, .endpoint 2, .channel 1, .ring 1, .object 2, .endpoint 1, .object 1] ∧
      (chanCreate crowded { ChannelRefs.pipeArgs with rdHeap := false }).2.channels.free =
        [1, 1] := by
  refine ⟨rfl, rfl, rfl, rfl⟩

end GrahaOS.ChannelCreation
