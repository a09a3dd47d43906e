import GrahaOS.ChannelLifetime
import GrahaOS.References

/-!
# The reference count of a channel

A channel is referred to by the CHANNEL objects in the registry, each through an endpoint of its
own. Two things break the account. Derivation copies the endpoint pointer of its parent, so that two
objects share one endpoint and one reference. And a `chan_create` that fails to enter its objects in
the caller's handle table destroys them, which frees the channel, and then frees it again.
-/

namespace GrahaOS.ChannelRefs

open CapRegistry Revoke Channels HandleTable SlabCache ChannelLifetime References Runs
  Function
open CapHistory hiding step
open HandlePassing hiding step

/-- The endpoint that the object in a slot points at, if it is a CHANNEL object. -/
def channelRef (r : Registry) (i : ℕ) : Option ℕ :=
  (r.ptrs i).bind fun o => if o.kind = .channel then some o.kindData else none

/-- The channel that the object in a slot points at through its endpoint. -/
def channelOf (w : ChanWorld) (i : ℕ) : Option ℕ :=
  (channelRef w.reg i).map fun ep => (w.endpoints.mem ep).channel

/-- The number of CHANNEL objects that point at a channel. -/
def pointing (w : ChanWorld) (c : ℕ) : ℕ :=
  holders (Finset.range capObjectCapacity) (channelOf w) c

/-- The count in each channel is the number of objects that point at it, a channel is
allocated exactly while there is such an object, and no object points at a freed endpoint. -/
structure Accounted (w : ChanWorld) : Prop where
  refcount : ∀ c, Live w.channels c →
    ∃ chan, w.channels.mem c = some chan ∧ chan.refcount = pointing w c
  freed_last : ∀ c, Live w.channels c ↔ 0 < pointing w c
  endpoint : ∀ i ep, channelRef w.reg i = some ep → Live w.endpoints ep

/-- The caller has a task and its table takes two more entries. -/
def TakesTwo (w : ChanWorld) (a : ChanArgs) : Prop :=
  ∃ t, w.tables a.callerPid = some t ∧ ∀ i j, i < capObjectCapacity → j < capObjectCapacity →
    0 ≤ (capHandleInsert t i 0#8 a.rdHeap).1 ∧
      0 ≤ (capHandleInsert (capHandleInsert t i 0#8 a.rdHeap).2.2 j 0#8 a.wrHeap).1

variable {w w' : ChanWorld} {c rdEp wrEp rdIdx idx n wrIdx : ℕ} {r : Registry} {a : ChanArgs}
  {o : CapObject} {chan : Channel}

lemma TakesTwo.congr (h : TakesTwo w a) (htables : w'.tables = w.tables) : TakesTwo w' a := by
  unfold TakesTwo
  rw [htables]
  exact h

/-- No CHANNEL object is in the slot. -/
def NoChannelAt (w : ChanWorld) (i : ℕ) : Prop := channelRef w.reg i = none

/-- The steps that keep the account: nothing is derived from a CHANNEL object, and channels
are created by tasks with room for the two handles. -/
def Tame (w : ChanWorld) : LifeOp → Prop
  | .channel a => TakesTwo w a
  | .derive _ a => NoChannelAt w a.parentIdx
  | .inherit _ idx _ _ => NoChannelAt w idx
  | _ => True

lemma channelRef_of_none {i : ℕ} (h : r.ptrs i = none) : channelRef r i = none := by
  simp [channelRef, h]

lemma channelRef_install (r : Registry) (slot : ℕ) (o : CapObject) :
    channelRef (install r slot o) = update (channelRef r) slot
      (if o.kind = .channel then some o.kindData else none) := by
  funext i
  by_cases hi : i = slot
  · subst hi
    simp [channelRef, install]
  · simp [channelRef, install, hi]

lemma channelRef_attach_other {slot p : ℕ} {parent : CapObject} (hfree : r.ptrs slot = none)
    (hparent : r.ptrs p = some parent) (hkind : o.kind ≠ .channel) :
    channelRef (attach r slot o p parent) = channelRef r := by
  funext i
  by_cases hp : i = p
  · subst hp
    simp [channelRef, attach, hparent]
  · by_cases hi : i = slot
    · subst hi
      simp [channelRef, attach, hp, hfree, hkind]
    · simp [channelRef, attach, hp, hi]

lemma channelRef_keeps {r' : Registry} (hk : Keeps r r') : channelRef r' = channelRef r := by
  funext i
  cases ho : r.ptrs i with
  | none => rw [channelRef_of_none ho, channelRef_of_none ((hk i).1 ho)]
  | some o =>
    obtain ⟨o', ho', hre⟩ := (hk i).2 o ho
    simp [channelRef, ho, ho', hre.kind, hre.kindData]

lemma channelRef_destroy (hrange : ¬(idx = 0 ∨ capObjectCapacity ≤ idx)) :
    channelRef (capObjectDestroy r idx) = update (channelRef r) idx none := by
  funext i
  rw [capObjectDestroy, if_neg hrange]
  by_cases hi : i = idx
  · subst hi
    simp [channelRef]
  · simp [channelRef, hi]

/-- A step of the registry that creates no CHANNEL object and destroys none changes no
CHANNEL object. -/
lemma channelRef_capStep {op : CapOp} (hcreate : ∀ slab a, op = .create slab a → a.kind ≠ .channel)
    (hderive : ∀ a x, Derives r a x op → channelRef r a.parentIdx = none)
    (hdestroy : ∀ idx, op ≠ .destroy idx) : channelRef (capStep r op) = channelRef r := by
  generalize hr' : capStep r op = r'
  have heffect := capStep_effect r op
  rw [hr'] at heffect
  cases heffect with
  | same => rfl
  | root slab a hop htakes hslot =>
    have hkind : (newObject a idxNone).kind ≠ .channel := hcreate slab a hop
    rw [channelRef_install, if_neg hkind, ← channelRef_of_none (findFreeSlot_spec hslot).2.2,
      update_eq_self]
  | child a x parent hop htakes hslot hparent hpos hcap hchecks =>
    refine channelRef_attach_other (findFreeSlot_spec hslot).2.2 hparent ?_
    intro hkind
    have hparentKind : parent.kind = .channel := hkind
    have hnone := hderive a x hop
    simp [channelRef, hparent, hparentKind] at hnone
  | revoked idx hop hkeeps => exact channelRef_keeps hkeeps
  | cleared idx hop hpos => exact absurd hop (hdestroy idx)

/-- What every state of a tame run satisfies: besides the account itself, objects do not
share endpoints and the caches are sound. -/
structure Inv (w : ChanWorld) : Prop where
  channels : Sound w.channels
  endpoints : Sound w.endpoints
  bounded : ∀ i, capObjectCapacity ≤ i → channelRef w.reg i = none
  owned : ∀ i ep, channelRef w.reg i = some ep →
    Live w.endpoints ep ∧ Live w.channels (w.endpoints.mem ep).channel
  unshared : ∀ i j ep, channelRef w.reg i = some ep → channelRef w.reg j = some ep → i = j
  counted : ∀ c, Live w.channels c → 0 < pointing w c ∧
    ∃ chan, w.channels.mem c = some chan ∧ chan.refcount = pointing w c

namespace Inv

variable {w w' : ChanWorld}

lemma mem_range (h : Inv w) {i ep : ℕ} (hi : channelRef w.reg i = some ep) :
    i ∈ Finset.range capObjectCapacity := by
  rw [Finset.mem_range]
  by_contra hout
  rw [h.bounded i (Nat.le_of_not_lt hout)] at hi
  cases hi

lemma live_of_pointing (h : Inv w) (hc : 0 < pointing w c) : Live w.channels c := by
  obtain ⟨i, -, hi⟩ := holders_pos_iff.mp hc
  cases href : channelRef w.reg i with
  | none => simp [channelOf, href] at hi
  | some ep =>
    obtain rfl : (w.endpoints.mem ep).channel = c := by simpa [channelOf, href] using hi
    exact (h.owned i ep href).2

theorem accounted (h : Inv w) : Accounted w where
  refcount := fun c hc => (h.counted c hc).2
  freed_last := fun c => ⟨fun hc => (h.counted c hc).1, h.live_of_pointing⟩
  endpoint := fun i ep hi => (h.owned i ep hi).1

/-- The invariant speaks of the CHANNEL objects and of the allocated memory only. -/
theorem of_same (h : Inv w) (href : channelRef w'.reg = channelRef w.reg)
    (hchannels : Extends w.channels w'.channels ∅)
    (hendpoints : Extends w.endpoints w'.endpoints ∅) : Inv w' := by
  have hlive : ∀ c, Live w'.channels c ↔ Live w.channels c := by simpa using hchannels.live
  have hliveEp : ∀ ep, Live w'.endpoints ep ↔ Live w.endpoints ep := by simpa using hendpoints.live
  have hmem : ∀ i ep, channelRef w.reg i = some ep → w'.endpoints.mem ep = w.endpoints.mem ep :=
    fun i ep hi => hendpoints.mem ep (h.owned i ep hi).1
  have hof : channelOf w' = channelOf w := by
    funext i
    cases hi : channelRef w.reg i with
    | none => simp [channelOf, href, hi]
    | some ep => simp [channelOf, href, hi, hmem i ep hi]
  have hpointing : pointing w' = pointing w := by
    funext c
    rw [pointing, hof, pointing]
  refine ⟨hchannels.sound, hendpoints.sound, ?_, ?_, ?_, ?_⟩
  · rw [href]
    exact h.bounded
  · intro i ep hi
    rw [href] at hi
    rw [hliveEp, hlive, hmem i ep hi]
    exact h.owned i ep hi
  · rw [href]
    exact h.unshared
  · intro c hc
    rw [hpointing, hchannels.mem c ((hlive c).mp hc)]
    exact h.counted c ((hlive c).mp hc)

end Inv

/-- Dropping one of `n + 1` references frees the channel if none is left. -/
structure Dropped (w w' : ChanWorld) (c n : ℕ) : Prop where
  reg : w'.reg = w.reg
  endpoints : w'.endpoints = w.endpoints
  sound : Sound w'.channels
  live : ∀ c', Live w'.channels c' ↔ Live w.channels c' ∧ (c' = c → 0 < n)
  other : ∀ c', c' ≠ c → w'.channels.mem c' = w.channels.mem c'
  counted : 0 < n → ∃ chan, w'.channels.mem c = some chan ∧ chan.refcount = n

lemma dropChannelRef_spec (hsound : Sound w.channels) (hlive : Live w.channels c)
    (hchan : w.channels.mem c = some chan) (hcount : chan.refcount = n + 1)
    (hle : n + 1 ≤ capObjectCapacity) : Dropped w (dropChannelRef w c) c n := by
  have hcap : capObjectCapacity = 65536 := rfl
  have hless : (chan.refcount + (2 ^ 32 - 1)) % 2 ^ 32 = n := by omega
  simp only [dropChannelRef, hchan, hless]
  split_ifs with hzero
  · subst hzero
    refine ⟨rfl, rfl, ((hsound.write ..).write ..).free hlive, ?_, ?_, fun h => absurd h (by simp)⟩
    · intro c'
      simp [chanFree, live_free]
    · intro c' hne
      rw [chanFree, mem_kmemCacheFree, mem_write_of_ne _ hne, mem_write_of_ne _ hne]
  · refine ⟨rfl, rfl, hsound.write .., ?_, fun c' hne => mem_write_of_ne _ hne _, ?_⟩
    · intro c'
      simp [Nat.pos_of_ne_zero hzero]
    · intro _
      exact ⟨_, mem_write_self .., rfl⟩

lemma inv_deactivate (h : Inv w) {ep : ℕ} (hidx : channelRef w.reg idx = some ep)
    (hr : channelRef r = update (channelRef w.reg) idx none) :
    Inv (releaseEndpoint (dropChannelRef { w with reg := r } (w.endpoints.mem ep).channel) ep) := by
  obtain ⟨hliveEp, hliveChan⟩ := h.owned idx ep hidx
  obtain ⟨hpos, chan, hchan, hcount⟩ := h.counted _ hliveChan
  set c := (w.endpoints.mem ep).channel with hc
  obtain ⟨n, hn⟩ := Nat.exists_eq_add_of_le' hpos
  have hd : Dropped _ (dropChannelRef { w with reg := r } c) c n :=
    dropChannelRef_spec h.channels hliveChan hchan (hcount.trans hn)
      (hn ▸ holders_le_card.trans_eq (Finset.card_range _))
  generalize dropChannelRef { w with reg := r } c = w₁ at hd
  have hreg : channelRef (releaseEndpoint w₁ ep).reg = update (channelRef w.reg) idx none := by
    rw [← hr]
    exact congrArg channelRef hd.reg
  have heps : (releaseEndpoint w₁ ep).endpoints = kmemCacheFree w.endpoints ep :=
    congrArg (kmemCacheFree · ep) hd.endpoints
  generalize hw' : releaseEndpoint w₁ ep = w' at hreg heps ⊢
  have hchannels : w'.channels = w₁.channels := by rw [← hw']; rfl
  have hback : ∀ {i ep'}, channelRef w'.reg i = some ep' → i ≠ idx ∧ channelRef w.reg i = some ep' := by
    intro i ep' hi
    rw [hreg] at hi
    by_cases hii : i = idx
    · simp [hii] at hi
    · exact ⟨hii, by simpa [hii] using hi⟩
  have hpointing : ∀ c', pointing w' c' + (if c' = c then 1 else 0) = pointing w c' := by
    intro c'
    have hof : channelOf w' = update (channelOf w) idx none := by
      funext i
      rw [channelOf, hreg, heps]
      by_cases hi : i = idx
      · subst hi
        simp
      · simp [hi, channelOf]
    rw [pointing, hof]
    exact holders_drop (h.mem_range hidx) (by simp [channelOf, hidx, hc]) c'
  have hself : pointing w' c = n := by simpa [hn] using hpointing c
  have hother : ∀ c', c' ≠ c → pointing w' c' = pointing w c' := by
    intro c' hne
    simpa [hne] using hpointing c'
  refine ⟨hchannels ▸ hd.sound, heps ▸ h.endpoints.free hliveEp, ?_, ?_, ?_, ?_⟩
  · intro i hi
    cases hi' : channelRef w'.reg i with
    | none => rfl
    | some ep' => exact absurd (h.bounded i hi) (by simp [(hback hi').2])
  · intro i ep' hi
    obtain ⟨hne, hi'⟩ := hback hi
    obtain ⟨hl, hlc⟩ := h.owned i ep' hi'
    have hepne : ep' ≠ ep := by
      rintro rfl
      exact hne (h.unshared i idx ep' hi' hidx)
    rw [heps, live_free, mem_kmemCacheFree, hchannels, hd.live]
    refine ⟨⟨hl, hepne⟩, hlc, ?_⟩
    -- An object that still points at the channel is one of the remaining references.
    intro hsame
    rw [← hself]
    exact holders_pos_iff.mpr ⟨i, h.mem_range hi', by simp [channelOf, hi, heps, hsame]⟩
  · intro i j ep' hi hj
    exact h.unshared i j ep' (hback hi).2 (hback hj).2
  · intro c' hc'
    rw [hchannels] at hc' ⊢
    obtain ⟨hlive, hleft⟩ := (hd.live c').mp hc'
    by_cases hne : c' = c
    · subst hne
      rw [hself]
      exact ⟨hleft rfl, hd.counted (hleft rfl)⟩
    · rw [hother c' hne, hd.other c' hne]
      exact h.counted c' hlive

lemma inv_destroyObject (h : Inv w) (idx : ℕ) : Inv (destroyObject w idx) := by
  unfold destroyObject
  by_cases hrange : idx = 0 ∨ capObjectCapacity ≤ idx
  · rw [if_pos hrange]
    exact h
  rw [if_neg hrange]
  cases hobj : w.reg.ptrs idx with
  | none => exact h
  | some obj =>
  simp only
  have hr := channelRef_destroy (r := w.reg) hrange
  by_cases hkind : obj.kind = .channel
  · have hidx : channelRef w.reg idx = some obj.kindData := by simp [channelRef, hobj, hkind]
    have hnonnull : obj.kindData ≠ 0 := (h.owned idx _ hidx).1.1.ne'
    rw [if_pos hkind, chanEndpointDeactivate, if_neg hnonnull]
    exact inv_deactivate h hidx hr
  · rw [if_neg hkind]
    have hidx : channelRef w.reg idx = none := by simp [channelRef, hobj, hkind]
    refine h.of_same ?_ (Extends.refl h.channels) (Extends.refl h.endpoints)
    rw [hr, ← hidx, update_eq_self]

/-- The state in which `chan_create` creates its objects: the channel and its two endpoints
are allocated and filled in. -/
structure Staged (w w' : ChanWorld) (c rdEp wrEp : ℕ) : Prop where
  reg : w'.reg = w.reg
  tables : w'.tables = w.tables
  channels : Extends w.channels w'.channels {c}
  endpoints : Extends w.endpoints w'.endpoints {rdEp, wrEp}
  distinct : rdEp ≠ wrEp
  nonnull : 0 < rdEp
  chan : ∃ chan, w'.channels.mem c = some chan ∧ chan.refcount = 2
  rd : (w'.endpoints.mem rdEp).channel = c
  wr : (w'.endpoints.mem wrEp).channel = c

lemma inv_published (h : Inv w)
    (hchannels : Extends w.channels w'.channels {c})
    (hendpoints : Extends w.endpoints w'.endpoints {rdEp, wrEp}) (hdistinct : rdEp ≠ wrEp)
    (hchan : ∃ chan, w'.channels.mem c = some chan ∧ chan.refcount = 2)
    (hrd : (w'.endpoints.mem rdEp).channel = c) (hwr : (w'.endpoints.mem wrEp).channel = c)
    (hrdIdx : rdIdx < capObjectCapacity) (hwrIdx : wrIdx < capObjectCapacity)
    (hne : wrIdx ≠ rdIdx) (hrdFree : channelRef w.reg rdIdx = none)
    (hwrFree : channelRef w.reg wrIdx = none)
    (hreg : channelRef w'.reg = update
      (update (channelRef w.reg) rdIdx (some rdEp)) wrIdx (some wrEp)) : Inv w' := by
  have hcases : ∀ {i ep}, channelRef w'.reg i = some ep →
      (i = rdIdx ∧ ep = rdEp) ∨ (i = wrIdx ∧ ep = wrEp) ∨ channelRef w.reg i = some ep := by
    intro i ep hi
    rw [hreg] at hi
    by_cases hiw : i = wrIdx
    · subst hiw
      exact .inr (.inl ⟨rfl, by simpa using hi.symm⟩)
    · by_cases hir : i = rdIdx
      · subst hir
        exact .inl ⟨rfl, by simpa [hiw] using hi.symm⟩
      · exact .inr (.inr (by simpa [hiw, hir] using hi))
  have hold : ∀ {i ep}, channelRef w.reg i = some ep → ep ≠ rdEp ∧ ep ≠ wrEp := by
    intro i ep hi
    have hlive := (h.owned i ep hi).1
    constructor
    · rintro rfl
      exact hendpoints.fresh ep (by simp) hlive
    · rintro rfl
      exact hendpoints.fresh ep (by simp) hlive
  have hcfresh : ¬Live w.channels c := hchannels.fresh c (by simp)
  have hof : channelOf w' = update (update (channelOf w) rdIdx (some c)) wrIdx (some c) := by
    funext i
    rw [channelOf, hreg]
    by_cases hiw : i = wrIdx
    · subst hiw
      simp [hwr]
    by_cases hir : i = rdIdx
    · subst hir
      simp [hiw, hrd]
    · cases hi : channelRef w.reg i with
      | none => simp [hiw, hir, channelOf, hi]
      | some ep => simp [hiw, hir, channelOf, hi, hendpoints.mem ep (h.owned i ep hi).1]
  have hpointing : ∀ c', pointing w' c' = pointing w c' + if c' = c then 2 else 0 := by
    intro c'
    have hfirst : update (channelOf w) rdIdx (some c) wrIdx = none := by
      simp [hne, channelOf, hwrFree]
    rw [pointing, hof, holders_take (Finset.mem_range.mpr hwrIdx) hfirst,
      holders_take (Finset.mem_range.mpr hrdIdx) (by simp [channelOf, hrdFree]), ← pointing]
    split_ifs <;> rfl
  have hnone : pointing w c = 0 := by
    by_contra hpos
    exact hcfresh (h.live_of_pointing (Nat.pos_of_ne_zero hpos))
  have hclive : Live w'.channels c := (hchannels.live c).mpr (.inr (by simp))
  refine ⟨hchannels.sound, hendpoints.sound, ?_, ?_, ?_, ?_⟩
  · intro i hi
    have hir : i ≠ rdIdx := by omega
    have hiw : i ≠ wrIdx := by omega
    simpa [hreg, hir, hiw] using h.bounded i hi
  · intro i ep hi
    rw [hendpoints.live]
    rcases hcases hi with ⟨-, rfl⟩ | ⟨-, rfl⟩ | hi
    · exact ⟨by simp, hrd.symm ▸ hclive⟩
    · exact ⟨by simp, hwr.symm ▸ hclive⟩
    · obtain ⟨hl, hlc⟩ := h.owned i ep hi
      rw [hendpoints.mem ep hl, hchannels.live]
      exact ⟨.inl hl, .inl hlc⟩
  · intro i j ep hi hj
    rcases hcases hi with ⟨rfl, rfl⟩ | ⟨rfl, rfl⟩ | hi' <;>
      rcases hcases hj with ⟨rfl, hj'⟩ | ⟨rfl, hj'⟩ | hj'
    · rfl
    · exact absurd hj' hdistinct
    · exact absurd rfl (hold hj').1
    · exact absurd hj'.symm hdistinct
    · rfl
    · exact absurd rfl (hold hj').2
    · exact absurd hj' (hold hi').1
    · exact absurd hj' (hold hi').2
    · exact h.unshared i j ep hi' hj'
  · intro c' hc'
    rw [hpointing]
    rcases (hchannels.live c').mp hc' with hlive | hmem
    · have hcne : c' ≠ c := by
        rintro rfl
        exact hcfresh hlive
      rw [if_neg hcne, add_zero, hchannels.mem c' hlive]
      exact h.counted c' hlive
    · obtain rfl := Finset.mem_singleton.mp hmem
      rw [if_pos rfl, hnone]
      exact ⟨by decide, hchan⟩

lemma inv_released (h : Inv w) (hreg : channelRef w'.reg = channelRef w.reg)
    (hchannels : Extends w.channels w'.channels {c})
    (hendpoints : Extends w.endpoints w'.endpoints {rdEp, wrEp}) (hdistinct : rdEp ≠ wrEp) :
    Inv (releaseChannel (releaseEndpoint (releaseEndpoint w' rdEp) wrEp) c) := by
  refine h.of_same hreg ?_ ?_
  · simpa [releaseChannel, releaseEndpoint] using hchannels.free (Finset.mem_singleton_self c)
  · have hfirst := hendpoints.free (Finset.mem_insert_self rdEp _)
    rw [Finset.erase_insert (by simpa using hdistinct)] at hfirst
    simpa [releaseChannel, releaseEndpoint] using hfirst.free (Finset.mem_singleton_self wrEp)

lemma insertEndpoints_eq (ht : TakesTwo w a) (hrd : rdIdx < capObjectCapacity)
    (hwr : wrIdx < capObjectCapacity) :
    ∃ r t, insertEndpoints w a c rdIdx wrIdx = (.ok r, w.setTable a.callerPid t) := by
  obtain ⟨t, htable, hroom⟩ := ht
  obtain ⟨hfirst, hsecond⟩ := hroom rdIdx wrIdx hrd hwr
  refine ⟨(tokenFor w.reg rdIdx, tokenFor w.reg wrIdx),
    (capHandleInsert (capHandleInsert t rdIdx 0#8 a.rdHeap).2.2 wrIdx 0#8 a.wrHeap).2.2, ?_⟩
  simp only [insertEndpoints, htable, if_neg (not_lt.mpr hfirst), if_neg (not_lt.mpr hsecond)]

/-- Destroying the read object again while the channel still counts both. -/
lemma destroyObject_rd (hnonnull : 0 < rdEp) (hrd : (w.endpoints.mem rdEp).channel = c)
    (hchan : w.channels.mem c = some chan) (hcount : chan.refcount = 2)
    (hrange : ¬(rdIdx = 0 ∨ capObjectCapacity ≤ rdIdx)) (hobj : w.reg.ptrs rdIdx = some o)
    (hkind : o.kind = .channel) (hdata : o.kindData = rdEp) :
    destroyObject w rdIdx = releaseEndpoint { w with
      reg := capObjectDestroy w.reg rdIdx
      channels := w.channels.write c (some { chan with refcount := 1 }) } rdEp := by
  have hnz : rdEp ≠ 0 := hnonnull.ne'
  simp [destroyObject, if_neg hrange, hobj, hkind, chanEndpointDeactivate, hdata, hnz,
    dropChannelRef, hrd, hchan, hcount]

lemma inv_createObjects (h : Inv w) (hs : Staged w w' c rdEp wrEp) (ht : TakesTwo w a) :
    Inv (createObjects w' a c rdEp wrEp).2 := by
  obtain ⟨chan, hchan, hcount⟩ := hs.chan
  unfold createObjects
  rcases capObjectCreate_root w'.reg a.rdSlab (endpointArgs rdRights rdEp a.callerPid) with
    hfail | ⟨rdIdx, -, hrdSlot, hrdOk⟩
  · rw [hfail]
    exact inv_released h (congrArg channelRef hs.reg) hs.channels hs.endpoints hs.distinct
  rw [hrdOk]
  simp only
  obtain ⟨hrdPos, hrdCap, hrdFree⟩ := findFreeSlot_spec hrdSlot
  rw [hs.reg] at hrdFree ⊢
  set r₁ := install w.reg rdIdx (newObject (endpointArgs rdRights rdEp a.callerPid) idxNone)
    with hr₁
  rcases capObjectCreate_root r₁ a.wrSlab (endpointArgs wrRights wrEp a.callerPid) with
    hfail | ⟨wrIdx, -, hwrSlot, hwrOk⟩
  · rw [hfail]
    have hrange : ¬(rdIdx = 0 ∨ capObjectCapacity ≤ rdIdx) := by omega
    simp only
    rw [destroyObject_rd (w := { w' with reg := r₁ }) hs.nonnull hs.rd hchan hcount hrange
      (update_self ..) rfl rfl]
    refine inv_released h ?_ (hs.channels.write (Finset.mem_singleton_self c) _) hs.endpoints
      hs.distinct
    rw [channelRef_destroy hrange, hr₁, channelRef_install, update_idem,
      ← channelRef_of_none hrdFree, update_eq_self]
  · rw [hwrOk]
    simp only
    obtain ⟨hwrPos, hwrCap, hwrFree⟩ := findFreeSlot_spec hwrSlot
    have hne : wrIdx ≠ rdIdx := by
      rintro rfl
      simp [hr₁, install] at hwrFree
    have hwrOld : w.reg.ptrs wrIdx = none := by simpa [hr₁, install, hne] using hwrFree
    generalize hreg : install r₁ wrIdx _ = r
    have htwo : TakesTwo { w' with reg := r } a := ht.congr hs.tables
    obtain ⟨tokens, t, hinsert⟩ := insertEndpoints_eq htwo hrdCap hwrCap
    rw [hinsert]
    refine inv_published h hs.channels hs.endpoints hs.distinct hs.chan hs.rd hs.wr hrdCap hwrCap
      hne (channelRef_of_none hrdFree) (channelRef_of_none hwrOld) ?_
    change channelRef r = _
    rw [← hreg, channelRef_install, hr₁, channelRef_install]
    rfl

lemma inv_createEndpoints (h : Inv w) (hreg : w'.reg = w.reg) (htables : w'.tables = w.tables)
    (heps : w'.endpoints = w.endpoints) (hchannels : Extends w.channels w'.channels {c})
    (hchan : w'.channels.mem c = some chan) (hcount : chan.refcount = 2) (ht : TakesTwo w a) :
    Inv (createEndpoints w' a c).2 := by
  have hstart : Extends w.endpoints w'.endpoints ∅ := by
    rw [heps]
    exact Extends.refl h.endpoints
  have hfreed : Extends w.channels (kmemCacheFree w'.channels c) ∅ := by
    simpa using hchannels.free (Finset.mem_singleton_self c)
  -- An endpoint allocated alone is given back.
  have hone : ∀ {pick ep eps}, kmemCacheAlloc w'.endpoints zeroEndpoint pick = some (ep, eps) →
      Inv (releaseChannel (releaseEndpoint { w' with endpoints := eps } ep) c) := by
    intro pick ep eps halloc
    refine h.of_same (congrArg channelRef hreg) hfreed ?_
    simpa [releaseChannel, releaseEndpoint] using
      (hstart.alloc halloc).1.free (Finset.mem_insert_self ep ∅)
  unfold createEndpoints
  cases hrd : kmemCacheAlloc w'.endpoints zeroEndpoint a.rdPick with
  | none =>
    cases hwr : kmemCacheAlloc w'.endpoints zeroEndpoint a.wrPick with
    | none => exact h.of_same (congrArg channelRef hreg) hfreed hstart
    | some r => exact hone hwr
  | some r =>
  obtain ⟨rdEp, eps⟩ := r
  obtain ⟨hfirst, hrdPos, -, -⟩ := hstart.alloc hrd
  simp only
  cases hwr : kmemCacheAlloc eps zeroEndpoint a.wrPick with
  | none => exact hone hrd
  | some r =>
  obtain ⟨wrEp, eps'⟩ := r
  obtain ⟨hsecond, -, hnew, -⟩ := hfirst.alloc hwr
  have hdistinct : wrEp ≠ rdEp := by simpa using hnew
  have hpair : insert wrEp (insert rdEp (∅ : Finset ℕ)) = {rdEp, wrEp} := by
    rw [insert_empty_eq, Finset.pair_comm]
  rw [hpair] at hsecond
  refine inv_createObjects h ⟨hreg, htables, hchannels,
    (hsecond.write (by simp) _).write (by simp) _, hdistinct.symm, hrdPos,
    ⟨chan, hchan, hcount⟩, ?_, ?_⟩ ht
  · simp [mem_write_of_ne _ hdistinct.symm]
  · simp

lemma inv_chanCreate (h : Inv w) (ht : TakesTwo w a) : Inv (chanCreate w a).2 := by
  unfold chanCreate
  by_cases hcap : 0 < a.capacity ∧ a.capacity ≤ chanCapacityMax
  · rw [dif_pos hcap]
    cases a.mode with
    | none => exact h
    | some mode =>
    cases htype : a.typeKnown with
    | false => exact h
    | true =>
    cases halloc : kmemCacheAlloc w.channels none a.chanPick with
    | none => exact h
    | some r =>
    obtain ⟨c, channels⟩ := r
    obtain ⟨hext, -, -, -⟩ := (Extends.refl h.channels).alloc halloc
    rw [insert_empty_eq] at hext
    cases hheap : a.heap with
    | false =>
      refine h.of_same rfl ?_ (Extends.refl h.endpoints)
      simpa [releaseChannel] using hext.free (Finset.mem_singleton_self c)
    | true =>
      exact inv_createEndpoints h rfl rfl rfl (hext.write (Finset.mem_singleton_self c) _)
        (mem_write_self ..) rfl ht
  · rw [dif_neg hcap]
    exact h

lemma inv_initial : Inv initial where
  channels := sound_create _
  endpoints := sound_create _
  bounded := by
    intro i hi
    have hne : i ≠ 0 := by
      rintro rfl
      exact absurd hi (by decide)
    exact channelRef_of_none (if_neg hne)
  owned := by
    intro i ep hi
    simp only [channelRef, initial, capObjectInit] at hi
    split_ifs at hi <;> simp [sentinel] at hi
  unshared := by
    intro i j ep hi
    simp only [channelRef, initial, capObjectInit] at hi
    split_ifs at hi <;> simp [sentinel] at hi
  counted := by
    rintro c ⟨hpos, hlt, -⟩
    have hone : c < 1 := hlt
    omega

theorem inv_step (w : ChanWorld) (op : LifeOp) (h : Inv w) (hop : Tame w op) : Inv (step w op) := by
  have hregistry : ∀ {r}, channelRef r = channelRef w.reg → Inv { w with reg := r } :=
    fun hr => h.of_same hr (Extends.refl h.channels) (Extends.refl h.endpoints)
  cases op with
  | channel a => exact inv_chanCreate h hop
  | object slab a other =>
    refine hregistry (channelRef_capStep ?_ (fun _ _ hd => hd.elim) (fun _ => by simp))
    intro slab' a' heq
    obtain ⟨-, rfl⟩ := CapOp.create.inj heq
    exact other
  | derive slab a =>
    refine hregistry (channelRef_capStep (fun _ _ heq => by cases heq) ?_ (fun _ => by simp))
    rintro a' x ⟨rfl, -⟩
    exact hop
  | inherit slab idx parentId childId =>
    refine hregistry (channelRef_capStep (fun _ _ heq => by cases heq) ?_ (fun _ => by simp))
    rintro a' x ⟨-, obj, -, rfl, -⟩
    exact hop
  | revoke idx =>
    exact hregistry (channelRef_capStep (fun _ _ heq => by cases heq) (fun _ _ hd => hd.elim)
      (fun _ => by simp))
  | destroy idx => exact inv_destroyObject h idx
  | tables tables =>
    exact h.of_same rfl (Extends.refl h.channels) (Extends.refl h.endpoints)

/-- In every state of a run that derives nothing from CHANNEL objects and creates channels
only for tasks with room for their handles, a channel's reference count is the number of
CHANNEL objects that point at it, and it is freed exactly when the last of them goes. -/
theorem channel_refcount_is_number_of_objects {ops : List LifeOp}
    (hops : Guarded step Tame initial ops) : Accounted (run step initial ops) :=
  (invariant_run Inv inv_step inv_initial hops).accounted

lemma takesTwo_fresh (ht : w.tables a.callerPid = some capHandleTableInit) : TakesTwo w a := by
  refine ⟨capHandleTableInit, ht, ?_⟩
  intro i j hi hj
  have hcap : capObjectCapacity < idxNone := by decide
  have hine : i ≠ idxNone := by omega
  have hjne : j ≠ idxNone := by omega
  have hfree : capHandleTableInit.nextFree ≠ slotNone := by decide
  have hfree' : (takeSlot capHandleTableInit i 0#8).nextFree ≠ slotNone :=
    show 1 ≠ slotNone by decide
  simp only [capHandleInsert, if_neg hine, if_neg hjne, if_neg hfree, if_neg hfree']
  exact ⟨by decide, show 0 ≤ (1#32).toInt by decide⟩

/-- A channel for pid 7; every allocation succeeds and reuses the last address returned. -/
def pipeArgs : ChanArgs where
  typeHash := 1#64
  typeKnown := true
  mode := some .blocking
  capacity := 1
  callerPid := 7
  chanPick := some 0
  heap := true
  rdPick := some 0
  wrPick := some 0
  rdSlab := true
  wrSlab := true
  rdHeap := true
  wrHeap := true

/-- Every task has an empty handle table. -/
def freshTables : LifeOp := .tables fun _ => some capHandleTableInit

/-- Pid 7 derives a copy of one of its endpoint objects for itself. -/
def copyEndpoint (idx : ℕ) : LifeOp := .derive true ⟨idx, 7, 0#64, none, 0#8⟩

theorem channel_is_freed_with_its_second_endpoint :
    Guarded step Tame initial [freshTables, .channel pipeArgs, .destroy 1, .destroy 2] ∧
      Accounted (run step initial [freshTables, .channel pipeArgs, .destroy 1, .destroy 2]) := by
  have hguard : Guarded step Tame initial
      [freshTables, .channel pipeArgs, .destroy 1, .destroy 2] :=
    ⟨trivial, takesTwo_fresh rfl, trivial, trivial, trivial⟩
  exact ⟨hguard, channel_refcount_is_number_of_objects hguard⟩

/-- A channel whose count is not the number of objects that point at it. -/
lemma not_accounted {t : Finset ℕ} (hlive : Live w.channels c)
    (hcount : (w.channels.mem c).map Channel.refcount = some n)
    (hsub : t ⊆ Finset.range capObjectCapacity) (ht : ∀ i ∈ t, channelOf w i = some c)
    (hcard : n < t.card) : ¬Accounted w := by
  intro hacc
  obtain ⟨chan, hchan, hrefs⟩ := hacc.refcount c hlive
  obtain rfl : chan.refcount = n := by simpa [hchan] using hcount
  have hle : t.card ≤ pointing w c := card_le_holders hsub ht
  omega

/-- A derived endpoint object is not counted; with both endpoints copied, destroying the
copies frees the channel under the two objects that `chan_create` made. And a creation by a
task that does not exist frees its channel twice, so that the next two channels are one. -/
theorem copied_endpoint_or_failed_creation_is_miscounted :
    ¬Accounted (run step initial [freshTables, .channel pipeArgs, copyEndpoint 1]) ∧
    (∃ w c, w = run step initial [freshTables, .channel pipeArgs, copyEndpoint 1, copyEndpoint 2,
        .destroy 3, .destroy 4] ∧ channelOf w 1 = some c ∧ ¬Live w.channels c) ∧
    ¬Accounted (run step initial
      [.channel pipeArgs, freshTables, .channel pipeArgs, .channel pipeArgs]) := by
  refine ⟨?_, ⟨_, 1, rfl, by decide, by decide⟩, ?_⟩
  · refine @not_accounted _ 1 2 {1, 2, 3} (by decide) (by decide) ?_ (by decide) (by decide)
    simp [Finset.insert_subset_iff, capObjectCapacity]
  · refine @not_accounted _ 1 2 {1, 2, 3, 4} (by decide) (by decide) ?_ (by decide) (by decide)
    simp [Finset.insert_subset_iff, capObjectCapacity]

end GrahaOS.ChannelRefs
