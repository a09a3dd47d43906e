import GrahaOS.HandleConservation

/-!
# What a failed send leaves in the sender's table

Marshalling takes the handles of a message out of the sender's table before `chan_send` decides
anything, and none of the ways in which it fails puts them back. A whole call is followed to its end
here: the first turn, and every turn that the task makes after it has waited for room.
-/

namespace GrahaOS.FailedSends

open Token CapRegistry Channels HandleTable HandlePassing HandleConservation

/-- The state in which a waiting send is woken, and what it is woken with. -/
structure Wake where
  world : World
  waitResult : ℤ

/-- The turns of a send that waits. While it waits the other tasks may do anything, but
its own table is as the call has left it. -/
def laterTurns (send : WaitingSend) (w : World) : List Wake → Outcome × World
  | [] => (.blocks, w)
  | wake :: rest =>
    let now := { wake.world.setTable send.pid (w.tables send.pid) with waiting := [send] }
    let r := wakeSend now 0 wake.waitResult
    if r.1 = .blocks then laterTurns send r.2 rest else r

/-- `SYS_CHAN_SEND` with the wakes it meets. -/
def sendCall (w : World) (pid : ℤ) (tok : CapToken) (m : UserMsg) (timeoutNs : ℕ)
    (env : Surroundings) (wakes : List Wake) : Outcome × World :=
  let r := sysChanSend w pid tok m timeoutNs env
  match r.1, r.2.waiting with
  | .blocks, send :: _ => laterTurns send r.2 wakes
  | _, _ => r

/-- A call returns a negative code. -/
def Failed (outcome : Outcome) : Prop := ∃ rc < 0, outcome = .code rc

/-- The two tables have the same handles. -/
def SameHandles (t t' : Table) : Prop := ∀ slot, capHandleLookup t' slot = capHandleLookup t slot

/-- The call passes every check up to the end of marshalling. -/
structure Marshalled (w : World) (pid : ℤ) (tok : CapToken) (m : UserMsg) (env : Surroundings) :
    Prop where
  pledged : env.pledged = true
  userPointer : env.userPointer = true
  task : pid ∈ w.tasks
  endpoint : ∃ c, chanResolveEndpoint w pid tok .write rightSend = .ok c
  inlineLen : m.header.inlineLen ≤ chanMsgInlineMax
  nhandles : m.header.nhandles ≤ chanMsgHandlesMax
  resolves : ∀ sent ∈ sentTokens m, (capTokenResolve w.reg pid sent 0#64).isSome

/-- The call passes every check, and an object of its message is in the sender's table. -/
def GivesUpHandles (w : World) (pid : ℤ) (tok : CapToken) (m : UserMsg) (env : Surroundings) :
    Prop :=
  Marshalled w pid tok m env ∧ ∃ sent ∈ sentTokens m, capTokenIdx sent ∈ refs (w.tables pid)

variable {t : Table} {objectIdxs : List ℕ}

lemma held_eq_lookup {slot : ℕ} (hslot : slot < t.capacity) :
    held (t.entries slot) = ((capHandleLookup t slot).map fun e => {e.objectIdx}).getD 0 := by
  unfold held capHandleLookup
  rw [if_neg (Nat.not_le.mpr hslot)]
  split_ifs <;> rfl

lemma refs_of_sameHandles {t' : Table} (hcap : t'.capacity = t.capacity) (h : SameHandles t t') :
    refs t' = refs t := by
  unfold refs
  rw [hcap]
  refine Finset.sum_congr rfl fun slot hslot => ?_
  have hlt := Finset.mem_range.mp hslot
  rw [held_eq_lookup (hcap ▸ hlt), held_eq_lookup hlt, h slot]

lemma capacity_removeHandles (objectIdxs : List ℕ) :
    ∀ t : Table, (removeHandles t objectIdxs).capacity = t.capacity := by
  induction objectIdxs with
  | nil =>
    intro t
    rfl
  | cons objectIdx rest ih =>
  intro t
  refine (ih _).trans ?_
  unfold removeByObject
  cases findHandle t objectIdx with
  | none => rfl
  | some slot =>
    simp only [capHandleRemove]
    split_ifs <;> rfl

lemma removeByObject_of_not_mem {objectIdx : ℕ} (h : objectIdx ∉ refs t) :
    removeByObject t objectIdx = t := by
  unfold removeByObject
  cases hfind : findHandle t objectIdx with
  | none => rfl
  | some slot =>
    refine absurd (mem_refs.mpr ?_) h
    have hmatch := List.find?_some hfind
    have hmem := List.mem_of_find?_eq_some hfind
    cases hlookup : capHandleLookup t slot with
    | none => simp [hlookup] at hmatch
    | some e => exact ⟨slot, List.mem_range.mp hmem, e, hlookup, by simpa [hlookup] using hmatch⟩

lemma removeHandles_of_not_mem (h : ∀ objectIdx ∈ objectIdxs, objectIdx ∉ refs t) :
    removeHandles t objectIdxs = t := by
  induction objectIdxs with
  | nil => rfl
  | cons objectIdx rest ih =>
    have hfirst : removeByObject t objectIdx = t := removeByObject_of_not_mem (h _ (by simp))
    have hrest := ih fun idx hidx => h idx (List.mem_cons_of_mem _ hidx)
    rw [removeHandles, List.foldl_cons, hfirst]
    exact hrest

lemma card_removeByObject_le (t : Table) (objectIdx : ℕ) :
    (refs (removeByObject t objectIdx)).card ≤ (refs t).card := by
  by_cases hmem : objectIdx ∈ refs t
  · rw [← refs_removeByObject hmem, Multiset.card_add]
    exact Nat.le_add_left _ _
  · rw [removeByObject_of_not_mem hmem]

lemma card_removeHandles_le (objectIdxs : List ℕ) :
    ∀ t : Table, (refs (removeHandles t objectIdxs)).card ≤ (refs t).card := by
  induction objectIdxs with
  | nil =>
    intro t
    exact le_rfl
  | cons objectIdx rest ih =>
    intro t
    exact (ih _).trans (card_removeByObject_le t objectIdx)

lemma card_removeHandles_lt : ∀ {t : Table},
    (∃ objectIdx ∈ objectIdxs, objectIdx ∈ refs t) →
      (refs (removeHandles t objectIdxs)).card < (refs t).card := by
  induction objectIdxs with
  | nil =>
    rintro t ⟨_, hmem, -⟩
    cases hmem
  | cons objectIdx rest ih =>
  rintro t ⟨held, hmem, hheld⟩
  by_cases hfirst : objectIdx ∈ refs t
  · have hone := congrArg Multiset.card (refs_removeByObject hfirst)
    rw [Multiset.card_add, Multiset.card_singleton] at hone
    have hrest := card_removeHandles_le rest (removeByObject t objectIdx)
    have hcons : removeHandles t (objectIdx :: rest) =
        removeHandles (removeByObject t objectIdx) rest := rfl
    rw [hcons]
    omega
  · have hlater : held ∈ rest := by
      rcases List.mem_cons.mp hmem with rfl | hlater
      · exact absurd hheld hfirst
      · exact hlater
    have hlt := ih ⟨held, hlater, hheld⟩
    rw [removeHandles, List.foldl_cons, removeByObject_of_not_mem hfirst]
    exact hlt

/-- Removing handles keeps the handles of a table exactly if it has none of them. -/
lemma sameHandles_removeHandles :
    SameHandles t (removeHandles t objectIdxs) ↔
      ¬∃ objectIdx ∈ objectIdxs, objectIdx ∈ refs t := by
  constructor
  · intro hsame hmem
    have hrefs := refs_of_sameHandles (capacity_removeHandles objectIdxs t) hsame
    have hlt := card_removeHandles_lt hmem
    rw [hrefs] at hlt
    exact lt_irrefl _ hlt
  · intro hnone slot
    rw [removeHandles_of_not_mem]
    intro objectIdx hidx hmem
    exact hnone ⟨objectIdx, hidx, hmem⟩

lemma resolveHandles_isOk {reg : Registry} {senderId : ℤ} {tokens : List CapToken} :
    (∃ objectIdxs, resolveHandles reg senderId tokens = .ok objectIdxs) ↔
      ∀ tok ∈ tokens, (capTokenResolve reg senderId tok 0#64).isSome := by
  induction tokens with
  | nil => simp [resolveHandles]
  | cons tok rest ih =>
    rw [List.forall_mem_cons, ← ih, resolveHandles]
    cases capTokenResolve reg senderId tok 0#64 with
    | none => simp
    | some i =>
      cases resolveHandles reg senderId rest with
      | error e => simp [Except.map]
      | ok objectIdxs => simp [Except.map]

/-- A first turn is refused by a check, or it is a turn of `chan_send` with a table that
has given up the message's objects. -/
lemma sysChanSend_cases (w : World) (pid : ℤ) (tok : CapToken) (m : UserMsg) (timeoutNs : ℕ)
    (env : Surroundings) :
    (Marshalled w pid tok m env ∧ ∃ c staged, sysChanSend w pid tok m timeoutNs env =
      (w.setTable pid (removeHandles (w.tables pid) ((sentTokens m).map capTokenIdx))).afterTurn
        ⟨pid, c, staged, timeoutNs⟩
        (chanSend (w.chans c) pid staged timeoutNs env.fault env.layers)) ∨
    (¬Marshalled w pid tok m env ∧
      ∃ e, sysChanSend w pid tok m timeoutNs env = (Outcome.error e, w)) := by
  unfold sysChanSend
  by_cases hpledged : env.pledged = true
  swap
  · refine .inr ⟨fun h => hpledged h.pledged, .epledge, ?_⟩
    simp [hpledged]
  by_cases hpointer : env.userPointer = true
  swap
  · refine .inr ⟨fun h => hpointer h.userPointer, .efault, ?_⟩
    simp [hpledged, hpointer]
  by_cases htask : pid ∈ w.tasks
  swap
  · refine .inr ⟨fun h => htask h.task, .einval, ?_⟩
    simp [hpledged, hpointer, htask]
  simp only [hpledged, hpointer, htask, Bool.not_true, not_true_eq_false, if_false,
    Bool.false_eq_true]
  cases hendpoint : chanResolveEndpoint w pid tok .write rightSend with
  | error e =>
    refine .inr ⟨fun h => ?_, e, rfl⟩
    obtain ⟨c, hc⟩ := h.endpoint
    rw [hendpoint] at hc
    cases hc
  | ok c =>
    unfold chanMarshalSend
    by_cases hlen : chanMsgInlineMax < m.header.inlineLen
    · rw [if_pos hlen]
      exact .inr ⟨fun h => Nat.not_le.mpr hlen h.inlineLen, _, rfl⟩
    rw [if_neg hlen]
    by_cases hhandles : chanMsgHandlesMax < m.header.nhandles
    · rw [if_pos hhandles]
      exact .inr ⟨fun h => Nat.not_le.mpr hhandles h.nhandles, _, rfl⟩
    rw [if_neg hhandles]
    cases hres : resolveHandles w.reg pid (sentTokens m) with
    | error e =>
      refine .inr ⟨fun h => ?_, e, rfl⟩
      obtain ⟨objectIdxs, hok⟩ := resolveHandles_isOk.mpr h.resolves
      rw [hres] at hok
      cases hok
    | ok objectIdxs =>
      refine .inl ⟨⟨hpledged, hpointer, htask, ⟨c, hendpoint⟩, Nat.not_lt.mp hlen,
        Nat.not_lt.mp hhandles, resolveHandles_isOk.mp ⟨objectIdxs, hres⟩⟩, c,
        stagedMsg m objectIdxs env.stack, ?_⟩
      rw [← resolveHandles_ok hres]

lemma tables_wakeSend (w : World) (k : ℕ) (waitResult : ℤ) :
    (wakeSend w k waitResult).2.tables = w.tables := by
  unfold wakeSend
  cases w.waiting[k]? with
  | none => rfl
  | some send =>
    simp only
    split_ifs <;> rfl

lemma tables_laterTurns (send : WaitingSend) (wakes : List Wake) : ∀ w : World,
    (laterTurns send w wakes).2.tables send.pid = w.tables send.pid := by
  induction wakes with
  | nil =>
    intro w
    rfl
  | cons wake rest ih =>
  intro w
  have hnow : (wakeSend { wake.world.setTable send.pid (w.tables send.pid) with
      waiting := [send] } 0 wake.waitResult).2.tables send.pid = w.tables send.pid := by
    rw [tables_wakeSend]
    exact Function.update_self _ _ _
  rw [laterTurns]
  split_ifs
  · exact (ih _).trans hnow
  · exact hnow

lemma tables_sendCall (w : World) (pid : ℤ) (tok : CapToken) (m : UserMsg) (timeoutNs : ℕ)
    (env : Surroundings) (wakes : List Wake) :
    (sendCall w pid tok m timeoutNs env wakes).2.tables pid =
      (sysChanSend w pid tok m timeoutNs env).2.tables pid := by
  unfold sendCall
  simp only
  by_cases hblocks : (sysChanSend w pid tok m timeoutNs env).1 = .blocks
  · rcases sysChanSend_cases w pid tok m timeoutNs env with
      ⟨-, c, staged, hturn⟩ | ⟨-, e, hrefused⟩
    · have hwaiting : (sysChanSend w pid tok m timeoutNs env).2.waiting =
          ⟨pid, c, staged, timeoutNs⟩ :: w.waiting := by
        rw [hturn] at hblocks ⊢
        exact if_pos hblocks
      rw [hblocks, hwaiting]
      exact tables_laterTurns _ wakes _
    · rw [hrefused] at hblocks
      cases hblocks
  · split
    · next h _ => exact absurd h hblocks
    · rfl

/-- The sender's table after a call, however it ends and however long it has waited. -/
lemma sameHandles_sendCall (w : World) (pid : ℤ) (tok : CapToken) (m : UserMsg) (timeoutNs : ℕ)
    (env : Surroundings) (wakes : List Wake) :
    SameHandles (w.tables pid) ((sendCall w pid tok m timeoutNs env wakes).2.tables pid) ↔
      ¬GivesUpHandles w pid tok m env := by
  rw [tables_sendCall]
  rcases sysChanSend_cases w pid tok m timeoutNs env with
    ⟨hmar, c, staged, hturn⟩ | ⟨hmar, e, hrefused⟩
  · have htable : (sysChanSend w pid tok m timeoutNs env).2.tables pid =
        removeHandles (w.tables pid) ((sentTokens m).map capTokenIdx) := by
      rw [hturn]
      exact Function.update_self _ _ _
    rw [htable, sameHandles_removeHandles]
    simp [GivesUpHandles, hmar]
  · rw [hrefused]
    exact ⟨fun _ h => hmar h.1, fun _ _ => rfl⟩

/-- A send that fails, at once or after any time of waiting, leaves the sender the handles
it had exactly if it fails one of the checks up to the end of marshalling or none of the
message's objects is in the sender's table. -/
theorem failed_send_keeps_handles (w : World) (pid : ℤ) (tok : CapToken) (m : UserMsg)
    (timeoutNs : ℕ) (env : Surroundings) (wakes : List Wake) :
    (Failed (sendCall w pid tok m timeoutNs env wakes).1 →
      SameHandles (w.tables pid) ((sendCall w pid tok m timeoutNs env wakes).2.tables pid)) ↔
    (Failed (sendCall w pid tok m timeoutNs env wakes).1 → ¬GivesUpHandles w pid tok m env) :=
  imp_congr_right fun _ => sameHandles_sendCall w pid tok m timeoutNs env wakes

lemma four_slots : 0 < 4 := by decide

/-- The channel of `oneSender` takes messages of another type. -/
def otherType : World :=
  { oneSender with chans := fun _ => freshChannel 7#64 .nonblocking 4 four_slots }

/-- The channel of `oneSender` is held by a snapshot. -/
def frozen : World :=
  { oneSender with chans := fun c => (chanFreezeLocked (oneSender.chans c) 3).2 }

/-- The channel of `oneSender` has one slot, which is taken. -/
def full : World :=
  { oneSender with
    chans := fun _ => (chanSendTurn (freshChannel 0#64 .blocking 1 Nat.one_pos) 7 zeroMsg 0).2 }

/-- A message with the only handle of its sender fails on a channel of another type, on a
frozen one, on a full one and after a timeout there, and each time the handle is gone. -/
theorem failed_send_loses_handle :
    ((sendCall otherType 7 (capTokenPack 1#32 2 0#8) (fileMsg 1) 0 quiet []).1 =
        .error .eprototype ∧
      (sendCall frozen 7 (capTokenPack 1#32 2 0#8) (fileMsg 1) 0 quiet []).1 = .error .efrozen ∧
      (sendCall full 7 (capTokenPack 1#32 2 0#8) (fileMsg 1) 0 quiet []).1 = .error .eagain ∧
      (sendCall full 7 (capTokenPack 1#32 2 0#8) (fileMsg 1) 9 quiet [⟨full, -11⟩]).1 =
        .code (-11)) ∧
    (capHandleLookup (oneSender.tables 7) 0).isSome ∧
    ∀ w ∈ [(otherType, 0), (frozen, 0), (full, 0), (full, 9)],
      capHandleLookup ((sendCall w.1 7 (capTokenPack 1#32 2 0#8) (fileMsg 1) w.2 quiet
        [⟨full, -11⟩]).2.tables 7) 0 = none := by
  refine ⟨⟨rfl, rfl, rfl, rfl⟩, by decide, ?_⟩
  simp only [List.forall_mem_cons, List.not_mem_nil, false_implies, implies_true, and_true]
  exact ⟨rfl, rfl, rfl, rfl⟩

end GrahaOS.FailedSends
