import GrahaOS.HandlePassing
import GrahaOS.Runs

/-!
# Handle passing never adds a reference

Every reference is in a handle table, in a message in a ring, or in a message that waits for room.
Sending and receiving move references and may lose some on the way. Sending adds references exactly
when the scan of the sender's table does not find what the message carries: a token sent twice and
held once, or usable but not held at all.
-/

namespace GrahaOS.HandleConservation

open RingBuffer Token CapRegistry Channels HandleTable HandlePassing Runs List Multiset
open scoped BigOperators

variable {w : World} {pid : ℤ} {t : Table} {c objectIdx : ℕ} {objectIdxs : List ℕ} {reg : Registry}
  {tok : CapToken} {m : UserMsg}

lemma findHandle_of_mem (h : objectIdx ∈ refs t) :
    ∃ slot e, findHandle t objectIdx = some slot ∧ capHandleLookup t slot = some e ∧
      e.objectIdx = objectIdx := by
  obtain ⟨slot, hslot, e, hlookup, he⟩ := mem_refs.mp h
  have hsome : (findHandle t objectIdx).isSome := by
    rw [findHandle, List.find?_isSome]
    exact ⟨slot, List.mem_range.mpr hslot, by simp [hlookup, he]⟩
  obtain ⟨found, hfound⟩ := Option.isSome_iff_exists.mp hsome
  have hmatch := List.find?_some hfound
  cases hentry : capHandleLookup t found with
  | none => simp [hentry] at hmatch
  | some e' => exact ⟨found, e', hfound, hentry, by simpa [hentry] using hmatch⟩

lemma refs_removeByObject (h : objectIdx ∈ refs t) :
    {objectIdx} + refs (removeByObject t objectIdx) = refs t := by
  obtain ⟨slot, e, hfind, hlookup, he⟩ := findHandle_of_mem h
  have hremove := refs_remove hlookup
  rw [he] at hremove
  simp only [removeByObject, hfind]
  rw [add_comm, hremove]

lemma refs_removeHandles : ∀ {t : Table},
    (objectIdxs : Multiset ℕ) ≤ refs t →
      (objectIdxs : Multiset ℕ) + refs (removeHandles t objectIdxs) = refs t := by
  induction objectIdxs with
  | nil =>
    intro t _
    simp [removeHandles]
  | cons objectIdx rest ih =>
  intro t hle
  have hmem : objectIdx ∈ refs t := mem_of_le hle (by simp)
  have hone := refs_removeByObject hmem
  have hsplit : ((objectIdx :: rest : List ℕ) : Multiset ℕ) = {objectIdx} + (rest : Multiset ℕ) := by
    rw [singleton_add, cons_coe]
  rw [hsplit, ← hone] at hle
  have hrest := ih (le_of_add_le_add_left hle)
  calc ((objectIdx :: rest : List ℕ) : Multiset ℕ) + refs (removeHandles t (objectIdx :: rest))
      = {objectIdx} + ((rest : Multiset ℕ) +
          refs (removeHandles (removeByObject t objectIdx) rest)) := by
        rw [hsplit, add_assoc]
        rfl
    _ = {objectIdx} + refs (removeByObject t objectIdx) := by rw [hrest]
    _ = refs t := hone

lemma refs_rollback_le (slots : List ℕ) : ∀ t : Table, refs (rollback t slots) ≤ refs t := by
  induction slots with
  | nil =>
    intro t
    exact le_rfl
  | cons slot slots ih =>
    intro t
    exact (ih _).trans (refs_remove_le t slot)

/-- However the insertion loop ends, the table gains at most the objects in the message. -/
lemma refs_insertHandles_le (reg : Registry) (heap : ℕ → Bool) (objectIdxs : List ℕ) :
    ∀ (i : ℕ) (t : Table) (inserted : List ℕ),
      refs (insertHandles reg heap objectIdxs i t inserted).table ≤
        Multiset.filter (· ≠ 0) (objectIdxs : Multiset ℕ) + refs t := by
  induction objectIdxs with
  | nil =>
    intro i t inserted
    simp [insertHandles]
  | cons objectIdx rest ih =>
  intro i t inserted
  rw [insertHandles, ← cons_coe]
  by_cases hzero : objectIdx = 0
  · rw [if_pos hzero, filter_cons_of_neg _ (by simpa using hzero)]
    exact ih (i + 1) t inserted
  rw [if_neg hzero, filter_cons_of_pos (p := (· ≠ 0)) _ hzero, ← singleton_add, add_right_comm]
  simp only
  split_ifs
  · calc refs (rollback (capHandleInsert t objectIdx 0#8 (heap i)).2.2 inserted)
        ≤ refs (capHandleInsert t objectIdx 0#8 (heap i)).2.2 := refs_rollback_le _ _
      _ ≤ {objectIdx} + refs t := refs_insert_le t objectIdx 0#8 (heap i)
      _ ≤ _ := le_add_right _ _
  · calc refs (insertHandles reg heap rest (i + 1) (capHandleInsert t objectIdx 0#8 (heap i)).2.2
          (inserted ++ [(capHandleInsert t objectIdx 0#8 (heap i)).2.1])).table
        ≤ Multiset.filter (· ≠ 0) (rest : Multiset ℕ) +
            refs (capHandleInsert t objectIdx 0#8 (heap i)).2.2 := ih _ _ _
      _ ≤ Multiset.filter (· ≠ 0) (rest : Multiset ℕ) + ({objectIdx} + refs t) := by
          gcongr
          exact refs_insert_le t objectIdx 0#8 (heap i)
      _ = {objectIdx} + refs t + Multiset.filter (· ≠ 0) (rest : Multiset ℕ) := add_comm _ _

lemma resolveHandles_ok {senderId : ℤ} {tokens : List CapToken} :
    ∀ {objectIdxs : List ℕ}, resolveHandles reg senderId tokens = .ok objectIdxs →
      objectIdxs = tokens.map capTokenIdx := by
  induction tokens with
  | nil =>
    intro objectIdxs h
    exact (Except.ok.inj h).symm
  | cons tok rest ih =>
  intro objectIdxs h
  rw [resolveHandles] at h
  cases hres : capTokenResolve reg senderId tok 0#64 with
  | none => simp [hres] at h
  | some i =>
    simp only [hres] at h
    cases hrest : resolveHandles reg senderId rest with
    | error e => simp [hrest, Except.map] at h
    | ok idxs =>
      simp only [hrest, Except.map] at h
      rw [← Except.ok.inj h, ih hrest, List.map_cons]

lemma msgRefs_stagedMsg_le (m : UserMsg) (hlen : objectIdxs.length ≤ chanMsgHandlesMax)
    (stack : Fin chanMsgInlineMax → UInt8) :
    msgRefs (stagedMsg m objectIdxs stack) ≤ (objectIdxs : Multiset ℕ) := by
  obtain ⟨extra, hextra⟩ := Nat.exists_eq_add_of_le hlen
  have hpad : List.ofFn (stagedMsg m objectIdxs stack).inFlightIdx =
      objectIdxs ++ List.replicate extra 0 := by
    apply ext_getElem
    · simp only [length_ofFn, length_append, length_replicate]
      exact hextra
    · intro i hi _
      simp only [List.getElem_ofFn, stagedMsg]
      rcases Nat.lt_or_ge i objectIdxs.length with hlt | hge
      · rw [getElem_append_left hlt]
        simp [List.getD, hlt]
      · rw [getElem_append_right hge]
        simp [List.getD, hge]
  rw [msgRefs, hpad, ← coe_add, filter_add]
  have hzeros : Multiset.filter (· ≠ 0) ((List.replicate extra 0 : List ℕ) : Multiset ℕ) = 0 := by
    rw [filter_eq_nil]
    intro a ha
    simp [List.eq_of_mem_replicate (mem_coe.mp ha)]
  rw [hzeros, add_zero]
  exact filter_le _ _

lemma inFlight_push (c : Channel) (msg : ChannelMsg) (hroom : c.ring.count < c.ring.capacity) :
    ((c.ring.push msg hroom).contents.map msgRefs).sum = inFlight c + msgRefs msg := by
  rw [RingBuf.contents_push, map_append, sum_append]
  simp [inFlight]

/-- A turn of a send puts at most its message into the ring, and nothing if it blocks. -/
lemma chanSendTurn_inFlight (c : Channel) (senderId : ℤ) (msg : ChannelMsg) (timeoutNs : ℕ) :
    inFlight (chanSendTurn c senderId msg timeoutNs).2 ≤ inFlight c + msgRefs msg ∧
    ((chanSendTurn c senderId msg timeoutNs).1 = .blocks →
      inFlight (chanSendTurn c senderId msg timeoutNs).2 = inFlight c) := by
  unfold chanSendTurn
  split_ifs with hfrozen hroom
  · exact ⟨le_add_right _ _, fun _ => rfl⟩
  · refine ⟨(inFlight_push c _ hroom).le, fun h => ?_⟩
    cases h
  · exact ⟨le_add_right _ _, fun _ => rfl⟩
  · exact ⟨le_add_right _ _, fun _ => rfl⟩

lemma chanSend_inFlight (c : Channel) (senderId : ℤ) (msg : ChannelMsg) (timeoutNs : ℕ)
    (fault : Bool) (layers : List TxnLayer) :
    inFlight (chanSend c senderId msg timeoutNs fault layers).2 ≤ inFlight c + msgRefs msg ∧
    ((chanSend c senderId msg timeoutNs fault layers).1 = .blocks →
      inFlight (chanSend c senderId msg timeoutNs fault layers).2 = inFlight c) := by
  unfold chanSend
  split_ifs
  · exact ⟨le_add_right _ _, fun _ => rfl⟩
  · exact ⟨le_add_right _ _, fun _ => rfl⟩
  cases txnRoute layers with
  | error rc => exact ⟨le_add_right _ _, fun _ => rfl⟩
  | ok buffered =>
    cases buffered with
    | true => exact ⟨le_add_right _ _, fun _ => rfl⟩
    | false => exact chanSendTurn_inFlight c senderId msg timeoutNs

/-- A receive takes the references of the message it hands out from the ring. -/
lemma chanRecv_inFlight (c : Channel) (timeoutNs : ℕ) :
    (∃ slot chan, chanRecv c timeoutNs = (.got slot, chan) ∧
      inFlight c = msgRefs slot + inFlight chan) ∨
    (∃ outcome, chanRecv c timeoutNs = (outcome, c) ∧ ∀ slot, outcome ≠ .got slot) := by
  unfold chanRecv
  split_ifs with hfrozen hsome
  · exact .inr ⟨_, rfl, by simp [Outcome.error]⟩
  · refine .inl ⟨_, _, rfl, ?_⟩
    rw [inFlight, c.ring.contents_pop clearHandles hsome, List.map_cons, List.sum_cons]
    rfl
  · exact .inr ⟨_, rfl, by simp [Outcome.error]⟩
  · exact .inr ⟨_, rfl, by simp [Outcome.error]⟩
  · exact .inr ⟨_, rfl, by simp⟩

lemma heldRefs_setTable (hpid : pid ∈ w.tasks) (t : Table) :
    heldRefs (w.setTable pid t) + refs (w.tables pid) = refs t + heldRefs w := by
  simp only [heldRefs, World.setTable, Function.apply_update fun _ => refs]
  exact sum_update_add hpid (fun p => refs (w.tables p)) (refs t)

lemma ringRefs_setChan (hc : c ∈ w.live) (chan : Channel) :
    ringRefs (w.setChan c chan) + inFlight (w.chans c) = inFlight chan + ringRefs w := by
  simp only [ringRefs, World.setChan, Function.apply_update fun _ => inFlight]
  exact sum_update_add hc (fun i => inFlight (w.chans i)) (inFlight chan)

lemma total_afterTurn_le {send : WaitingSend} {r : Outcome × Channel}
    (hlive : send.channel ∈ w.live)
    (hle : inFlight r.2 ≤ inFlight (w.chans send.channel) + msgRefs send.msg)
    (hblocks : r.1 = .blocks → inFlight r.2 = inFlight (w.chans send.channel)) :
    total (w.afterTurn send r).2 ≤ msgRefs send.msg + total w := by
  have hring := ringRefs_setChan hlive r.2
  by_cases hwait : r.1 = .blocks
  · rw [hblocks hwait, add_comm] at hring
    have hsame : ringRefs (w.setChan send.channel r.2) = ringRefs w := add_left_cancel hring
    have hwaiting : waitingRefs (w.afterTurn send r).2 = msgRefs send.msg + waitingRefs w := by
      simp [World.afterTurn, waitingRefs, hwait]
    have hrings : ringRefs (w.afterTurn send r).2 = ringRefs w := hsame
    have hheld : heldRefs (w.afterTurn send r).2 = heldRefs w := rfl
    rw [total, total, hwaiting, hrings, hheld]
    exact (add_left_comm _ _ _).le
  · have hgain : ringRefs (w.setChan send.channel r.2) ≤ msgRefs send.msg + ringRefs w := by
      apply le_of_add_le_add_right
      rw [hring, add_right_comm, add_comm (msgRefs send.msg)]
      gcongr
    have hwaiting : waitingRefs (w.afterTurn send r).2 = waitingRefs w := by
      simp [World.afterTurn, waitingRefs, World.setChan, hwait]
    have hrings : ringRefs (w.afterTurn send r).2 = ringRefs (w.setChan send.channel r.2) := rfl
    have hheld : heldRefs (w.afterTurn send r).2 = heldRefs w := rfl
    rw [total, total, hwaiting, hrings, hheld]
    calc heldRefs w + ringRefs (w.setChan send.channel r.2) + waitingRefs w
        ≤ heldRefs w + (msgRefs send.msg + ringRefs w) + waitingRefs w := by gcongr
      _ = msgRefs send.msg + (heldRefs w + ringRefs w + waitingRefs w) := by
          rw [add_left_comm, add_assoc]

lemma chanResolveEndpoint_live {dir : Direction} {rights : BitVec 64}
    (h : chanResolveEndpoint w pid tok dir rights = .ok c) : c ∈ w.live := by
  unfold chanResolveEndpoint at h
  cases hobj : (capTokenResolve w.reg pid tok rights).bind w.reg.ptrs with
  | none => simp [hobj] at h
  | some obj =>
  simp only [hobj] at h
  split_ifs at h with hkind
  cases hep : w.endpoints obj.kindData with
  | none => simp [hep] at h
  | some ep =>
    simp only [hep] at h
    split_ifs at h with hlive hdir
    rw [← Except.ok.inj h]
    exact hlive

/-- Marshalling by a sender that holds what it sends moves references from its table
into the message. -/
lemma chanMarshalSend_refs {t' : Table} {stack : Fin chanMsgInlineMax → UInt8} {staged : ChannelMsg}
    (h : chanMarshalSend reg pid t m stack = .ok (staged, t'))
    (hholds : (((sentTokens m).map capTokenIdx : List ℕ) : Multiset ℕ) ≤ refs t) :
    msgRefs staged + refs t' ≤ refs t := by
  unfold chanMarshalSend at h
  split_ifs at h with hlen hhandles
  cases hres : resolveHandles reg pid (sentTokens m) with
  | error e => simp [hres] at h
  | ok objectIdxs =>
  simp only [hres] at h
  cases h
  have hidxs := resolveHandles_ok hres
  have hbound : objectIdxs.length ≤ chanMsgHandlesMax := by
    rw [hidxs, length_map, sentTokens, length_take, length_ofFn]
    exact min_le_right _ _
  rw [← hidxs] at hholds
  calc msgRefs (stagedMsg m objectIdxs stack) + refs (removeHandles t objectIdxs)
      ≤ (objectIdxs : Multiset ℕ) + refs (removeHandles t objectIdxs) := by
        gcongr
        exact msgRefs_stagedMsg_le m hbound stack
    _ = refs t := refs_removeHandles hholds

lemma total_setTable (hpid : pid ∈ w.tasks) (t : Table) :
    total (w.setTable pid t) + refs (w.tables pid) = refs t + total w := by
  have hheld := heldRefs_setTable hpid t
  have hring : ringRefs (w.setTable pid t) = ringRefs w := rfl
  have hwaiting : waitingRefs (w.setTable pid t) = waitingRefs w := rfl
  rw [total, total, hring, hwaiting]
  calc heldRefs (w.setTable pid t) + ringRefs w + waitingRefs w + refs (w.tables pid)
      = heldRefs (w.setTable pid t) + refs (w.tables pid) + ringRefs w + waitingRefs w := by
        abel
    _ = refs t + (heldRefs w + ringRefs w + waitingRefs w) := by
        rw [hheld]
        abel

lemma total_send_le {timeoutNs : ℕ} {env : Surroundings}
    (h : HoldsWhatItSends w (.send pid tok m timeoutNs env)) :
    total (sysChanSend w pid tok m timeoutNs env).2 ≤ total w := by
  unfold sysChanSend
  split_ifs with hpledge hpointer htask
  · exact le_refl (total w)
  · exact le_refl (total w)
  · cases hep : chanResolveEndpoint w pid tok .write rightSend with
    | error e => exact le_rfl
    | ok c =>
    rcases hmar : chanMarshalSend w.reg pid (w.tables pid) m env.stack with e | ⟨staged, t⟩
    · exact le_rfl
    have hmoved := chanMarshalSend_refs hmar h
    have hturn := chanSend_inFlight (w.chans c) pid staged timeoutNs env.fault env.layers
    have hafter := @total_afterTurn_le (w.setTable pid t) ⟨pid, c, staged, timeoutNs⟩ _
      (chanResolveEndpoint_live hep) hturn.1 hturn.2
    have htable := total_setTable htask t
    refine hafter.trans ?_
    apply le_of_add_le_add_right
    calc msgRefs staged + total (w.setTable pid t) + refs (w.tables pid)
        = msgRefs staged + refs t + total w := by rw [add_assoc, htable, add_assoc]
      _ ≤ refs (w.tables pid) + total w := by gcongr
      _ = total w + refs (w.tables pid) := add_comm _ _
  · exact le_refl (total w)

lemma total_wake_le (w : World) (k : ℕ) (waitResult : ℤ) :
    total (wakeSend w k waitResult).2 ≤ total w := by
  unfold wakeSend
  cases hk : w.waiting[k]? with
  | none => exact le_rfl
  | some send =>
  have hmem : msgRefs send.msg + waitingRefs { w with waiting := w.waiting.eraseIdx k } =
      waitingRefs w := by
    obtain ⟨hlt, hget⟩ := List.getElem?_eq_some_iff.mp hk
    have hperm := getElem_cons_eraseIdx_perm hlt
    rw [hget] at hperm
    have hsum := (hperm.map fun s => msgRefs s.msg).sum_eq
    rwa [List.map_cons, List.sum_cons] at hsum
  have htotal : msgRefs send.msg + total { w with waiting := w.waiting.eraseIdx k } = total w := by
    rw [total, total, ← hmem, add_left_comm]
    rfl
  have hdrop : total { w with waiting := w.waiting.eraseIdx k } ≤ total w := by
    rw [← htotal]
    exact le_add_left _ _
  simp only
  split_ifs with hresult hlive
  · exact hdrop
  · have hturn := chanSendTurn_inFlight (w.chans send.channel) send.pid send.msg send.timeoutNs
    rw [← htotal]
    exact @total_afterTurn_le { w with waiting := w.waiting.eraseIdx k } send _ hlive hturn.1
      hturn.2
  · exact hdrop

lemma total_delivered_le {slot : ChannelMsg} {chan : Channel} (htask : pid ∈ w.tasks)
    (hlive : c ∈ w.live) (hring : inFlight (w.chans c) = msgRefs slot + inFlight chan)
    (htable : refs t ≤ msgRefs slot + refs (w.tables pid)) (endpoints : ℕ → Option ChanEndpoint) :
    total { (w.setChan c chan).setTable pid t with endpoints := endpoints } ≤ total w := by
  have hleft : ringRefs (w.setChan c chan) + msgRefs slot = ringRefs w := by
    have hsum := ringRefs_setChan hlive chan
    rw [hring, ← add_assoc, add_comm (inFlight chan)] at hsum
    exact add_right_cancel hsum
  have hentered : heldRefs (w.setTable pid t) ≤ msgRefs slot + heldRefs w := by
    have hsum := heldRefs_setTable htask t
    apply le_of_add_le_add_right
    rw [hsum, add_right_comm]
    gcongr
  calc heldRefs (w.setTable pid t) + ringRefs (w.setChan c chan) + waitingRefs w
      ≤ msgRefs slot + heldRefs w + ringRefs (w.setChan c chan) + waitingRefs w := by gcongr
    _ = heldRefs w + (ringRefs (w.setChan c chan) + msgRefs slot) + waitingRefs w := by abel
    _ = total w := by rw [hleft, total]

lemma refs_marshalRecv_le (reg : Registry) (t : Table) (slot : ChannelMsg) (userMsg : UserMsg)
    (heap : ℕ → Bool) :
    refs (chanMarshalRecv reg t slot userMsg heap).1.table ≤ msgRefs slot + refs t := by
  refine (refs_insertHandles_le reg heap _ 0 t []).trans ?_
  gcongr
  exact filter_le_filter _ (coe_le.mpr (take_sublist _ _).subperm)

lemma total_recv_le (w : World) (pid : ℤ) (tok : CapToken) (userMsg : UserMsg) (timeoutNs : ℕ)
    (env : Surroundings) : total (sysChanRecv w pid tok userMsg timeoutNs env).2 ≤ total w := by
  unfold sysChanRecv
  split_ifs with hpledge hpointer htask
  · exact le_refl (total w)
  · exact le_refl (total w)
  · cases hep : chanResolveEndpoint w pid tok .read rightRecv with
    | error e => exact le_refl (total w)
    | ok c =>
    have hlive := chanResolveEndpoint_live hep
    simp only
    rcases chanRecv_inFlight (w.chans c) timeoutNs with
      ⟨slot, chan, hrecv, hring⟩ | ⟨outcome, hrecv, hnone⟩
    · rw [hrecv]
      exact total_delivered_le htask hlive hring
        (refs_marshalRecv_le w.reg (w.tables pid) slot userMsg env.heap) _
    · rw [hrecv]
      have hsame : w.setChan c (w.chans c) = w := by simp [World.setChan]
      cases outcome with
      | got slot => exact absurd rfl (hnone slot)
      | sent msg | buffered | code rc | blocks => simp only [hsame, le_refl]
  · exact le_refl (total w)

theorem total_step_le {op : IpcOp} (h : HoldsWhatItSends w op) : total (step w op) ≤ total w := by
  cases op with
  | send pid tok m timeoutNs env => exact total_send_le h
  | wake k waitResult => exact total_wake_le w k waitResult
  | recv pid tok userMsg timeoutNs env => exact total_recv_le w pid tok userMsg timeoutNs env

/-- In every run in which each sender holds, as often as it sends them, the objects whose
tokens it sends, no reference is gained: not by any call, in any order, by any tasks. -/
theorem handle_passing_never_duplicates {w : World} {ops : List IpcOp}
    (hrun : Guarded step HoldsWhatItSends w ops) :
    heldRefs (run step w ops) + ringRefs (run step w ops) + waitingRefs (run step w ops) ≤
      heldRefs w + ringRefs w + waitingRefs w := by
  have hgain : total (run step w ops) ≤ total w :=
    relation_run (R := fun w w' => total w' ≤ total w) (fun _ => le_rfl)
      (fun h₁ h₂ => h₂.trans h₁) (fun _ _ h => total_step_le h) hrun
  exact hgain

/-- A registry with the read and the write end of channel 0 (slots 1 and 2) and a file
that task 7 may use (slot 3), all with generation 1. -/
def sharedRegistry : Registry where
  ptrs := fun i =>
    let audience : Audience := ⟨[7], by decide⟩
    if i = 1 then
      some { sentinel with kind := .channel, kindData := 1, flags := 0#8, audienceSet := audience }
    else if i = 2 then
      some { sentinel with kind := .channel, kindData := 2, flags := 0#8, audienceSet := audience }
    else if i = 3 then
      some { sentinel with kind := .file, flags := 0#8, audienceSet := audience }
    else none
  count := 4

/-- Task 7 holds the file once; the channel has room for four messages. -/
def oneSender : World where
  reg := sharedRegistry
  tasks := {7}
  tables := fun _ => (capHandleInsert capHandleTableInit 3 0#8 true).2.2
  endpoints := fun i =>
    if i = 1 then some ⟨0, .read, 7⟩ else if i = 2 then some ⟨0, .write, 7⟩ else none
  live := {0}
  chans := fun _ => freshChannel 0#64 .nonblocking 4 (by decide)
  waiting := []

def quiet : Surroundings := ⟨true, true, false, [], fun _ => 0, fun _ => true⟩

/-- A message that carries the file's token `n` times. -/
def fileMsg (n : ℕ) : UserMsg where
  header := { zeroMsg.header with nhandles := n }
  inlinePayload := fun _ => 0
  handles := fun _ => capTokenPack 1#32 3 0#8

def sendFile (n : ℕ) : IpcOp := .send 7 (capTokenPack 1#32 2 0#8) (fileMsg n) 0 quiet

def receiveFile : IpcOp := .recv 7 (capTokenPack 1#32 1 0#8) (fileMsg 0) 0 quiet

theorem sendFile_once_conserves :
    heldRefs (run step oneSender [sendFile 1, receiveFile]) +
        ringRefs (run step oneSender [sendFile 1, receiveFile]) +
        waitingRefs (run step oneSender [sendFile 1, receiveFile]) ≤
      heldRefs oneSender + ringRefs oneSender + waitingRefs oneSender ∧
    3 ∈ ringRefs (run step oneSender [sendFile 1]) :=
  ⟨handle_passing_never_duplicates ⟨by decide, trivial, trivial⟩, by decide⟩

/-- A token sent twice and held once arrives twice, and a token that is usable but no
longer held is sent again. -/
theorem repeated_token_gains_reference :
    Multiset.count 3 (heldRefs oneSender + ringRefs oneSender) = 1 ∧
    Multiset.count 3 (heldRefs (run step oneSender [sendFile 2, receiveFile]) +
      ringRefs (run step oneSender [sendFile 2, receiveFile])) = 2 ∧
    Multiset.count 3 (heldRefs (run step oneSender [sendFile 1, sendFile 1]) +
      ringRefs (run step oneSender [sendFile 1, sendFile 1])) = 2 := by
  refine ⟨by decide, by decide, by decide⟩

end GrahaOS.HandleConservation
