import GrahaOS.TxnDelivery

/-!
# Nested transactions

A send inside nested transactions is appended to the buffer of every transaction whose scope
excludes the peer. The history names a buffered message by the transaction and its position in that
transaction's buffer.

A replay passes the prologue of `chan_send`, so that the commit of an inner transaction delivers at
once and that of the outer one again, and the abort of an inner transaction leaves the copy in the
outer buffer. An attempt that stalls has delivered the records before the stall.
-/

namespace GrahaOS.TxnNesting

open Channels Transactions Runs List

/-- An external send: the transactions open at the time, innermost first, and the places in
their buffers it was put into. -/
structure Sent where
  enclosing : List ℕ
  entries : List (ℕ × ℕ)
deriving DecidableEq

structure History where
  world : TxnWorld
  sends : List Sent
  delivered : List (ℕ × ℕ)
  committed : List ℕ
  aborted : List ℕ

/-- The places a send was put into: where the number of records has grown. -/
def entriesOf (before after : List Txn) : List (ℕ × ℕ) :=
  (before.zip after).filterMap fun p =>
    if p.1.bufferedCount < p.2.bufferedCount then some (p.1.id, p.1.bufferedCount) else none

/-- The record behind which a commit of the innermost transaction starts. -/
def cursorOf (w : TxnWorld) : ℕ :=
  match w.stack with
  | [] => 0
  | t :: _ => (startContext t).deliveredCount

def record (h : History) : TxnOp → History
  | .txnBegin flags system scopePids failure =>
    { h with world := (txnBegin h.world flags system scopePids failure).2 }
  | .chanSend chanId msg timeoutNs fault vmo =>
    let w := (chanSendFrom h.world chanId msg timeoutNs fault vmo).2
    let entries := entriesOf h.world.stack w.stack
    { h with
      world := w
      sends := if entries = [] then h.sends
        else h.sends ++ [⟨h.world.stack.map Txn.id, entries⟩] }
  | .txnCommit handle env =>
    let r := txnCommit h.world handle env
    { h with
      world := r.world
      delivered := h.delivered ++
        (List.range' (cursorOf h.world) r.delivered.length).map (handle, ·)
      committed := if r.rc = 0 then h.committed ++ [handle] else h.committed }
  | .txnAbort handle =>
    let r := txnAbort h.world handle
    { h with
      world := r.2
      aborted := if r.1 = 0 then h.aborted ++ [handle] else h.aborted }
  | .others chans holders issued => { h with world := h.world.afterOthers chans holders issued }

/-- A task in no transaction. -/
def start (w : TxnWorld) : History := ⟨{ w with stack := [], replayInProgress := false }, [], [], [], []⟩

/-- Every external send reaches its channel at most once, only after every transaction that
enclosed it has committed, and never if one of them aborted. -/
structure Proper (h : History) : Prop where
  at_most_once : ∀ s ∈ h.sends, (h.delivered.filter (· ∈ s.entries)).length ≤ 1
  after_commit : ∀ s ∈ h.sends, ∀ e ∈ s.entries, e ∈ h.delivered →
    ∀ t ∈ s.enclosing, t ∈ h.committed
  never_aborted : ∀ s ∈ h.sends, ∀ t ∈ s.enclosing, t ∈ h.aborted →
    ∀ e ∈ s.entries, e ∉ h.delivered

/-- The sends in a transaction's buffer. -/
def bufferedMsgs (t : Txn) : List (ℕ × ChannelMsg) :=
  (List.range t.bufferedCount).filterMap fun i =>
    (t.bufferVmo.bind (· (entrySize channelMsgBytes * i))).map fun r =>
      (r.targetChanId, r.payload)

/-- Whatever the other tasks do, each channel takes its message when its turn comes. -/
def AllAccepted (env : Interference) (pid : ℤ) :
    ℕ → (ℕ → Option Channel) → List (ℕ × ChannelMsg) → Prop
  | _, _, [] => True
  | k, chans, m :: rest => ∃ c, env.others k chans m.1 = some c ∧ Accepts c m.2 (env.fault k) ∧
      AllAccepted env pid (k + 1) (Function.update (env.others k chans) m.1
        (some (chanSend c pid m.2 0 (env.fault k) []).2)) rest

/-- The channel of the first message is missing or does not take it. -/
def FirstRefused (env : Interference) (chans : ℕ → Option Channel) :
    List (ℕ × ChannelMsg) → Prop
  | [] => False
  | m :: _ => ∀ c, env.others 0 chans m.1 = some c → ¬Accepts c m.2 (env.fault 0)

/-- The steps that keep delivery proper: inside more than one transaction only peers in the
scope of all of them are sent to, and a commit finds its channels ready for everything in
the buffer, or not ready for the first message. -/
def Tame (h : History) : TxnOp → Prop
  | .chanSend chanId _ _ _ _ => h.world.stack.length ≤ 1 ∨
      ∀ t ∈ h.world.stack, txnIsExternalPeer (h.world.holders chanId) t h.world.pid = false
  | .txnCommit _ env => ∀ t ∈ h.world.stack.head?,
      AllAccepted env h.world.pid 0 h.world.chans (bufferedMsgs t) ∨
        FirstRefused env h.world.chans (bufferedMsgs t)
  | _ => True

lemma filterMap_range_getElem? {α : Type*} (l : List α) :
    (List.range l.length).filterMap (fun i => l[i]?) = l := by
  induction l using reverseRecOn with
  | nil => rfl
  | append_singleton l x ih =>
    have hold : (List.range l.length).filterMap (fun i => (l ++ [x])[i]?) =
        (List.range l.length).filterMap (fun i => l[i]?) := by
      apply filterMap_congr
      intro i hi
      exact getElem?_append_left (mem_range.mp hi)
    rw [length_append, length_singleton, range_succ, filterMap_append, hold, ih]
    simp

variable {h : History} {t : Txn} {msgs : List (ℕ × ChannelMsg)} {outer : List Txn} {w : TxnWorld}
  {env : Interference} {chanId timeoutNs : ℕ} {msg : ChannelMsg} {fault : Bool} {vmo : ℕ → Bool}
  {chans : ℕ → Option Channel}

lemma bufferedMsgs_eq (h : Holds t msgs) : bufferedMsgs t = msgs := by
  rw [bufferedMsgs, h.count]
  refine Eq.trans (filterMap_congr ?_) (filterMap_range_getElem? msgs)
  intro i hi
  have hlt := mem_range.mp hi
  obtain ⟨mem, r, hmem, hr, -, -, -, heq⟩ := h.record i hlt
  simp [hmem, hr, heq, getElem?_eq_getElem hlt]

lemma replayLoop_accepted (env : Interference) (hholds : Holds t msgs) :
    ∀ (fuel k d : ℕ) (ctx : ReplayContext) (w : TxnWorld), w.stack = t :: outer →
      w.replayInProgress = true → d ≤ msgs.length →
      ctx.currentOffset = entrySize channelMsgBytes * d → msgs.length - d < fuel →
      AllAccepted env w.pid k w.chans (msgs.drop d) → (replayLoop env fuel k ctx w).rc = 0 := by
  intro fuel
  induction fuel with
  | zero =>
    intro k d ctx w _ _ _ _ hfuel
    exact absurd hfuel (Nat.not_lt_zero _)
  | succ fuel ih =>
  intro k d ctx w hstack hreplay hd hoffset hfuel haccepted
  rcases Nat.lt_or_ge d msgs.length with hlt | hge
  · rw [drop_eq_getElem_cons hlt] at haccepted
    obtain ⟨c, hchan, haccept, hrest⟩ := haccepted
    rcases replayLoop_turn env fuel k hstack hholds hreplay hlt hoffset with
      ⟨c', rest, hchan', -, heq, hloop⟩ | ⟨hrefused, -⟩
    · obtain rfl : c = c' := by
        rw [hchan] at hchan'
        exact Option.some.inj hchan'
      rw [hloop]
      rw [heq]
      exact ih (k + 1) (d + 1) _ _ hstack hreplay hlt rfl (by omega) hrest
    · exact absurd haccept (hrefused c hchan)
  · obtain rfl : d = msgs.length := le_antisymm hd hge
    rw [replayLoop_end env hstack hholds hoffset]

lemma commit_all_or_nothing (hholds : Holds t msgs) (hstanding : Standing t 0)
    (hready : AllAccepted env w.pid 0 w.chans msgs ∨ FirstRefused env w.chans msgs) :
    (commitCurrent w t outer env).rc = 0 ∨ (commitCurrent w t outer env).delivered = [] := by
  by_cases hempty : t.bufferedCount = 0
  · left
    rw [commitCurrent, if_pos hempty]
  have hpos : 0 < msgs.length := by
    rw [← hholds.count]
    exact Nat.pos_of_ne_zero hempty
  have hcommitting : Holds { t with state := .committing } msgs := hholds.of_buffer rfl rfl rfl
  rw [commitCurrent_eq (hholds.isSome_of_count hempty) hempty]
  simp only
  rcases hready with haccepted | hrefused
  · left
    have hfuel : msgs.length - 0 < t.bufferVmoHead + 1 := by
      rw [hholds.head]
      have := Nat.le_mul_of_pos_left msgs.length (entrySize_pos channelMsgBytes)
      omega
    have hdone := replayLoop_accepted env hcommitting (t.bufferVmoHead + 1) 0 0 (startContext t)
      { w with stack := { t with state := .committing } :: outer, replayInProgress := true }
      rfl rfl (Nat.zero_le _) hstanding.offset hfuel haccepted
    rw [if_neg (by rw [hdone]; exact lt_irrefl 0)]
  · right
    obtain ⟨m, rest, rfl⟩ := exists_cons_of_length_pos hpos
    rcases replayLoop_turn env t.bufferVmoHead 0
        (w := { w with stack := { t with state := .committing } :: outer, replayInProgress := true })
        rfl hcommitting rfl hpos hstanding.offset with
      ⟨c, -, hchan, haccept, -⟩ | ⟨-, failed, chans, hstall⟩
    · exact absurd haccept (hrefused c hchan)
    · rw [hstall]
      split_ifs <;> rfl

structure Inv (h : History) : Prop where
  idle : h.world.replayInProgress = false
  ids : (h.world.stack.map Txn.id).Nodup
  issued : ∀ i, i ∈ h.world.stack.map Txn.id ∨ i ∈ h.committed ∨ i ∈ h.aborted →
    i < h.world.nextTxnId
  running : ∀ t ∈ h.world.stack, t.id ∉ h.committed ∧ t.id ∉ h.aborted
  disjoint : ∀ i ∈ h.committed, i ∉ h.aborted
  buffers : ∀ t ∈ h.world.stack, ∃ msgs, Holds t msgs ∧ Standing t 0
  sends : ∀ s ∈ h.sends, ∃ e, s.entries = [e] ∧ s.enclosing = [e.1]
  once : h.delivered.Nodup
  committed : ∀ e ∈ h.delivered, e.1 ∈ h.committed

theorem Inv.proper (hinv : Inv h) : Proper h where
  at_most_once := by
    intro s hs
    obtain ⟨e, hentries, -⟩ := hinv.sends s hs
    have hcount := nodup_iff_count_le_one.mp hinv.once e
    rw [count_eq_length_filter] at hcount
    simpa [hentries, Bool.beq_eq_decide_eq] using hcount
  after_commit := by
    intro s hs e he hdelivered t ht
    obtain ⟨e', hentries, henclosing⟩ := hinv.sends s hs
    obtain rfl : e = e' := by simpa [hentries] using he
    obtain rfl : t = e.1 := by simpa [henclosing] using ht
    exact hinv.committed e hdelivered
  never_aborted := by
    intro s hs t ht haborted e he hdelivered
    obtain ⟨e', hentries, henclosing⟩ := hinv.sends s hs
    obtain rfl : e = e' := by simpa [hentries] using he
    obtain rfl : t = e.1 := by simpa [henclosing] using ht
    exact hinv.disjoint e.1 (hinv.committed e hdelivered) haborted

lemma entriesOf_self (stack : List Txn) : entriesOf stack stack = [] := by
  rw [entriesOf, filterMap_eq_nil_iff]
  intro p hp
  obtain ⟨i, hi, rfl⟩ := mem_iff_getElem.mp hp
  simp

variable (hinv : Inv h)
include hinv

lemma inv_send_same (hworld : (chanSendFrom h.world chanId msg timeoutNs fault vmo).2 =
      { h.world with chans := chans }) :
    Inv (record h (.chanSend chanId msg timeoutNs fault vmo)) := by
  simp only [record, hworld, entriesOf_self, if_true]
  exact ⟨hinv.idle, hinv.ids, hinv.issued, hinv.running, hinv.disjoint, hinv.buffers, hinv.sends,
    hinv.once, hinv.committed⟩

/-- The invariant looks at the one transaction's number and buffer only. -/
lemma inv_send_single {t' : Txn} (hstack : h.world.stack = [t]) (hid : t'.id = t.id)
    (hholds : Holds t' msgs) (hstanding : Standing t' 0) {sends : List Sent}
    (hsends : ∀ s ∈ sends, ∃ e, s.entries = [e] ∧ s.enclosing = [e.1]) :
    Inv { h with world := { h.world with chans := chans, stack := [t'] }, sends := sends } := by
  have hissued := hinv.issued
  have hrunning := hinv.running
  simp only [hstack, map_cons, map_nil, mem_singleton, forall_eq] at hissued hrunning
  refine ⟨hinv.idle, by simp, ?_, ?_, hinv.disjoint, ?_, hsends, hinv.once, hinv.committed⟩
  · simpa [hid] using hissued
  · simpa [hid] using hrunning
  · intro t'' ht''
    obtain rfl := mem_singleton.mp ht''
    exact ⟨msgs, hholds, hstanding⟩

lemma inv_send (htame : Tame h (.chanSend chanId msg timeoutNs fault vmo)) :
    Inv (record h (.chanSend chanId msg timeoutNs fault vmo)) := by
  rcases chanSendFrom_cases h.world chanId msg timeoutNs fault vmo with
    ⟨-, chans, hworld⟩ | ⟨c, hc, hint⟩
  · exact inv_send_same hinv hworld
  rcases htame with hdepth | hscope
  · -- One transaction: the message goes into its buffer, or nowhere.
    have hopen : h.world.stack ≠ [] := by
      intro hnil
      simp [TxnWorld.intercepts, hnil] at hint
    obtain ⟨t, hstack⟩ : ∃ t, h.world.stack = [t] := by
      have hpos := length_pos_iff.mpr hopen
      exact length_eq_one_iff.mp (by omega)
    obtain ⟨msgs, hholds, hstanding⟩ := hinv.buffers t (by simp [hstack])
    obtain ⟨layers, t', hwalk, hid, hstand, hroute⟩ := walk_single
      (txnIsExternalPeer (h.world.holders chanId) · h.world.pid) chanId msg vmo hholds hstanding
    have hworld : (chanSendFrom h.world chanId msg timeoutNs fault vmo).2 =
        { h.world with
          chans := Function.update h.world.chans chanId
            (some (chanSend c h.world.pid msg timeoutNs fault layers).2)
          stack := [t'] } := by
      simp [chanSendFrom, hc, hint, hstack, hwalk, TxnWorld.setChan]
    simp only [record, hworld, hstack]
    rcases hroute with ⟨-, hmore⟩ | ⟨-, hkept⟩
    · have hentries : entriesOf [t] [t'] = [(t.id, t.bufferedCount)] := by
        simp [entriesOf, hholds.count, hmore.count]
      rw [hentries, if_neg (cons_ne_nil _ _)]
      refine inv_send_single hinv hstack hid hmore hstand ?_
      intro s hs
      rcases mem_append.mp hs with hs | hs
      · exact hinv.sends s hs
      · rw [mem_singleton.mp hs]
        exact ⟨(t.id, t.bufferedCount), rfl, rfl⟩
    · have hentries : entriesOf [t] [t'] = [] := by simp [entriesOf, hholds.count, hkept.count]
      rw [hentries, if_pos rfl]
      exact inv_send_single hinv hstack hid hkept hstand hinv.sends
  · have hworld : ∃ chans, (chanSendFrom h.world chanId msg timeoutNs fault vmo).2 =
        { h.world with chans := chans } := by
      simp only [chanSendFrom, hc, hint, if_true, walk_inScope chanId msg vmo hscope]
      exact ⟨_, rfl⟩
    obtain ⟨chans, hworld⟩ := hworld
    exact inv_send_same hinv hworld

lemma inv_pop (hstack : h.world.stack = t :: outer) (hidle : w.replayInProgress = false)
    (hw : w.stack = outer) (hnext : w.nextTxnId = h.world.nextTxnId)
    {delivered : List (ℕ × ℕ)} {committed aborted : List ℕ}
    (hends : (committed = h.committed ++ [t.id] ∧ aborted = h.aborted) ∨
      (committed = h.committed ∧ aborted = h.aborted ++ [t.id]))
    (honce : delivered.Nodup) (hcommitted : ∀ e ∈ delivered, e.1 ∈ committed) :
    Inv ⟨w, h.sends, delivered, committed, aborted⟩ := by
  have hids := hinv.ids
  rw [hstack, map_cons, nodup_cons] at hids
  obtain ⟨htc, hta⟩ := hinv.running t (by simp [hstack])
  have hlt : t.id < h.world.nextTxnId := hinv.issued t.id (.inl (by simp [hstack]))
  have hmem : ∀ i, i ∈ committed ∨ i ∈ aborted → i = t.id ∨ i ∈ h.committed ∨ i ∈ h.aborted := by
    rcases hends with ⟨rfl, rfl⟩ | ⟨rfl, rfl⟩
    · simp only [mem_append, mem_singleton]
      tauto
    · simp only [mem_append, mem_singleton]
      tauto
  refine ⟨hidle, hw ▸ hids.2, ?_, ?_, ?_, ?_, hinv.sends, honce, hcommitted⟩
  · intro i hi
    rw [hnext]
    rcases hi with hi | hi
    · refine hinv.issued i (.inl ?_)
      rw [hstack, map_cons]
      exact mem_cons_of_mem _ (hw ▸ hi)
    · rcases hmem i hi with rfl | hold
      · exact hlt
      · exact hinv.issued i (.inr hold)
  · intro t' ht'
    rw [hw] at ht'
    have hne : t'.id ≠ t.id := by
      intro heq
      exact hids.1 (heq ▸ mem_map_of_mem ht')
    obtain ⟨hc, ha⟩ := hinv.running t' (by simp [hstack, ht'])
    constructor
    · intro hi
      rcases hmem _ (.inl hi) with heq | hc' | ha'
      · exact hne heq
      · exact hc hc'
      · exact ha ha'
    · intro hi
      rcases hmem _ (.inr hi) with heq | hc' | ha'
      · exact hne heq
      · exact hc hc'
      · exact ha ha'
  · rcases hends with ⟨rfl, rfl⟩ | ⟨rfl, rfl⟩
    · intro i hi
      rcases mem_append.mp hi with hi | hi
      · exact hinv.disjoint i hi
      · rw [mem_singleton.mp hi]
        exact hta
    · intro i hi habort
      rcases mem_append.mp habort with ha | ha
      · exact hinv.disjoint i hi ha
      · rw [mem_singleton.mp ha] at hi
        exact htc hi
  · intro t' ht'
    rw [hw] at ht'
    exact hinv.buffers t' (by simp [hstack, ht'])

lemma inv_commit {handle : ℕ} (htame : Tame h (.txnCommit handle env)) :
    Inv (record h (.txnCommit handle env)) := by
  rcases txnCommit_cases h.world handle env with
    ⟨hrc, hworld, hnone⟩ | ⟨t, outer, hstack, rfl, heq⟩
  · simp only [record, hworld, hnone, if_neg hrc, length_nil, List.range'_zero, map_nil, append_nil]
    exact hinv
  obtain ⟨msgs, hholds, hstanding⟩ := hinv.buffers t (by simp [hstack])
  have hready := htame t (by simp [hstack])
  rw [bufferedMsgs_eq hholds] at hready
  have hattempt : Attempt h.world t outer msgs 0 (commitCurrent h.world t outer env) :=
    commitCurrent_spec hholds hstanding (Nat.zero_le _) hinv.idle env
  have hall : (commitCurrent h.world t outer env).rc = 0 ∨
      (commitCurrent h.world t outer env).delivered = [] :=
    commit_all_or_nothing hholds hstanding hready
  have hcursor : cursorOf h.world = 0 := by simp [cursorOf, hstack, hstanding.delivered]
  simp only [record, heq, hcursor]
  generalize commitCurrent h.world t outer env = r at hattempt hall
  rcases hattempt.ends with ⟨hrc, hempty, -⟩ | ⟨hcode, t', hsame, hid, hholds', hstanding'⟩
  · rw [if_pos hrc]
    have hnew : ∀ e ∈ h.delivered, ∀ k, e ≠ (t.id, k) := by
      rintro e he k rfl
      exact (hinv.running t (by simp [hstack])).1 (hinv.committed _ he)
    refine inv_pop hinv hstack hattempt.idle hempty hattempt.nextTxnId (.inl ⟨rfl, rfl⟩) ?_ ?_
    · refine List.Nodup.append hinv.once ?_ ?_
      · exact (nodup_range').map (fun a b hab => (Prod.mk.inj hab).2)
      · intro e he hmem
        obtain ⟨k, -, rfl⟩ := mem_map.mp hmem
        exact hnew _ he k rfl
    · intro e he
      rcases mem_append.mp he with he | he
      · exact mem_append_left _ (hinv.committed e he)
      · obtain ⟨k, -, rfl⟩ := mem_map.mp he
        exact mem_append_right _ (mem_singleton_self _)
  · have hrc : r.rc ≠ 0 := by
      rw [hcode]
      decide
    have hnone : r.delivered = [] := hall.resolve_left hrc
    rw [hnone] at hstanding' ⊢
    simp only [if_neg hrc, length_nil, List.range'_zero, map_nil, append_nil]
    have hids : (r.world.stack.map Txn.id) = h.world.stack.map Txn.id := by
      rw [hsame, hstack, map_cons, map_cons, hid]
    refine ⟨hattempt.idle, hids ▸ hinv.ids, ?_, ?_, hinv.disjoint, ?_, hinv.sends, hinv.once,
      hinv.committed⟩
    · rw [hids, hattempt.nextTxnId]
      exact hinv.issued
    · intro t'' ht''
      have hin : t''.id ∈ h.world.stack.map Txn.id := hids ▸ mem_map_of_mem ht''
      obtain ⟨t₀, ht₀, hsameid⟩ := mem_map.mp hin
      rw [← hsameid]
      exact hinv.running t₀ ht₀
    · rw [hsame]
      intro t'' ht''
      rcases mem_cons.mp ht'' with rfl | ht''
      · exact ⟨msgs, hholds', hstanding'⟩
      · exact hinv.buffers t'' (by simp [hstack, ht''])

lemma inv_abort (handle : ℕ) : Inv (record h (.txnAbort handle)) := by
  rcases txnAbort_cases h.world handle with ⟨hrc, hworld⟩ | ⟨t, outer, hstack, rfl, heq⟩
  · simp only [record, hworld, if_neg hrc]
    exact hinv
  · simp only [record, heq, if_true]
    exact inv_pop (w := { h.world with stack := outer }) hinv hstack hinv.idle rfl rfl
      (.inr ⟨rfl, rfl⟩) hinv.once hinv.committed

lemma inv_begin (flags : BitVec 32) (system : Bool) (scopePids : List ℤ) (failure : Option ℤ)
    : Inv (record h (.txnBegin flags system scopePids failure)) := by
  rcases txnBegin_cases h.world flags system scopePids failure with hsame | ⟨flags', hnew⟩
  · simp only [record, hsame]
    exact hinv
  simp only [record, hnew]
  have hfresh : ∀ i, i ∈ h.world.stack.map Txn.id ∨ i ∈ h.committed ∨ i ∈ h.aborted →
      i ≠ h.world.nextTxnId := fun i hi => (hinv.issued i hi).ne
  refine ⟨hinv.idle, ?_, ?_, ?_, hinv.disjoint, ?_, hinv.sends, hinv.once, hinv.committed⟩
  · rw [map_cons, nodup_cons]
    exact ⟨fun hmem => hfresh _ (.inl hmem) rfl, hinv.ids⟩
  · intro i hi
    rw [map_cons, mem_cons, or_assoc] at hi
    rcases hi with rfl | hi
    · exact Nat.lt_succ_self _
    · exact Nat.lt_succ_of_lt (hinv.issued i hi)
  · intro t ht
    rcases mem_cons.mp ht with rfl | ht
    · exact ⟨fun hc => hfresh _ (.inr (.inl hc)) rfl, fun ha => hfresh _ (.inr (.inr ha)) rfl⟩
    · exact hinv.running t ht
  · intro t ht
    rcases mem_cons.mp ht with rfl | ht
    · exact ⟨[], holds_new .., standing_new ..⟩
    · exact hinv.buffers t ht

omit hinv

theorem inv_record (h : History) (op : TxnOp) (hinv : Inv h) (hop : Tame h op) :
    Inv (record h op) := by
  cases op with
  | txnBegin flags system scopePids failure => exact inv_begin hinv flags system scopePids failure
  | chanSend chanId msg timeoutNs fault vmo => exact inv_send hinv hop
  | txnCommit handle env => exact inv_commit hinv hop
  | txnAbort handle => exact inv_abort hinv handle
  | others chans holders issued =>
    refine ⟨hinv.idle, hinv.ids, ?_, hinv.running, hinv.disjoint, hinv.buffers, hinv.sends,
      hinv.once, hinv.committed⟩
    intro i hi
    exact (hinv.issued i hi).trans_le (Nat.le_add_right _ _)

lemma inv_start (w : TxnWorld) : Inv (start w) :=
  ⟨rfl, nodup_nil, by simp [start], by simp [start], by simp [start], by simp [start],
    by simp [start], nodup_nil, by simp [start]⟩

/-- In every state of a run that meets the condition at each step, every external send has
reached its channel at most once, only if every transaction around it has committed, and not
if one of them was aborted. -/
theorem nested_sends_are_delivered_after_commit {w : TxnWorld} {ops : List TxnOp}
    (hops : Guarded record Tame (start w) ops) : Proper (run record (start w) ops) :=
  (invariant_run Inv inv_record (inv_start w) hops).proper

/-- A channel with four slots, to which pid 7 writes and from which pid 8 reads. -/
def roomyWriter : TxnWorld :=
  { TxnDelivery.writer with
    chans := Function.update (fun _ => none) 1
      (some (freshChannel 0#64 .blocking 4 (Nat.succ_pos 3))) }

def enter : TxnOp := .txnBegin 0#32 false [7] none
def sendOut : TxnOp := .chanSend 1 zeroMsg 0 false fun _ => true
def commit (handle : ℕ) : TxnOp := .txnCommit handle TxnDelivery.calm

theorem send_between_nested_transactions_is_proper :
    Guarded record Tame (start roomyWriter) [enter, sendOut, enter, .txnAbort 2, commit 1] ∧
      Proper (run record (start roomyWriter) [enter, sendOut, enter, .txnAbort 2, commit 1]) := by
  have hguard : Guarded record Tame (start roomyWriter)
      [enter, sendOut, enter, .txnAbort 2, commit 1] := by
    refine ⟨trivial, Or.inl (by decide), trivial, trivial, ?_, trivial⟩
    intro t ht
    obtain rfl := Option.mem_some_iff.mp ht
    exact Or.inl ⟨_, rfl, ⟨rfl, rfl, rfl, by decide⟩, trivial⟩
  exact ⟨hguard, nested_sends_are_delivered_after_commit hguard⟩

/-- A send inside two transactions is delivered by the inner commit while the outer one is
open, and again by the outer commit; if the inner one is aborted, the outer commit still
delivers it. And a commit that stalls on a full channel has delivered the send before it,
although the transaction is then aborted. -/
theorem nested_or_stalled_send_is_not_proper :
    ¬Proper (run record (start roomyWriter) [enter, enter, sendOut, commit 2]) ∧
    ((run record (start roomyWriter) [enter, enter, sendOut, commit 2, commit 1]).sends =
        [⟨[2, 1], [(2, 0), (1, 0)]⟩] ∧
      (run record (start roomyWriter) [enter, enter, sendOut, commit 2, commit 1]).delivered =
        [(2, 0), (1, 0)]) ∧
    ¬Proper (run record (start roomyWriter) [enter, enter, sendOut, .txnAbort 2, commit 1]) ∧
    ¬Proper (run record (start TxnDelivery.writer)
      [enter, sendOut, sendOut, commit 1, .txnAbort 1]) := by
  refine ⟨?_, ⟨by decide, by decide⟩, ?_, ?_⟩
  · intro h
    have := h.after_commit ⟨[2, 1], [(2, 0), (1, 0)]⟩ (by decide) (2, 0) (by decide) (by decide) 1
      (by decide)
    exact absurd this (by decide)
  · intro h
    exact h.never_aborted ⟨[2, 1], [(2, 0), (1, 0)]⟩ (by decide) 2 (by decide) (by decide) (1, 0)
      (by decide) (by decide)
  · intro h
    exact h.never_aborted ⟨[1], [(1, 0)]⟩ (by decide) 1 (by decide) (by decide) (1, 0) (by decide)
      (by decide)

end GrahaOS.TxnNesting
