import GrahaOS.JournalCrash

/-!
# Crash atomicity of the journal

A journal is quiet between transactions when every image a crash could leave is sound. A transaction
keeps it quiet. What has to be excluded is a staged block that starts like a journal block: replay
goes on scanning behind the record it has applied, and takes such a block, left over from a longer
transaction, for a record.
-/

namespace GrahaOS.JournalAtomicity

open ByteFields BlockDevice DiskFormat Journaling JournalRecords JournalReplay JournalCrash Runs Device
  Function List

variable {known : List Txn} {home img d : ℕ → Block} {j : Journal} {t : Txn} {geo : Geometry}
  {nextId : ℕ} {sb : Block}

lemma exec_map_writeOp (dev : Device Block) (ws : List (ℕ × Block)) :
    dev.exec (ws.map writeOp) = ⟨dev.durable, dev.pending ++ ws⟩ := dev.exec_writes ws

lemma commitScript_eq (t : Txn) (head : ℕ) :
    commitScript t head = (journalWrites t head).map writeOp ++ .flush ::
      ((homeWrites t).map writeOp ++ [.flush]) := by
  simp [commitScript, journalWrites]

lemma view_journalWrites (dev : Device Block) (t : Txn) (head : ℕ) :
    (dev.exec ((journalWrites t head).map writeOp)).view = logged t head dev.view := by
  rw [exec_map_writeOp, view_writes, logged]

lemma exec_commitScript (dev : Device Block) (t : Txn) (head : ℕ) :
    dev.exec (commitScript t head) =
      ⟨applyWrites (logged t head dev.view) (homeWrites t), []⟩ := by
  rw [commitScript_eq, exec_append, exec_flush, exec_append,
    exec_map_writeOp _ (homeWrites t), view_journalWrites]
  rfl

lemma prefix_cases {pre rest : List (DevOp Block)} {ws : List (ℕ × Block)}
    (h : pre <+: ws.map writeOp ++ .flush :: rest) :
    (∃ done, done <+: ws ∧ pre = done.map writeOp) ∨
    (∃ post, post <+: rest ∧ pre = ws.map writeOp ++ .flush :: post) := by
  obtain ⟨suffix, hsuffix⟩ := h
  rcases append_eq_append_iff.mp hsuffix with ⟨c, hc, -⟩ | ⟨c, rfl, hc⟩
  · left
    obtain ⟨done, tail, rfl, rfl, -⟩ := map_eq_append_iff.mp hc
    exact ⟨done, prefix_append done tail, rfl⟩
  · cases c with
    | nil => exact .inl ⟨ws, prefix_refl ws, by simp⟩
    | cons op c =>
      rw [cons_append] at hc
      obtain ⟨rfl, hrest⟩ := cons.inj hc
      exact .inr ⟨c, ⟨suffix, hrest.symm⟩, rfl⟩

/-- Between transactions: every image a crash could leave is sound. -/
structure Quiet (j : Journal) (known : List Txn) (home : ℕ → Block) : Prop where
  head_eq : j.head = j.geo.base
  images : ∀ img, j.dev.CrashImage img → Sound j.geo known j.nextTxnId home img

variable (h : Quiet j known home)
include h

lemma Quiet.view : Sound j.geo known j.nextTxnId home j.dev.view :=
  h.images _ j.dev.crashImage_view

lemma Quiet.place_eq (n : ℕ) (t : Txn) :
    ({ j with nextTxnId := n } : Journal).place t = j.geo.base := by
  simp only [Journal.place, h.head_eq]
  split_ifs <;> rfl

omit h

lemma sound_mono (h : Sound geo known nextId home img) (t : Txn) :
    Sound geo (t :: known) (nextId + 1) home img := by
  refine ⟨h.sb, h.oneBegin, ?_, ?_, h.homeEq⟩
  · intro lba hin hcommit
    exact (h.commits lba hin hcommit).trans (Nat.lt_succ_self _)
  · intro hbegin
    obtain ⟨t₀, hknown, hlt, hrest⟩ := h.first hbegin
    exact ⟨t₀, mem_cons_of_mem t hknown, hlt.trans (Nat.lt_succ_self _), hrest⟩

/-- A superblock that still names the area does not matter to soundness. -/
lemma sound_updateSb (h : Sound geo known nextId home img) (hsb : SbOk geo sb) :
    Sound geo known nextId home (update img 0 sb) := by
  have hsame : ∀ lba, geo.InArea lba → update img 0 sb lba = img lba := by
    intro lba hin
    apply update_of_ne
    rintro rfl
    exact zero_not_inArea geo hin
  refine ⟨by rwa [update_self], ?_, ?_, ?_, ?_⟩
  · intro lba hin hne
    rw [hsame lba hin]
    exact h.oneBegin lba hin hne
  · intro lba hin
    rw [hsame lba hin]
    exact h.commits lba hin
  · intro hbegin
    rw [hsame _ (base_inArea geo)] at hbegin
    obtain ⟨t, hknown, hlt, ht, hfirst, hcommits⟩ := h.first hbegin
    refine ⟨t, hknown, hlt, ht, (hsame _ (base_inArea geo)).trans hfirst, ?_⟩
    intro lba hin
    rw [hsame lba hin]
    exact hcommits lba hin
  · intro lba hlba
    rw [update_of_ne hlba.1]
    exact h.homeEq lba hlba

lemma sbOk_persistedSb (h : SbOk j.geo sb) (hhead : j.head = j.geo.base) :
    SbOk j.geo (persistedSb j sb) := by
  have hbase : j.geo.base < 256 ^ 8 := by
    have hlt := j.geo.end_lt
    omega
  refine ⟨?_, ?_, ?_⟩
  · simp (disch := decide) only [persistedSb, sealSb, Field.get_put_of_apart]
    exact h.start
  · simp (disch := decide) only [persistedSb, sealSb, Field.get_put_of_apart]
    exact h.blocks
  · simp (disch := decide) only [persistedSb, sealSb, Field.get_put_of_apart]
    rw [Field.get_put_self _ _ (by decide) (by rw [hhead]; exact hbase), hhead]

/-- The superblock write that a commit which does not fail ends with, if it is due. -/
def persistOps (j : Journal) (t : Txn) : List (DevOp Block) :=
  if j.persistDue then persistScript (j.advance (j.dev.exec (commitScript t (j.place t)))) else []

/-- The device operations of a commit that does not fail. -/
def commitTrace (j : Journal) (t : Txn) : List (DevOp Block) :=
  if t.refs = [] then [] else commitScript t (j.place t) ++ persistOps j t

lemma journalTxnCommit_none (hrefs : t.refs ≠ []) (j : Journal) (sbFails : Bool) :
    journalTxnCommit j t none sbFails =
      (0, { j.advance (j.dev.exec (commitScript t (j.place t))) with
        dev := (j.dev.exec (commitScript t (j.place t))).exec
          (if sbFails then [] else persistOps j t) }) := by
  unfold journalTxnCommit persistOps
  rw [if_neg hrefs]
  simp only [attempt, Bool.not_true, Bool.false_eq_true, if_false]
  generalize persistScript _ = ops
  generalize j.dev.exec (commitScript t (j.place t)) = dev
  generalize j.persistDue = due
  cases due <;> cases sbFails <;> rfl

lemma journalTxnCommit_geo (j : Journal) (t : Txn) (fault : Option Fault) (sbFails : Bool) :
    (journalTxnCommit j t fault sbFails).2.geo = j.geo := by
  unfold journalTxnCommit
  generalize attempt _ _ _ = r
  dsimp only
  split_ifs <;> rfl

lemma commit_healthy (j : Journal) (t : Txn) :
    (journalTxnCommit j t none false).2.dev = j.dev.exec (commitTrace j t) := by
  unfold commitTrace
  by_cases hrefs : t.refs = []
  · simp [journalTxnCommit, hrefs]
  · rw [journalTxnCommit_none hrefs, if_neg hrefs, exec_append]
    simp

/-- The state in which a transaction is committed: its id is taken. -/
def begun (j : Journal) : Journal := { j with nextTxnId := j.nextTxnId + 1 }

include h

lemma exec_begun (t : Txn) : (begun j).dev.exec (commitScript t ((begun j).place t)) =
      ⟨applyWrites (logged t j.geo.base j.dev.view) (homeWrites t), []⟩ := by
  have hplace : (begun j).place t = j.geo.base := h.place_eq _ t
  rw [hplace]
  exact exec_commitScript j.dev t j.geo.base

lemma persistOps_cases (t : Txn)
    (hsb : SbOk j.geo (applyWrites (logged t j.geo.base j.dev.view) (homeWrites t) 0)) :
    persistOps (begun j) t = [] ∨
    ∃ sb, SbOk j.geo sb ∧ persistOps (begun j) t = [.write 0 sb] := by
  unfold persistOps persistScript
  rw [exec_begun h t]
  split_ifs
  · exact .inl rfl
  · refine .inr ⟨_, ?_, rfl⟩
    exact @sbOk_persistedSb ((begun j).advance _) _ hsb rfl
  · exact .inl rfl

omit h

lemma sound_persisted {ops : List (DevOp Block)} (h : Sound geo known nextId home d)
    (hops : ops = [] ∨ ∃ sb, SbOk geo sb ∧ ops = [.write 0 sb])
    (himg : ((⟨d, []⟩ : Device Block).exec ops).CrashImage img) :
    Sound geo known nextId home img := by
  rcases hops with rfl | ⟨sb, hsb, rfl⟩
  · obtain rfl := (crashImage_flushed d img).mp himg
    exact h
  obtain ⟨kept, hkept, rfl⟩ := himg
  have hkept' : kept.Sublist [((0 : ℕ), sb)] := hkept
  rcases sublist_singleton.mp hkept' with rfl | rfl
  · exact h
  · exact sound_updateSb h hsb

include h

variable (hid : t.txnId = j.nextTxnId)
include hid

variable (ht : Committable j.geo t)
include ht

variable (hplain : Plain j.geo t.refs)
include hplain

lemma sound_after : Sound j.geo (t :: known) (j.nextTxnId + 1) (applyWrites home (homeWrites t))
      (applyWrites (logged t j.geo.base j.dev.view) (homeWrites t)) := by
  have hview := h.view
  rw [← hid] at hview ⊢
  exact sound_checkpointed hview ht hplain

/-- A commit that does not fail makes the home contents carry the transaction. -/
theorem quiet_commit (sbFails : Bool) : (journalTxnCommit (begun j) t none sbFails).1 = 0 ∧
    Quiet (journalTxnCommit (begun j) t none sbFails).2 (t :: known)
      (applyWrites home (homeWrites t)) := by
  by_cases hrefs : t.refs = []
  · have hhome : applyWrites home (homeWrites t) = home := by simp [homeWrites, hrefs]
    have hcommit : journalTxnCommit (begun j) t none sbFails = (0, begun j) := by
      simp [journalTxnCommit, hrefs]
    rw [hcommit, hhome]
    exact ⟨rfl, h.head_eq, fun img himg => sound_mono (h.images img himg) t⟩
  · have hsound := sound_after h hid ht hplain
    have hcases := persistOps_cases h t hsound.sb
    rw [journalTxnCommit_none hrefs, exec_begun h t]
    refine ⟨rfl, rfl, ?_⟩
    intro img himg
    cases sbFails with
    | true => exact sound_persisted hsound (.inl rfl) himg
    | false => exact sound_persisted hsound hcases himg

/-- A crash at any point of a commit, followed by replay, leaves the home contents before
the transaction or after it. -/
theorem replay_during_commit {pre : List (DevOp Block)}
    (hpre : pre <+: commitTrace (begun j) t) (himg : (j.dev.exec pre).CrashImage img)
    (hcrc : CrcTrusted j.geo (t :: known) img) :
    HomeEq j.geo (journalReplay img) home ∨
    HomeEq j.geo (journalReplay img) (applyWrites home (homeWrites t)) := by
  have hplace : (begun j).place t = j.geo.base := h.place_eq _ t
  unfold commitTrace at hpre
  by_cases hrefs : t.refs = []
  · rw [if_pos hrefs] at hpre
    rw [prefix_nil.mp hpre, exec_nil] at himg
    exact .inl (replay_sound (sound_mono (h.images img himg) t) hcrc)
  rw [if_neg hrefs, hplace, commitScript_eq, append_assoc, cons_append, append_assoc] at hpre
  rcases prefix_cases hpre with ⟨done, hdone, rfl⟩ | ⟨post, hpost, rfl⟩
  · rw [exec_map_writeOp] at himg
    obtain ⟨before, kept, hbefore, hkept, rfl⟩ := crashImage_writes himg
    have hsound := h.images before hbefore
    rw [← hid] at hsound
    exact replay_torn hsound ht hplain (fun w hw => hdone.subset (hkept.subset hw)) hcrc
  · rw [exec_append, exec_flush, view_journalWrites] at himg
    right
    rcases prefix_cases hpost with ⟨done, hdone, rfl⟩ | ⟨rest, hrest, rfl⟩
    · rw [exec_map_writeOp] at himg
      obtain ⟨kept, hkept, rfl⟩ := himg
      exact replay_checkpoint h.view ht hplain fun w hw => hdone.subset (hkept.subset hw)
    have hsound := sound_after h hid ht hplain
    have hops : rest = [] ∨ ∃ sb, SbOk j.geo sb ∧ rest = [.write 0 sb] := by
      rcases persistOps_cases h t hsound.sb with hnone | ⟨sb, hsb, hsome⟩
      · rw [hnone] at hrest
        exact .inl (prefix_nil.mp hrest)
      rw [hsome] at hrest
      rcases prefix_cons_iff.mp hrest with rfl | ⟨rest', rfl, hrest'⟩
      · exact .inl rfl
      · rw [prefix_nil.mp hrest']
        exact .inr ⟨sb, hsb, rfl⟩
    rw [exec_append, exec_flush, exec_map_writeOp, view_writes] at himg
    exact replay_sound (sound_persisted hsound hops himg) hcrc

omit h

omit hid

omit ht

omit hplain

/-- The journal with what it has done: the transactions begun, the latest first, and the
home contents that the counted ones add up to. -/
structure Ledger where
  j : Journal
  known : List Txn
  home : ℕ → Block

/-- The transaction an operation begins. -/
def txnOf (j : Journal) : JournalOp → Txn
  | .commit refs refs_le _ _ => j.filled refs refs_le
  | .abort => journalTxnBegin j.nextTxnId

def ledgerStep (counts : Journal → JournalOp → Bool) (L : Ledger) (op : JournalOp) : Ledger where
  j := step L.j op
  known := txnOf L.j op :: L.known
  home := if counts L.j op then applyWrites L.home (homeWrites (txnOf L.j op)) else L.home

/-- The commit call returned success. -/
def returned (j : Journal) (op : JournalOp) : Bool := (transact j op).1 = 0

/-- The condition on a transaction: the device does not fail, the blocks go to home
addresses, none of them starts like a journal block, and ids have not run out. -/
def Healthy (L : Ledger) : JournalOp → Prop
  | .commit refs _ fault sbFails =>
    fault = none ∧ sbFails = false ∧ Plain L.j.geo refs ∧ L.j.nextTxnId < 2 ^ 64
  | .abort => True

lemma committable_filled {refs : List BlockRef} {refs_le : refs.length ≤ journalBlockRefsMax}
    (hplain : Plain j.geo refs) (hid : j.nextTxnId < 2 ^ 64) :
    Committable j.geo (j.filled refs refs_le) :=
  ⟨hid, fun ref href => (hplain ref href).1⟩

variable {L : Ledger}

lemma quiet_step {op : JournalOp} (h : Quiet L.j L.known L.home) (hop : Healthy L op) :
    Quiet (ledgerStep returned L op).j (ledgerStep returned L op).known
      (ledgerStep returned L op).home := by
  cases op with
  | abort =>
    have hhome : (ledgerStep returned L .abort).home = L.home := by
      simp [ledgerStep, returned, transact, txnOf, homeWrites, journalTxnBegin]
    rw [hhome]
    exact ⟨h.head_eq, fun img himg => sound_mono (h.images img himg) _⟩
  | commit refs refs_le fault sbFails =>
    obtain ⟨rfl, rfl, hplain, hid⟩ := hop
    obtain ⟨hrc, hquiet⟩ := quiet_commit h rfl (committable_filled hplain hid) hplain false
    have hreturned : returned L.j (.commit refs refs_le none false) = true := by
      exact decide_eq_true hrc
    simp only [ledgerStep, hreturned, if_true]
    exact hquiet

/-- For every run of transactions that meet the condition, a crash at any device operation
of the next commit, with any subset of the unflushed writes durable, followed by replay,
leaves the home blocks with exactly the transactions that had returned, or with those and
the whole of the interrupted one; with exactly those if the commit had not issued any
operation, and with all of it if the commit had issued all of them. -/
theorem replay_leaves_whole_transactions {L₀ L : Ledger} (hquiet : Quiet L₀.j L₀.known L₀.home)
    {done : List JournalOp} (hdone : Guarded (ledgerStep returned) Healthy L₀ done)
    (hL : L = run (ledgerStep returned) L₀ done) {refs : List BlockRef}
    {refs_le : refs.length ≤ journalBlockRefsMax}
    (hnext : Healthy L (.commit refs refs_le none false)) {t : Txn}
    (ht : t = L.j.filled refs refs_le) {pre : List (DevOp Block)}
    (hpre : pre <+: commitTrace (begun L.j) t) {img : ℕ → Block}
    (himg : (L.j.dev.exec pre).CrashImage img) (hcrc : CrcTrusted L.j.geo (t :: L.known) img) :
    (HomeEq L.j.geo (journalReplay img) L.home ∨
      HomeEq L.j.geo (journalReplay img) (applyWrites L.home (homeWrites t))) ∧
    (pre = [] → HomeEq L.j.geo (journalReplay img) L.home) ∧
    (pre = commitTrace (begun L.j) t →
      HomeEq L.j.geo (journalReplay img) (applyWrites L.home (homeWrites t))) := by
  have hq : Quiet L.j L.known L.home := by
    rw [hL]
    exact invariant_run (fun L => Quiet L.j L.known L.home) (fun _ _ => quiet_step) hquiet hdone
  obtain ⟨-, -, hplain, hid⟩ := hnext
  have hcommit : Committable L.j.geo t := ht ▸ committable_filled hplain hid
  have hplain' : Plain L.j.geo t.refs := ht ▸ hplain
  have hid' : t.txnId = L.j.nextTxnId := by rw [ht]; rfl
  refine ⟨replay_during_commit hq hid' hcommit hplain' hpre himg hcrc, ?_, ?_⟩
  · rintro rfl
    exact replay_sound (sound_mono (hq.images img himg) t) hcrc
  · rintro rfl
    rw [← show (begun L.j).dev = L.j.dev from rfl, ← commit_healthy] at himg
    have hafter := (quiet_commit hq hid' hcommit hplain' false).2.images img himg
    rw [journalTxnCommit_geo] at hafter
    exact replay_sound hafter hcrc

/-- A journal area in which nothing starts like a journal block is quiet. -/
lemma quiet_of_blank (hhead : j.head = j.geo.base) (hpending : j.dev.pending = [])
    (hsb : SbOk j.geo (j.dev.durable 0))
    (hblank : ∀ lba, j.geo.InArea lba → ¬Mimics (j.dev.durable lba)) (known : List Txn) :
    Quiet j known j.dev.durable := by
  refine ⟨hhead, ?_⟩
  rintro img ⟨kept, hkept, rfl⟩
  rw [hpending] at hkept
  rw [sublist_nil.mp hkept, applyWrites_nil]
  refine ⟨hsb, ?_, ?_, ?_, HomeEq.refl _ _⟩
  · intro lba hin _ hbegin
    exact hblank lba hin (.inl hbegin)
  · intro lba hin hcommit
    exact absurd (.inr hcommit) (hblank lba hin)
  · intro hbegin
    exact absurd (.inl hbegin) (hblank _ (base_inArea _))

/-- The smallest journal area, behind the superblock. -/
def smallGeometry : Geometry := ⟨1, 170, by decide, by decide, by decide⟩

/-- A superblock for it. -/
def smallSb : Block :=
  let sb := sbMagic.put (zeros blockSize) sbMagicValue
  let sb := sbJournalStart.put sb 1
  let sb := sbJournalBlocks.put sb 170
  sbJournalHead.put sb 1

/-- A zeroed disk with that superblock. -/
def smallDisk : ℕ → Block := Function.update (fun _ => zeros blockSize) 0 smallSb

def smallJournal : Journal := ⟨smallGeometry, 1, 1, 1, 0, ⟨smallDisk, []⟩⟩

lemma sbOk_small : SbOk smallGeometry smallSb := by
  refine ⟨?_, ?_, ?_⟩
  · simp (disch := decide) only [smallSb, Field.get_put_of_apart]
    exact Field.get_put_self _ _ (by decide) (by decide)
  · simp (disch := decide) only [smallSb, Field.get_put_of_apart]
    exact Field.get_put_self _ _ (by decide) (by decide)
  · have hhead : sbJournalHead.get smallSb = 1 := Field.get_put_self _ _ (by decide) (by decide)
    exact hhead.le

lemma smallDisk_of_ne {lba : ℕ} (h : lba ≠ 0) : smallDisk lba = zeros blockSize := by
  simp [smallDisk, h]

lemma not_mimics_zeros : ¬Mimics (zeros blockSize) := by
  simp [Mimics, journalBegin, journalCommit]

lemma quiet_small : Quiet smallJournal [] smallDisk := by
  refine quiet_of_blank rfl rfl sbOk_small ?_ []
  intro lba hin
  have hne : lba ≠ 0 := fun h => zero_not_inArea smallGeometry (h ▸ hin)
  have hzero : smallJournal.dev.durable lba = zeros blockSize := smallDisk_of_ne hne
  rw [hzero]
  exact not_mimics_zeros

/-- A block of zeros for a home address. -/
def zeroRef (lba : ℕ) (h : lba < 2 ^ 64) : BlockRef := ⟨lba, kindData, zeros blockSize, h⟩

/-- A crash that keeps only the begin block of a first transaction. -/
theorem torn_first_transaction :
    ∃ img, (smallJournal.dev.exec [writeOp (1, beginBlock
        (smallJournal.filled [zeroRef 200 (by decide)] (by decide)) 1)]).CrashImage img ∧
      jMagic.get (img 1) = journalBegin ∧
      (HomeEq smallGeometry (journalReplay img) smallDisk ∨
        HomeEq smallGeometry (journalReplay img) (applyWrites smallDisk
          (homeWrites (smallJournal.filled [zeroRef 200 (by decide)] (by decide))))) := by
  have himg : (smallJournal.dev.exec [writeOp (1, beginBlock
      (smallJournal.filled [zeroRef 200 (by decide)] (by decide)) 1)]).CrashImage
      (Function.update smallDisk 1
        (beginBlock (smallJournal.filled [zeroRef 200 (by decide)] (by decide)) 1)) :=
    ⟨_, List.Sublist.refl _, rfl⟩
  refine ⟨_, himg, by rw [Function.update_self, jMagic_beginBlock], ?_⟩
  refine (@replay_leaves_whole_transactions ⟨smallJournal, [], smallDisk⟩
    ⟨smallJournal, [], smallDisk⟩ quiet_small [] trivial rfl [zeroRef 200 (by decide)] (by decide)
    ⟨rfl, rfl, ?_, by decide⟩ _ rfl _ ?_ _ himg ?_).1
  · intro ref href
    obtain rfl := List.mem_singleton.mp href
    exact ⟨by decide, not_mimics_zeros⟩
  · exact ⟨_, rfl⟩
  · intro t ht hfirst _
    obtain rfl := List.mem_singleton.mp ht
    rw [hfirst]
    refine (readRecord_eq_iff (by decide)).mpr ?_
    intro k hk
    have hk0 : k = 0 := Nat.lt_one_iff.mp hk
    subst hk0
    exact smallDisk_of_ne (show (2 : ℕ) ≠ 0 by decide)

lemma transact_of_not_due {refs : List BlockRef} {refs_le : refs.length ≤ journalBlockRefsMax}
    (hhead : j.head = j.geo.base) (hdue : j.persistDue = false) (hrefs : refs ≠ []) :
    transact j (.commit refs refs_le none false) = (0, (begun j).advance
      ⟨applyWrites (logged (j.filled refs refs_le) j.geo.base j.dev.view)
        (homeWrites (j.filled refs refs_le)), []⟩) := by
  have hdue' : (begun j).persistDue = false := hdue
  have hplace : (begun j).place (j.filled refs refs_le) = j.geo.base := by
    simp only [Journal.place, begun, hhead]
    split_ifs <;> rfl
  have hcommit := @journalTxnCommit_none (j.filled refs refs_le) hrefs (begun j) false
  rw [hplace, exec_commitScript] at hcommit
  simp only [persistOps, hdue', Bool.false_eq_true, if_false, exec_nil] at hcommit
  exact hcommit

/-- A record that no caller of the journal ever committed, laid out for address 4. -/
def forged : Txn where
  txnId := 9
  flags := 0
  refs := [⟨206, kindData, fun _ => 1, by decide⟩]
  refs_le := by decide

/-- File contents whose third to fifth block are that record. -/
def forgingRefs : List BlockRef :=
  [zeroRef 201 (by decide), zeroRef 202 (by decide),
    ⟨203, kindData, beginBlock forged 4, by decide⟩, ⟨204, kindData, fun _ => 1, by decide⟩,
    ⟨205, kindData, commitBlock 9 (crc32Blocks (record forged 4)), by decide⟩]

/-- A transaction of one block, whose record ends right before address 4. -/
def shortRefs : List BlockRef := [⟨206, kindData, fun _ => 2, by decide⟩]

def forgingTxn : Txn := smallJournal.filled forgingRefs (by decide)

def shortTxn : Txn := { journalTxnBegin 2 with refs := shortRefs, refs_le := by decide }

/-- The disk after the first of them. -/
def forgingDisk : ℕ → Block := applyWrites (logged forgingTxn 1 smallDisk) (homeWrites forgingTxn)

/-- The disk after both. -/
def forgedDisk : ℕ → Block := applyWrites (logged shortTxn 1 forgingDisk) (homeWrites shortTxn)

/-- The journal after the first. -/
def forgingJournal : Journal := (begun smallJournal).advance ⟨forgingDisk, []⟩

lemma transact_forging : transact smallJournal (.commit forgingRefs (by decide) none false) =
    (0, forgingJournal) :=
  transact_of_not_due rfl rfl (cons_ne_nil _ _)

lemma transact_short : transact forgingJournal (.commit shortRefs (by decide) none false) =
    (0, (begun forgingJournal).advance ⟨forgedDisk, []⟩) :=
  transact_of_not_due rfl rfl (cons_ne_nil _ _)

lemma complete_short : Complete forgedDisk shortTxn 1 := by
  refine Complete.of_agree (complete_all shortTxn 1 forgingDisk) fun lba _ hlt => ?_
  apply applyWrites_of_not_mem
  intro w hw heq
  obtain rfl := mem_singleton.mp hw
  have hlt' : lba < 4 := hlt
  simp only at heq
  omega

/-- The forged record is still there: the second transaction is too short to reach it. -/
lemma complete_forged (h : ∀ lba, 4 ≤ lba → lba < 7 → d lba = forgedDisk lba) :
    Complete d forged 4 := by
  refine ⟨?_, ?_, ?_⟩
  · rw [h 4 (by decide) (by decide)]
    rfl
  · intro k hk
    have hk0 : k = 0 := Nat.lt_one_iff.mp hk
    subst hk0
    rw [h 5 (by decide) (by decide)]
    rfl
  · exact h 6 (by decide) (by decide)

/-- Two transactions on a healthy device, both returned. The second one wrote block 206;
replay puts something else there. -/
theorem forged_record_is_replayed :
    (transact smallJournal (.commit forgingRefs (by decide) none false)).1 = 0 ∧
    (transact (step smallJournal (.commit forgingRefs (by decide) none false))
      (.commit shortRefs (by decide) none false)).1 = 0 ∧
    ∃ img, (run step smallJournal [.commit forgingRefs (by decide) none false,
        .commit shortRefs (by decide) none false]).dev.CrashImage img ∧
      smallDisk 206 = zeros blockSize ∧ img 206 = (fun _ => 2) ∧
      journalReplay img 206 = fun _ => 1 := by
  have hfirst : step smallJournal (.commit forgingRefs (by decide) none false) = forgingJournal :=
    congrArg Prod.snd transact_forging
  have hsecond : (run step smallJournal [.commit forgingRefs (by decide) none false,
      .commit shortRefs (by decide) none false]).dev = ⟨forgedDisk, []⟩ := by
    simp only [run, List.foldl_cons, List.foldl_nil, hfirst]
    rw [step, transact_short]
    rfl
  refine ⟨by rw [transact_forging], by rw [hfirst, transact_short], forgedDisk, ?_, ?_, rfl, ?_⟩
  · rw [hsecond]
    exact crashImage_view _
  · exact smallDisk_of_ne (by decide)
  have hsb : SbOk smallGeometry (forgedDisk 0) := sbOk_small
  rw [homeEq_journalReplay hsb 206 (by decide)]
  have hshort := complete_short
  rw [show journalTxnMaxBlocks = 168 + 1 + 1 from rfl, show smallGeometry.base = 1 from rfl,
    replayLoop_valid _
    (hshort.valid (by decide) (by decide) (by decide)) hshort.first hshort.staged (by decide)
    (by decide) (by decide)]
  have hforged : Complete (applyWrites forgedDisk (homeWrites shortTxn)) forged 4 := by
    refine complete_forged fun lba _ hlt => applyWrites_of_not_mem ?_
    intro w hw heq
    obtain rfl := List.mem_singleton.mp hw
    simp only at heq
    omega
  rw [show 1 + shortTxn.blockCount = 4 from rfl, replayLoop_valid _
    (hforged.valid (by decide) (by decide) (by decide)) hforged.first hforged.staged (by decide)
    (by decide) (by decide)]
  rw [replayLoop_of_not_begin]
  · rfl
  · intro _
    have hlast : applyWrites (applyWrites forgedDisk (homeWrites shortTxn)) (homeWrites forged)
        (4 + forged.blockCount) = commitBlock 1 (crc32Blocks (record forgingTxn 1)) := rfl
    rw [hlast, jMagic_commitBlock]
    decide

end GrahaOS.JournalAtomicity
