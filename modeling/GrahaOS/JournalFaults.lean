import GrahaOS.JournalAtomicity

/-!
# Device errors during commits

A commit stops at the first device operation that fails and returns an error. If the commit block is
not on the disk by then, the transaction is as if it had not been. Otherwise the error comes too
late: a failing checkpoint has already written some home blocks, and a failing barrier leaves a
record that replay would apply but that the next commit overwrites.
-/

namespace GrahaOS.JournalFaults

open ByteFields BlockDevice DiskFormat Journaling JournalReplay JournalCrash
  JournalAtomicity Runs List

variable {known : List Txn} {home : ℕ → Block} {j : Journal} {t : Txn} {fault : Fault} {L : Ledger}
  {op : JournalOp}

/-- The commit block is among the writes that took effect. -/
def landed (_ : Journal) : JournalOp → Bool
  | .commit _ _ none _ => true
  | .commit refs _ (some fault) _ => refs.length + 2 ≤ fault.reach
  | .abort => false

/-- The condition on a transaction: a device error strikes before the commit block is on
the disk; the blocks go to home addresses and none starts like a journal block. -/
def EarlyFault (L : Ledger) : JournalOp → Prop
  | .commit refs _ fault _ =>
    (∀ f ∈ fault, f.reach ≤ refs.length + 1) ∧ Plain L.j.geo refs ∧ L.j.nextTxnId < 2 ^ 64
  | .abort => True

lemma length_payloadWrites (refs : List BlockRef) :
    ∀ lba, (payloadWrites lba refs).length = refs.length := by
  induction refs with
  | nil => simp [payloadWrites]
  | cons ref rest ih =>
    intro lba
    simp [payloadWrites, ih]

lemma length_recordWrites (t : Txn) (head : ℕ) :
    (recordWrites t head).length = t.refs.length + 1 := by
  simp [recordWrites, length_payloadWrites]

lemma take_commitScript {n head : ℕ} (h : n ≤ t.refs.length + 1) :
    (commitScript t head).take n = ((recordWrites t head).take n).map writeOp := by
  rw [commitScript, take_append_of_le_length, map_take]
  simpa [length_recordWrites] using h

/-- A commit that fails early leaves part of its record behind the pending writes. -/
lemma journalTxnCommit_early (hrefs : t.refs ≠ []) (hreach : fault.reach ≤ t.refs.length + 1)
    (j : Journal) (sbFails : Bool) :
    journalTxnCommit j t (some fault) sbFails =
      (-5, { j with dev := ⟨j.dev.durable,
        j.dev.pending ++ (recordWrites t (j.place t)).take fault.reach⟩ }) := by
  have hindex : fault.index < (commitScript t (j.place t)).length := by
    have hle : fault.index ≤ fault.reach := by
      simp only [Fault.reach]
      split_ifs <;> omega
    simp only [commitScript, length_append, length_map, length_cons, length_recordWrites]
    omega
  unfold journalTxnCommit
  rw [if_neg hrefs]
  simp only [attempt, if_pos hindex, take_commitScript hreach, exec_map_writeOp, Bool.not_false,
    if_true]

lemma commitWrite_not_mem (t : Txn) (head : ℕ) : commitWrite t head ∉ recordWrites t head := by
  intro hmem
  rcases mem_cons.mp hmem with hfirst | hpayload
  · have hlba := congrArg Prod.fst hfirst
    simp only [commitWrite, Txn.blockCount] at hlba
    omega
  · have hlt := (mem_payloadWrites hpayload).2.1
    simp only [commitWrite, Txn.blockCount] at hlt
    omega

/-- A commit that fails early keeps the journal quiet for the same home contents. -/
lemma quiet_early (h : Quiet j known home) (hid : t.txnId = j.nextTxnId)
    (ht : Committable j.geo t) (hplain : Plain j.geo t.refs) (hrefs : t.refs ≠ [])
    (hreach : fault.reach ≤ t.refs.length + 1) (sbFails : Bool) :
    Quiet (journalTxnCommit (begun j) t (some fault) sbFails).2 (t :: known) home := by
  have hplace : (begun j).place t = j.geo.base := h.place_eq _ t
  rw [journalTxnCommit_early hrefs hreach, hplace]
  refine ⟨h.head_eq, ?_⟩
  intro img himg
  obtain ⟨before, kept, hbefore, hkept, rfl⟩ := Device.crashImage_writes himg
  have hrecord : ∀ w ∈ kept, w ∈ recordWrites t j.geo.base := fun w hw =>
    mem_of_mem_take (hkept.subset hw)
  have hsound := h.images before hbefore
  rw [← hid] at hsound
  have hpartial := partial_sound hsound ht hplain
    (fun w hw => mem_append_left _ (hrecord w hw))
    (fun _ hcommit => commitWrite_not_mem t _ (hrecord _ hcommit))
  rw [hid] at hpartial
  exact hpartial

lemma quiet_step_faults (h : Quiet L.j L.known L.home) (hop : EarlyFault L op) :
    Quiet (ledgerStep landed L op).j (ledgerStep landed L op).known
      (ledgerStep landed L op).home := by
  cases op with
  | abort => exact ⟨h.head_eq, fun img himg => sound_mono (h.images img himg) _⟩
  | commit refs refs_le fault sbFails =>
  obtain ⟨hfault, hplain, hid⟩ := hop
  have hcommit := @committable_filled L.j refs refs_le hplain hid
  cases fault with
  | none => exact (quiet_commit h rfl hcommit hplain sbFails).2
  | some fault =>
  have hreach := hfault fault rfl
  have hlanded : landed L.j (.commit refs refs_le (some fault) sbFails) = false := by
    simp only [landed, decide_eq_false_iff_not]
    omega
  simp only [ledgerStep, hlanded, Bool.false_eq_true, if_false]
  by_cases hrefs : refs = []
  · have hnone : step L.j (.commit refs refs_le (some fault) sbFails) = begun L.j := by
      simp [step, transact, journalTxnCommit, Journal.filled, hrefs, begun]
    rw [hnone]
    exact ⟨h.head_eq, fun img himg => sound_mono (h.images img himg) _⟩
  · exact quiet_early h rfl hcommit hplain hrefs hreach sbFails

/-- A commit of a quiet journal that returns an error leaves the home blocks alone. -/
lemma homeEq_of_error (h : Quiet L.j L.known L.home) (hop : EarlyFault L op)
    (herror : (transact L.j op).1 ≠ 0) : HomeEq L.j.geo (step L.j op).dev.view L.j.dev.view := by
  cases op with
  | abort => exact absurd rfl herror
  | commit refs refs_le fault sbFails =>
  obtain ⟨hfault, hplain, hid⟩ := hop
  have hcommit := @committable_filled L.j refs refs_le hplain hid
  cases fault with
  | none => exact absurd (quiet_commit h rfl hcommit hplain sbFails).1 herror
  | some fault =>
  have hrefs : refs ≠ [] := by
    rintro rfl
    exact herror rfl
  have hplace : (begun L.j).place (L.j.filled refs refs_le) = L.j.geo.base := h.place_eq _ _
  have hstep := @journalTxnCommit_early (L.j.filled refs refs_le) fault hrefs
    (hfault fault rfl) (begun L.j) sbFails
  have hdev : (step L.j (.commit refs refs_le (some fault) sbFails)).dev =
      ⟨L.j.dev.durable, L.j.dev.pending ++
        (recordWrites (L.j.filled refs refs_le) L.j.geo.base).take fault.reach⟩ := by
    rw [hplace] at hstep
    exact congrArg (fun r => r.2.dev) hstep
  rw [hdev, Device.view_writes]
  exact partial_homeEq (fun w hw => mem_append_left _ (mem_of_mem_take hw)) _

/-- In every run whose device errors strike before the commit block of their transaction
is on the disk, a commit that returns an error leaves every home block as it was, and the
home blocks carry exactly the transactions whose commit block reached the disk, each until
a later one overwrites it: as read, and after any crash and replay. -/
theorem failed_commit_applies_nothing {L₀ L : Ledger} (hquiet : Quiet L₀.j L₀.known L₀.home)
    {ops : List JournalOp} (hops : Guarded (ledgerStep landed) EarlyFault L₀ ops)
    (hL : L = run (ledgerStep landed) L₀ ops) :
    (∀ op, EarlyFault L op → (transact L.j op).1 ≠ 0 →
      HomeEq L.j.geo (step L.j op).dev.view L.j.dev.view) ∧
    HomeEq L.j.geo L.j.dev.view L.home ∧
    ∀ img, L.j.dev.CrashImage img → CrcTrusted L.j.geo L.known img →
      HomeEq L.j.geo (journalReplay img) L.home := by
  have hq : Quiet L.j L.known L.home := by
    rw [hL]
    exact invariant_run (fun L => Quiet L.j L.known L.home) (fun _ _ => quiet_step_faults) hquiet hops
  refine ⟨fun op hop herror => homeEq_of_error hq hop herror, hq.view.homeEq, ?_⟩
  intro img himg hcrc
  exact replay_sound (hq.images img himg) hcrc

/-- A block of sevens. -/
def sevens : Block := fun _ => 7

/-- A block of eights. -/
def eights : Block := fun _ => 8

lemma lba_201 : 201 < 2 ^ 64 := by decide

lemma lba_202 : 202 < 2 ^ 64 := by decide

def sevensRefs : List BlockRef := [⟨201, kindData, sevens, lba_201⟩]

lemma plain_sevensRefs : Plain smallGeometry sevensRefs := by
  intro ref href
  obtain rfl := mem_singleton.mp href
  exact ⟨by decide, by decide⟩

/-- A commit whose payload write fails, after which everything reads as before. -/
theorem payload_error_applies_nothing :
    (transact smallJournal (.commit sevensRefs (by decide) (some ⟨1, true⟩) false)).1 = -5 ∧
    HomeEq smallGeometry
      (step smallJournal (.commit sevensRefs (by decide) (some ⟨1, true⟩) false)).dev.view
      smallJournal.dev.view :=
  ⟨rfl, (@failed_commit_applies_nothing ⟨smallJournal, [], smallDisk⟩ ⟨smallJournal, [], smallDisk⟩
    quiet_small [] trivial rfl).1 (.commit sevensRefs (by decide) (some ⟨1, true⟩) false)
    ⟨by simp [Fault.reach, sevensRefs], plain_sevensRefs, by decide⟩ (by decide)⟩

def twoRefs : List BlockRef :=
  [⟨201, kindData, sevens, lba_201⟩, ⟨202, kindData, sevens, lba_202⟩]

def eightsRefs : List BlockRef := [⟨202, kindData, eights, lba_202⟩]

def sevensTxn : Txn := smallJournal.filled sevensRefs (by decide)

/-- The journal after the barrier behind the commit block of that transaction failed. -/
def barrierJournal : Journal :=
  { begun smallJournal with dev := ⟨smallDisk, journalWrites sevensTxn 1⟩ }

def eightsTxn : Txn := barrierJournal.filled eightsRefs (by decide)

/-- The disk after the next transaction, which did not fail. -/
def overwrittenDisk : ℕ → Block :=
  applyWrites (logged eightsTxn 1 (logged sevensTxn 1 smallDisk)) (homeWrites eightsTxn)

lemma plain_eightsRefs : Plain smallGeometry eightsRefs := by
  intro ref href
  obtain rfl := mem_singleton.mp href
  exact ⟨by decide, by decide⟩

lemma replay_overwrittenDisk :
    HomeEq smallGeometry (journalReplay overwrittenDisk)
      (applyWrites overwrittenDisk (homeWrites eightsTxn)) := by
  have hcommittable : Committable smallGeometry eightsTxn :=
    ⟨by decide, fun ref href => (plain_eightsRefs ref href).1⟩
  have harea : ∀ lba, smallGeometry.InArea lba → overwrittenDisk lba =
      logged eightsTxn 1 (logged sevensTxn 1 smallDisk) lba := fun lba hin =>
    applyWrites_of_not_mem fun w hw heq => homeWrites_not_inArea hcommittable w hw (heq ▸ hin)
  have hone : OneBegin smallGeometry overwrittenDisk := by
    have hfirst : OneBegin smallGeometry (logged sevensTxn 1 smallDisk) :=
      partial_oneBegin quiet_small.view.oneBegin plain_sevensRefs fun _ hw => hw
    have hsecond : OneBegin smallGeometry (logged eightsTxn 1 (logged sevensTxn 1 smallDisk)) :=
      partial_oneBegin hfirst plain_eightsRefs fun _ hw => hw
    intro lba hin hne
    rw [harea lba hin]
    exact hsecond lba hin hne
  refine replay_complete sbOk_small hone hcommittable ?_
  refine Complete.of_agree (complete_all eightsTxn 1 (logged sevensTxn 1 smallDisk)) ?_
  intro lba hge hlt
  have hlt' : lba < 4 := hlt
  exact harea lba ⟨hge, show lba < 171 by omega⟩

/-- An error in the checkpoint comes after a home block was written. An error of the
barrier comes after the commit block was written: the record is there, and is gone with
the next commit, without its home block ever carrying it. -/
theorem late_error_applies_or_discards :
    ((transact smallJournal (.commit twoRefs (by decide) (some ⟨6, false⟩) false)).1 = -5 ∧
      smallDisk 201 = zeros blockSize ∧
      (step smallJournal (.commit twoRefs (by decide) (some ⟨6, false⟩) false)).dev.view 201 =
        sevens) ∧
    ∃ j₁ j₂ : Journal,
      transact smallJournal (.commit sevensRefs (by decide) (some ⟨3, false⟩) false) = (-5, j₁) ∧
      Complete j₁.dev.view sevensTxn 1 ∧
      transact j₁ (.commit eightsRefs (by decide) none false) = (0, j₂) ∧
      j₂.dev.view 201 = zeros blockSize ∧ journalReplay j₂.dev.view 201 = zeros blockSize := by
  have hzero : smallDisk 201 = zeros blockSize := smallDisk_of_ne (by decide)
  refine ⟨⟨rfl, hzero, rfl⟩, barrierJournal, _, rfl, complete_all sevensTxn 1 smallDisk,
    transact_of_not_due rfl rfl (cons_ne_nil _ _), hzero, ?_⟩
  exact (replay_overwrittenDisk 201 (by decide)).trans hzero

end GrahaOS.JournalFaults
