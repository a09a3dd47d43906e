import GrahaOS.GrahaFs
import GrahaOS.JournalAtomicity

/-!
# What a file system call stages

The blocks a call has staged, laid over the disk, are the disk as it will be after the commit.
Staging an inode replaces this inode in the inode table, and marking a block sets its bit. On a
healthy device the commit makes the staged disk the disk, outside the superblock and the journal.
-/

namespace GrahaOS.FsStaging

open ByteFields BlockDevice DiskFormat Journaling VolumeFormat GrahaFs JournalReplay JournalCrash Volume
  JournalAtomicity Function List

variable {v : Volume} {d d' : ℕ → Block} {t t' : Txn} {lba b n x off : ℕ} {kind : UInt8}
  {payload : Block} {ino : Inode} {rc : ℤ}

/-- The disk with the staged blocks laid over it. -/
def staged (d : ℕ → Block) (t : Txn) : ℕ → Block := applyWrites d (homeWrites t)

/-- The addresses the staged blocks go to. -/
def targets (t : Txn) : List ℕ := t.refs.map (·.lbaTarget)

lemma staged_of_not_mem (h : lba ∉ targets t) : staged d t lba = d lba := by
  apply applyWrites_of_not_mem
  intro w hw heq
  obtain ⟨ref, href, rfl⟩ := mem_map.mp hw
  exact h (mem_map.mpr ⟨ref, href, heq⟩)

lemma stage_refs (h : stage t lba kind payload = .ok t') :
    t'.refs = t.refs ++ [mkRef lba kind payload] := by
  unfold stage journalTxnAddBlock at h
  simp only [Bool.not_true, Bool.false_eq_true, if_false] at h
  split_ifs at h
  cases h
  rfl

lemma stage_error (h : stage t lba kind payload = .error rc) : rc < 0 := by
  unfold stage journalTxnAddBlock at h
  simp only [Bool.not_true, Bool.false_eq_true, if_false] at h
  split_ifs at h
  obtain rfl := Except.error.inj h
  decide

lemma targets_stage (h : stage t lba kind payload = .ok t') (hlba : lba < 2 ^ 64) :
    targets t' = targets t ++ [lba] := by
  simp only [targets, stage_refs h, map_append, map_cons, map_nil, mkRef, Nat.mod_eq_of_lt hlba]

lemma staged_stage (h : stage t lba kind payload = .ok t') (hlba : lba < 2 ^ 64) :
    staged d t' = update (staged d t) lba payload := by
  simp only [staged, homeWrites, stage_refs h, map_append, map_cons, map_nil,
    applyWrites_append, applyWrites_cons, applyWrites_nil, mkRef, Nat.mod_eq_of_lt hlba]

lemma stageIgnored_cases (t : Txn) (lba : ℕ) (kind : UInt8) (payload : Block) :
    stage t lba kind payload = .ok (stageIgnored t lba kind payload) ∨
    stageIgnored t lba kind payload = t := by
  unfold stageIgnored
  cases stage t lba kind payload with
  | ok t' => exact .inl rfl
  | error rc => exact .inr rfl

lemma staged_stageIgnored_of_ne (hlba : lba < 2 ^ 64) (hx : x ≠ lba) :
    staged d (stageIgnored t lba kind payload) x = staged d t x := by
  rcases stageIgnored_cases t lba kind payload with h | h
  · rw [staged_stage h hlba, update_of_ne hx]
  · rw [h]

lemma mem_targets_stageIgnored (hlba : lba < 2 ^ 64)
    (hx : x ∈ targets (stageIgnored t lba kind payload)) : x ∈ targets t ∨ x = lba := by
  rcases stageIgnored_cases t lba kind payload with h | h
  · rw [targets_stage h hlba] at hx
    simpa using hx
  · rw [h] at hx
    exact .inl hx

lemma overlayFirst_none : ∀ {refs : List BlockRef},
    overlayFirst lba off ino refs = none → lba ∉ refs.map (·.lbaTarget) := by
  intro refs
  induction refs with
  | nil =>
    intro _ hmem
    cases hmem
  | cons ref rest ih =>
    intro h hmem
    simp only [overlayFirst] at h
    split_ifs at h with heq
    rcases mem_cons.mp hmem with hhead | hmem
    · exact heq hhead.symm
    · exact ih (Option.map_eq_none_iff.mp h) hmem

/-- The writes of staged blocks. -/
def refWrites (refs : List BlockRef) : List (ℕ × Block) :=
  refs.map fun ref => (ref.lbaTarget, ref.payload)

lemma refWrites_not_mem {refs : List BlockRef} (h : lba ∉ refs.map (·.lbaTarget)) :
    ∀ w ∈ refWrites refs, w.1 ≠ lba := by
  intro w hw heq
  obtain ⟨ref, href, rfl⟩ := mem_map.mp hw
  exact h (mem_map.mpr ⟨ref, href, heq⟩)

/-- Overlaying the only staged copy of a block overlays the block of the staged disk. -/
lemma applyWrites_overlayFirst : ∀ {refs refs' : List BlockRef} {d : ℕ → Block},
    overlayFirst lba off ino refs = some refs' → (refs.map (·.lbaTarget)).count lba ≤ 1 →
      applyWrites d (refWrites refs') = update (applyWrites d (refWrites refs)) lba
        (splice (applyWrites d (refWrites refs) lba) off ino) := by
  intro refs
  induction refs with
  | nil =>
    intro refs' d h
    cases h
  | cons ref rest ih =>
  intro refs' d h hcount
  simp only [overlayFirst] at h
  split_ifs at h with heq
  · cases h
    have hrest : ∀ w ∈ refWrites rest, w.1 ≠ lba := by
      apply refWrites_not_mem
      apply count_eq_zero.mp
      simp only [map_cons, heq, count_cons_self] at hcount
      omega
    have hkept : applyWrites (update d lba ref.payload) (refWrites rest) lba = ref.payload := by
      rw [applyWrites_of_not_mem hrest, update_self]
    simp only [refWrites, map_cons, applyWrites_cons, heq]
    change applyWrites (update d lba (splice ref.payload off ino)) (refWrites rest) =
      update (applyWrites (update d lba ref.payload) (refWrites rest)) lba
        (splice (applyWrites (update d lba ref.payload) (refWrites rest) lba) off ino)
    rw [hkept]
    funext x
    by_cases hx : x = lba
    · rw [hx, update_self, applyWrites_of_not_mem hrest, update_self]
    rw [update_of_ne hx]
    apply applyWrites_congr
    intro _
    rw [update_of_ne hx, update_of_ne hx]
  · obtain ⟨rest', hrest, rfl⟩ := Option.map_eq_some_iff.mp h
    have hcount' : (rest.map (·.lbaTarget)).count lba ≤ 1 := by
      rwa [map_cons, count_cons_of_ne heq] at hcount
    exact ih hrest hcount'

lemma inodeLba_lt_word (v : Volume) (hn : n < inodeCountMax) : v.inodeLba n < 2 ^ 64 := by
  have hlt := v.inodeLba_lt hn
  have hreg := v.regions
  have hroom := v.dataStart_room
  have htotal := v.total_lt_word
  omega

lemma staged_journalStageInode (h : journalStageInode v d t n ino = .ok t')
    (hn : n < inodeCountMax) (hcount : (targets t).count (v.inodeLba n) ≤ 1) :
    staged d t' = update (staged d t) (v.inodeLba n)
      (splice (staged d t (v.inodeLba n)) (inodeOff n) ino) := by
  unfold journalStageInode at h
  split at h
  · next refs hrefs =>
    cases h
    exact applyWrites_overlayFirst hrefs hcount
  · next hnone =>
    rw [staged_stage h (inodeLba_lt_word v hn), staged_of_not_mem (overlayFirst_none hnone)]

lemma journalStageInode_error (h : journalStageInode v d t n ino = .error rc) : rc < 0 := by
  unfold journalStageInode at h
  split at h
  · cases h
  · exact stage_error h

lemma targets_journalStageInode (h : journalStageInode v d t n ino = .ok t')
    (hn : n < inodeCountMax) :
    targets t' = targets t ∨ (v.inodeLba n ∉ targets t ∧ targets t' = targets t ++ [v.inodeLba n]) := by
  unfold journalStageInode at h
  split at h
  · next refs hrefs =>
    cases h
    exact .inl (overlayFirst_targets hrefs)
  · next hnone =>
    exact .inr ⟨overlayFirst_none hnone, targets_stage h (inodeLba_lt_word v hn)⟩

lemma inodeAt_congr (h : d' (v.inodeLba n) = d (v.inodeLba n)) :
    v.inodeAt d' n = v.inodeAt d n := by
  simp only [inodeAt, h]

lemma inodeAt_update (d : ℕ → Block) (ino : Inode) {m : ℕ} (hn : n < inodeCountMax)
    (hm : m < inodeCountMax) :
    v.inodeAt (update d (v.inodeLba n)
      (splice (d (v.inodeLba n)) (inodeOff n) ino)) m =
        if m = n then ino else v.inodeAt d m := by
  by_cases hmn : m = n
  · subst hmn
    rw [if_pos rfl, inodeAt, update_self, slice_splice_self]
    simp only [inodeOff, inodeSize, blockSize]
    omega
  · rw [if_neg hmn]
    by_cases hlba : v.inodeLba m = v.inodeLba n
    · rw [inodeAt, inodeAt, hlba, update_self]
      exact slice_splice_of_disjoint _ _ (v.inodeOff_apart hn hm (Ne.symm hmn) hlba.symm)
    · exact inodeAt_congr (update_of_ne hlba _ _)

lemma used_congr (h : d' (bitmapLba b) = d (bitmapLba b)) : used d' b = used d b := by
  simp only [used, h]

lemma used_update (d : ℕ → Block) (b b' : ℕ) :
    used (update d (bitmapLba b)
      (bitmapMark (d (bitmapLba b)) (b % bitsPerBlock))) b' =
        (decide (b' = b) || used d b') := by
  have hpos : 0 < bitsPerBlock := by decide
  by_cases hlba : bitmapLba b' = bitmapLba b
  · simp only [used, hlba, update_self]
    rw [bitmapTest_bitmapMark _ (Nat.mod_lt b hpos) (Nat.mod_lt b' hpos)]
    have hiff : b' % bitsPerBlock = b % bitsPerBlock ↔ b' = b := by
      simp only [bitmapLba, Nat.add_left_cancel_iff] at hlba
      constructor
      · intro hmod
        rw [← Nat.div_add_mod b' bitsPerBlock, ← Nat.div_add_mod b bitsPerBlock, hlba, hmod]
      · rintro rfl
        rfl
    simp only [hiff]
  · rw [used_congr (update_of_ne hlba _ _)]
    have hne : b' ≠ b := by
      rintro rfl
      exact hlba rfl
    simp [hne]

lemma mem_firstFree (h : firstFree v d = some b) :
    v.dataStart ≤ b ∧ b < v.totalBlocks ∧ used d b = false := by
  have hlt := mem_range.mp (mem_of_find?_eq_some h)
  have hfree := List.find?_some h
  simp only [Bool.and_eq_true, decide_eq_true_eq, Bool.not_eq_true'] at hfree
  exact ⟨hfree.1, hlt, hfree.2⟩

lemma view_persistOps (j : Journal) (t : Txn) (hlba : lba ≠ 0) :
    ((⟨d, []⟩ : Device Block).exec (persistOps j t)).view lba = d lba := by
  unfold persistOps persistScript
  split_ifs
  · rfl
  · exact update_of_ne hlba _ _
  · rfl

lemma homeEq_commit {j : Journal} (hhead : j.head = j.geo.base) {fault : Option Fault}
    {sbFails : Bool} (hrc : (journalTxnCommit j t fault sbFails).1 = 0) :
    HomeEq j.geo (journalTxnCommit j t fault sbFails).2.dev.view (staged j.dev.view t) := by
  by_cases hrefs : t.refs = []
  · have hstaged : staged j.dev.view t = j.dev.view := by simp [staged, homeWrites, hrefs]
    rw [hstaged, journalTxnCommit, if_pos hrefs]
    exact HomeEq.refl _ _
  have hfault : journalTxnCommit j t fault sbFails = journalTxnCommit j t none sbFails := by
    cases fault with
    | none => rfl
    | some fault =>
      by_cases hindex : fault.index < (commitScript t (j.place t)).length
      · simp [journalTxnCommit, attempt, hrefs, hindex] at hrc
      · have hsame : attempt j.dev (commitScript t (j.place t)) (some fault) =
            attempt j.dev (commitScript t (j.place t)) none := if_neg hindex
        simp only [journalTxnCommit, hsame]
  have hplace : j.place t = j.geo.base := by
    simp only [Journal.place, hhead]
    split_ifs <;> rfl
  rw [hfault, journalTxnCommit_none hrefs, hplace, exec_commitScript]
  intro lba hlba
  have hlogged : HomeEq j.geo (logged t j.geo.base j.dev.view) j.dev.view :=
    partial_homeEq (fun _ hw => hw) _
  refine Eq.trans ?_ (hlogged.applyWrites (homeWrites t) lba hlba)
  cases sbFails with
  | true => rfl
  | false => exact view_persistOps j t hlba.1

lemma txnCommit_spec {fs : Fs} (hhead : fs.journal.head = fs.journal.geo.base) (t : Txn) :
    (fs.txnCommit t).1 = 0 ∧
    (fs.txnCommit t).2.journal.geo = fs.journal.geo ∧
    (fs.txnCommit t).2.journal.head = fs.journal.geo.base ∧
    HomeEq fs.journal.geo (fs.txnCommit t).2.disk (staged fs.disk t) := by
  have hrc : (fs.txnCommit t).1 = 0 := by
    by_cases hrefs : t.refs = []
    · simp [Fs.txnCommit, journalTxnCommit, hrefs]
    · simp [Fs.txnCommit, journalTxnCommit_none hrefs]
  refine ⟨hrc, journalTxnCommit_geo .., ?_, homeEq_commit hhead hrc⟩
  by_cases hrefs : t.refs = []
  · simp [Fs.txnCommit, journalTxnCommit, hrefs, hhead]
  · simp [Fs.txnCommit, journalTxnCommit_none hrefs, Journal.advance]

end GrahaOS.FsStaging
