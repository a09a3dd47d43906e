import GrahaOS.JournalRecords

/-!
# Replay of the images a crash can leave

An image is sound for some home contents when its journal area holds at most one record that replay
could take up, the one at the base, and that record lacks its commit block or has payloads that the
home contents already carry. Writing part of a new record over a sound image gives a sound image
again, unless both ends of the record are among what is written.

The checksum is trusted only as far as needed: on the image replay runs on, what it reads has the
checksum of a transaction of the run only if it is that transaction's record.
-/

namespace GrahaOS.JournalReplay

open BlockDevice DiskFormat Journaling JournalRecords

variable {geo : Geometry} {known : List Txn} {nextId endLba head scan : ℕ}
  {home img d d' : ℕ → Block} {t : Txn}

/-- The block starts like a begin or a commit block. -/
def Mimics (b : Block) : Prop := jMagic.get b = journalBegin ∨ jMagic.get b = journalCommit

instance (b : Block) : Decidable (Mimics b) := inferInstanceAs (Decidable (_ ∨ _))

variable (geo)

/-- The staged blocks go to home addresses and none starts like a journal block. -/
def Plain (refs : List BlockRef) : Prop :=
  ∀ ref ∈ refs, geo.Home ref.lbaTarget ∧ ¬Mimics ref.payload

/-- The two disks agree on all home blocks. -/
def HomeEq (d d' : ℕ → Block) : Prop := ∀ lba, geo.Home lba → d lba = d' lba

lemma HomeEq.refl (d : ℕ → Block) : HomeEq geo d d := fun _ _ => rfl

variable {geo}

lemma HomeEq.trans {d'' : ℕ → Block} (h : HomeEq geo d d') (h' : HomeEq geo d' d'') :
    HomeEq geo d d'' := fun lba hlba => (h lba hlba).trans (h' lba hlba)

lemma HomeEq.applyWrites (h : HomeEq geo d d') (ws : List (ℕ × Block)) :
    HomeEq geo (applyWrites d ws) (applyWrites d' ws) :=
  fun lba hlba => applyWrites_congr fun _ => h lba hlba

/-- The superblock names the journal area and does not start the scan behind its base. -/
structure SbOk (geo : Geometry) (sb : Block) : Prop where
  start : sbJournalStart.get sb = geo.base
  blocks : sbJournalBlocks.get sb = geo.size
  head : sbJournalHead.get sb ≤ geo.base

/-- A transaction that can have been committed to the journal. -/
structure Committable (geo : Geometry) (t : Txn) : Prop where
  id_lt : t.txnId < 2 ^ 64
  targets : ∀ ref ∈ t.refs, geo.Home ref.lbaTarget

lemma blockCount_le (t : Txn) : t.blockCount ≤ journalTxnMaxBlocks := by
  have hle := t.refs_le
  simp only [Txn.blockCount, journalTxnMaxBlocks]
  omega

variable (geo)

lemma record_end_lt (t : Txn) : geo.base + t.blockCount ≤ geo.base + geo.size := by
  have hle := blockCount_le t
  have hroom := geo.room
  omega

lemma record_end_lt_word (t : Txn) : geo.base + t.blockCount < 2 ^ 64 :=
  (record_end_lt geo t).trans_lt geo.end_lt

variable {geo}

lemma homeWrites_not_inArea (h : Committable geo t) : ∀ w ∈ homeWrites t, ¬geo.InArea w.1 := by
  intro w hw
  obtain ⟨ref, href, rfl⟩ := List.mem_map.mp hw
  exact (h.targets ref href).2

/-- The complete record of the transaction is on the disk from `head` on. -/
structure Complete (d : ℕ → Block) (t : Txn) (head : ℕ) : Prop where
  first : d head = beginBlock t head
  staged : Staged d t head
  last : d (head + t.blockCount - 1) = commitBlock t.txnId (crc32Blocks (record t head))

lemma Complete.valid (h : Complete d t head) (hid : t.txnId < 2 ^ 64)
    (hend : head + t.blockCount ≤ endLba) (hword : endLba < 2 ^ 64) :
    recordValid d endLba head = true := by
  have hcount : 2 ≤ t.blockCount := by simp only [Txn.blockCount]; omega
  have hmax := blockCount_le t
  have hlast : head + t.blockCount - 1 < endLba := by omega
  have hread := (readRecord_eq_iff (by omega)).mpr h.staged
  simp [recordValid, h.first, h.last, hread, hcount, hmax, hlast, jTxnId_beginBlock hid,
    jTxnId_commitBlock hid, commitChecksum_commitBlock t.txnId (crc32Blocks_lt _)]

/-- The scan takes up a valid record with its payloads and goes on behind it. -/
lemma replayLoop_valid (budget : ℕ) (hvalid : recordValid d endLba head = true)
    (hfirst : d head = beginBlock t head) (hstaged : Staged d t head)
    (hend : head + t.blockCount ≤ endLba) (hword : endLba < 2 ^ 64)
    (houtside : ∀ ref ∈ t.refs, ref.lbaTarget < head ∨ head + t.blockCount ≤ ref.lbaTarget) :
    replayLoop endLba (budget + 1) head d =
      replayLoop endLba budget (head + t.blockCount) (applyWrites d (homeWrites t)) := by
  have hpos : 0 < t.blockCount := by simp only [Txn.blockCount]; omega
  rw [replayLoop, if_pos (by omega), if_pos hvalid]
  simp only [hfirst, beginBlockCount_beginBlock, beginRefCount_beginBlock]
  rw [applyRefs_beginBlock (by omega) hstaged houtside]

lemma replayLoop_of_not_begin (budget : ℕ)
    (h : scan < endLba → jMagic.get (d scan) ≠ journalBegin) :
    replayLoop endLba budget scan d = d := by
  cases budget with
  | zero => rfl
  | succ budget =>
    rw [replayLoop]
    split_ifs with hlt hvalid
    · simp [recordValid, h hlt] at hvalid
    · rfl
    · rfl

variable (hsb : SbOk geo (img 0))
include hsb

/-- Replay writes home blocks only through its scan, which starts at the base. -/
lemma homeEq_journalReplay : HomeEq geo (journalReplay img)
      (replayLoop (geo.base + geo.size) journalTxnMaxBlocks geo.base img) := by
  intro lba hlba
  have hscan : (if sbJournalHead.get (img 0) < geo.base then geo.base
      else sbJournalHead.get (img 0)) = geo.base := by
    have hle := hsb.head
    split_ifs <;> omega
  simp only [journalReplay, hsb.start, hsb.blocks, hscan]
  rw [Function.update_of_ne hlba.1]

omit hsb

/-- No block of the area but the first starts like a begin block. -/
def OneBegin (geo : Geometry) (d : ℕ → Block) : Prop :=
  ∀ lba, geo.InArea lba → lba ≠ geo.base → jMagic.get (d lba) ≠ journalBegin

include hsb

/-- Replay of a valid record with its payloads is the checkpoint. -/
theorem replay_valid (hone : OneBegin geo img) (ht : Committable geo t)
    (hvalid : recordValid img (geo.base + geo.size) geo.base = true)
    (hfirst : img geo.base = beginBlock t geo.base) (hstaged : Staged img t geo.base) :
    HomeEq geo (journalReplay img) (applyWrites img (homeWrites t)) := by
  have hpos : 0 < t.blockCount := by simp only [Txn.blockCount]; omega
  have hend := record_end_lt geo t
  have hloop := replayLoop_valid 169 hvalid hfirst hstaged hend geo.end_lt fun ref href => by
    have hnot := (ht.targets ref href).2
    simp only [Geometry.InArea] at hnot
    omega
  have hstop : replayLoop (geo.base + geo.size) 169 (geo.base + t.blockCount)
      (applyWrites img (homeWrites t)) = applyWrites img (homeWrites t) := by
    apply replayLoop_of_not_begin
    intro hlt
    have harea : geo.InArea (geo.base + t.blockCount) := ⟨by omega, hlt⟩
    rw [applyWrites_of_not_mem fun w hw heq => homeWrites_not_inArea ht w hw (heq ▸ harea)]
    exact hone _ harea (by omega)
  have hreplay := homeEq_journalReplay hsb
  rw [show journalTxnMaxBlocks = 169 + 1 from rfl, hloop, hstop] at hreplay
  exact hreplay

/-- Replay of a complete record is the checkpoint. -/
theorem replay_complete (hone : OneBegin geo img) (ht : Committable geo t)
    (h : Complete img t geo.base) :
    HomeEq geo (journalReplay img) (applyWrites img (homeWrites t)) :=
  replay_valid hsb hone ht (h.valid ht.id_lt (record_end_lt geo t) geo.end_lt) h.first h.staged

/-- Replay of a record that fails its checks does nothing to the home blocks. -/
theorem replay_invalid (h : recordValid img (geo.base + geo.size) geo.base = false) :
    HomeEq geo (journalReplay img) img := by
  have hreplay := homeEq_journalReplay hsb
  rw [show journalTxnMaxBlocks = 169 + 1 from rfl, replayLoop, h] at hreplay
  simpa using hreplay

omit hsb

variable (geo)

/-- The home contents already carry the transaction. -/
def Applied (t : Txn) (home : ℕ → Block) : Prop :=
  HomeEq geo (applyWrites home (homeWrites t)) home

/-- The record at the base, if there is one, is that of a known transaction, and a commit
block for it anywhere in the area is genuine and only there once it is applied. -/
def FirstSettled (known : List Txn) (nextId : ℕ) (home img : ℕ → Block) : Prop :=
  jMagic.get (img geo.base) = journalBegin → ∃ t ∈ known, t.txnId < nextId ∧ Committable geo t ∧
    img geo.base = beginBlock t geo.base ∧
    ∀ lba, geo.InArea lba → jMagic.get (img lba) = journalCommit →
      jTxnId.get (img lba) = t.txnId →
        commitChecksum.get (img lba) = crc32Blocks (record t geo.base) ∧ Applied geo t home

variable {geo}

/-- The image has the home contents, and replay has nothing to add to them. -/
structure Sound (geo : Geometry) (known : List Txn) (nextId : ℕ) (home img : ℕ → Block) :
    Prop where
  sb : SbOk geo (img 0)
  oneBegin : OneBegin geo img
  commits : ∀ lba, geo.InArea lba → jMagic.get (img lba) = journalCommit →
    jTxnId.get (img lba) < nextId
  first : FirstSettled geo known nextId home img
  homeEq : HomeEq geo img home

/-- What replay reads at the base has the checksum of a known transaction whose begin
block is there only if it is its record. -/
def CrcTrusted (geo : Geometry) (known : List Txn) (img : ℕ → Block) : Prop :=
  ∀ t ∈ known, img geo.base = beginBlock t geo.base →
    crc32Blocks (readRecord img (img geo.base)) = crc32Blocks (record t geo.base) →
      readRecord img (img geo.base) = record t geo.base

lemma recordValid_checks (h : recordValid d endLba scan = true) :
    jMagic.get (d scan) = journalBegin ∧
    2 ≤ beginBlockCount.get (d scan) ∧
    scan + beginBlockCount.get (d scan) - 1 < endLba ∧
    jMagic.get (d (scan + beginBlockCount.get (d scan) - 1)) = journalCommit ∧
    jTxnId.get (d (scan + beginBlockCount.get (d scan) - 1)) = jTxnId.get (d scan) ∧
    crc32Blocks (readRecord d (d scan)) =
      commitChecksum.get (d (scan + beginBlockCount.get (d scan) - 1)) := by
  simp only [recordValid, Bool.and_eq_true, decide_eq_true_eq] at h
  obtain ⟨⟨⟨⟨⟨⟨hbegin, hmin⟩, -⟩, hend⟩, hcommit⟩, hid⟩, hcrc⟩ := h
  exact ⟨hbegin, hmin, hend, hcommit, hid, hcrc⟩

/-- Replay of a sound image leaves its home contents alone. -/
theorem replay_sound (h : Sound geo known nextId home img) (hcrc : CrcTrusted geo known img) :
    HomeEq geo (journalReplay img) home := by
  cases hvalid : recordValid img (geo.base + geo.size) geo.base with
  | false => exact (replay_invalid h.sb hvalid).trans h.homeEq
  | true =>
  obtain ⟨hbegin, hmin, hend, hcommit, hid, hsum⟩ := recordValid_checks hvalid
  obtain ⟨t, hknown, -, ht, hfirst, hcommits⟩ := h.first hbegin
  have harea : geo.InArea (geo.base + beginBlockCount.get (img geo.base) - 1) := ⟨by omega, hend⟩
  have hidt : jTxnId.get (img geo.base) = t.txnId := by
    rw [hfirst]
    exact jTxnId_beginBlock ht.id_lt geo.base
  obtain ⟨hchecksum, happlied⟩ := hcommits _ harea hcommit (hid.trans hidt)
  have hrecord := hcrc t hknown hfirst (hsum.trans hchecksum)
  rw [hfirst] at hrecord
  have hstaged := (readRecord_eq_iff (record_end_lt_word geo t)).mp hrecord
  have happly := replay_valid h.sb h.oneBegin ht hvalid hfirst hstaged
  exact happly.trans ((h.homeEq.applyWrites _).trans happlied)

end GrahaOS.JournalReplay
