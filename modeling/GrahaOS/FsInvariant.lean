import GrahaOS.FsWrite

/-!
# The invariant of a volume

A volume is tidy when the direct blocks of its inodes are different blocks of the data area behind
the first segment's header, all marked in the bitmap, when no inode has an indirect page, a
double-indirect page or a metadata block, and when every directory has its block. Together with a
coherent inode cache this is kept by every call that is tame.
-/

namespace GrahaOS.FsInvariant

open ByteFields BlockDevice DiskFormat Journaling VolumeFormat GrahaFs FsStaging FsWrite Volume
  JournalReplay Function

variable {v : Volume} {I I' : ℕ → Inode} {U U' : ℕ → Bool} {fs fs' fs₁ : Fs} {n b offset : ℕ}
  {ino : Inode} {D d : ℕ → Block} {data : List UInt8}

/-- The inodes and the bitmap of a volume fit together. -/
structure Tidy (v : Volume) (I : ℕ → Inode) (U : ℕ → Bool) : Prop where
  slots : ∀ n < inodeCountMax, ∀ i < 12, slot (I n) i ≠ 0 →
    v.dataStart < slot (I n) i ∧ slot (I n) i < v.totalBlocks ∧ U (slot (I n) i) = true
  inj : ∀ n < inodeCountMax, ∀ i < 12, ∀ m < inodeCountMax, ∀ j < 12, slot (I n) i ≠ 0 →
    slot (I n) i = slot (I m) j → n = m ∧ i = j
  pages : ∀ n < inodeCountMax, inoIndirect.get (I n) = 0 ∧ inoDoubleIndirect.get (I n) = 0 ∧
    inoAiMetadataBlock.get (I n) = 0
  dirs : ∀ n < inodeCountMax, inoMagic.get (I n) = inodeMagic →
    inoType.get (I n) = typeDirectory → slot (I n) 0 ≠ 0
  crc : ∀ n < inodeCountMax, inoMagic.get (I n) = inodeMagic → inodeCrcOk (I n) = true
  reserved : ∀ b < formatUsed v, U b = true

lemma Tidy.slotsOk (h : Tidy v I U) (hn : n < inodeCountMax) : SlotsOk v (I n) where
  range := fun i hi hnz =>
    ⟨(h.slots n hn i hi hnz).1.le, (h.slots n hn i hi hnz).2.1⟩
  inj := fun i hi j hj hnz heq => (h.inj n hn i hi n hn j hj hnz heq).2

lemma formatUsed_lt (v : Volume) : formatUsed v < v.totalBlocks := by
  have hroom := v.dataStart_room
  simp only [formatUsed]
  omega

/-- Only inodes of the table and blocks of the volume count. -/
lemma Tidy.congr (h : Tidy v I U) (hI : ∀ n < inodeCountMax, I' n = I n)
    (hU : ∀ b < v.totalBlocks, U' b = U b) : Tidy v I' U' where
  slots := by
    intro n hn i hi hnz
    rw [hI n hn] at hnz ⊢
    obtain ⟨hge, hlt, hused⟩ := h.slots n hn i hi hnz
    exact ⟨hge, hlt, (hU _ hlt).trans hused⟩
  inj := by
    intro n hn i hi m hm j hj hnz heq
    rw [hI n hn] at hnz heq
    rw [hI m hm] at heq
    exact h.inj n hn i hi m hm j hj hnz heq
  pages := by
    intro n hn
    rw [hI n hn]
    exact h.pages n hn
  dirs := by
    intro n hn hmagic htype
    rw [hI n hn] at hmagic htype ⊢
    exact h.dirs n hn hmagic htype
  crc := by
    intro n hn hmagic
    rw [hI n hn] at hmagic ⊢
    exact h.crc n hn hmagic
  reserved := fun b hb => (hU b (hb.trans (formatUsed_lt v))).trans (h.reserved b hb)

/-- What a new copy of an inode has to satisfy. -/
structure Fits (v : Volume) (I : ℕ → Inode) (U' : ℕ → Bool) (n : ℕ) (ino : Inode) : Prop where
  slots : ∀ i < 12, slot ino i ≠ 0 →
    v.dataStart < slot ino i ∧ slot ino i < v.totalBlocks ∧ U' (slot ino i) = true
  inj : ∀ i < 12, ∀ j < 12, slot ino i ≠ 0 → slot ino i = slot ino j → i = j
  apart : ∀ i < 12, slot ino i ≠ 0 → ∀ m < inodeCountMax, m ≠ n → ∀ j < 12,
    slot (I m) j ≠ slot ino i
  pages : inoIndirect.get ino = 0 ∧ inoDoubleIndirect.get ino = 0 ∧ inoAiMetadataBlock.get ino = 0
  dirs : inoType.get ino = typeDirectory → slot ino 0 ≠ 0
  crc : inodeCrcOk ino = true

/-- Replacing an inode by one that fits, with more blocks marked. -/
lemma Tidy.replace (h : Tidy v I U) (hU : ∀ b, U b = true → U' b = true)
    (hfits : Fits v I U' n ino) : Tidy v (update I n ino) U' where
  slots := by
    intro m hm i hi hnz
    by_cases hmn : m = n
    · subst hmn
      rw [update_self] at hnz ⊢
      exact hfits.slots i hi hnz
    · rw [update_of_ne hmn] at hnz ⊢
      obtain ⟨hge, hlt, hused⟩ := h.slots m hm i hi hnz
      exact ⟨hge, hlt, hU _ hused⟩
  inj := by
    intro m hm i hi k hk j hj hnz heq
    by_cases hmn : m = n
    · subst hmn
      rw [update_self] at hnz heq
      by_cases hkm : k = m
      · subst hkm
        rw [update_self] at heq
        exact ⟨rfl, hfits.inj i hi j hj hnz heq⟩
      · rw [update_of_ne hkm] at heq
        exact absurd heq.symm (hfits.apart i hi hnz k hk hkm j hj)
    · rw [update_of_ne hmn] at hnz heq
      by_cases hkn : k = n
      · subst hkn
        rw [update_self] at heq
        exact absurd heq (hfits.apart j hj (heq ▸ hnz) m hm hmn i hi)
      · rw [update_of_ne hkn] at heq
        exact h.inj m hm i hi k hk j hj hnz heq
  pages := by
    intro m hm
    by_cases hmn : m = n
    · rw [hmn, update_self]
      exact hfits.pages
    · rw [update_of_ne hmn]
      exact h.pages m hm
  dirs := by
    intro m hm hmagic htype
    by_cases hmn : m = n
    · rw [hmn, update_self] at htype ⊢
      exact hfits.dirs htype
    · rw [update_of_ne hmn] at hmagic htype ⊢
      exact h.dirs m hm hmagic htype
  crc := by
    intro m hm hmagic
    by_cases hmn : m = n
    · rw [hmn, update_self]
      exact hfits.crc
    · rw [update_of_ne hmn] at hmagic ⊢
      exact h.crc m hm hmagic
  reserved := fun b hb => hU b (h.reserved b hb)

lemma Tidy.fresh (h : Tidy v I U) (hge : v.dataStart ≤ b) (hfree : U b = false) :
    v.dataStart < b ∧ ∀ n < inodeCountMax, ∀ i < 12, slot (I n) i ≠ b := by
  refine ⟨?_, ?_⟩
  · by_contra hle
    have hused := h.reserved b (by simp only [formatUsed]; omega)
    rw [hfree] at hused
    cases hused
  · rintro n hn i hi rfl
    have hreg := v.regions
    have hused := (h.slots n hn i hi (by omega)).2.2
    rw [hfree] at hused
    cases hused

/-- The cache holds what is on the disk. -/
def Coherent (v : Volume) (d : ℕ → Block) (cache : List CacheEntry) : Prop :=
  ∀ e ∈ cache, e.inodeNum < inodeCountMax ∧ v.inodeAt d e.inodeNum = e.disk ∧
    inoMagic.get e.disk = inodeMagic

structure Inv (fs : Fs) : Prop where
  geo : fs.journal.geo = fs.vol.geometry
  head : fs.journal.head = fs.journal.geo.base
  coherent : Coherent fs.vol fs.disk fs.cache
  tidy : Tidy fs.vol (fs.vol.inodeAt fs.disk) (Volume.used fs.disk)
  segments : fs.segments = formatSegments fs.vol
  active : fs.activeSegment = some 0

/-- Nothing happened on the disk. -/
structure Idle (fs fs' : Fs) : Prop where
  inv : Inv fs → Inv fs'
  vol_eq : fs'.vol = fs.vol
  disk_eq : fs'.disk = fs.disk

lemma Idle.refl (fs : Fs) : Idle fs fs := ⟨id, rfl, rfl⟩

lemma Idle.trans {fs₂ fs₃ : Fs} (h : Idle fs₁ fs₂) (h' : Idle fs₂ fs₃) : Idle fs₁ fs₃ :=
  ⟨fun hi => h'.inv (h.inv hi), h'.vol_eq.trans h.vol_eq, h'.disk_eq.trans h.disk_eq⟩

lemma idle_counts (h : CountsOnly fs fs') : Idle fs fs' := by
  obtain ⟨k, rfl⟩ := h
  exact ⟨fun hi => ⟨hi.geo, hi.head, hi.coherent, hi.tidy, hi.segments, hi.active⟩, rfl, rfl⟩

lemma idle_begin (fs : Fs) : Idle fs fs.txnBegin.2 :=
  ⟨fun hi => ⟨hi.geo, hi.head, hi.coherent, hi.tidy, hi.segments, hi.active⟩, rfl, rfl⟩

lemma idle_freeInodes (fs : Fs) (k : ℕ) : Idle fs { fs with freeInodes := k } :=
  ⟨fun hi => ⟨hi.geo, hi.head, hi.coherent, hi.tidy, hi.segments, hi.active⟩, rfl, rfl⟩

lemma inodeCacheGet_some (h : Inv fs) (hn : n < inodeCountMax)
    (hget : inodeCacheGet fs n = some (ino, fs')) :
    ino = fs.vol.inodeAt fs.disk n ∧ inoMagic.get ino = inodeMagic ∧ Idle fs fs' := by
  unfold inodeCacheGet at hget
  split at hget
  · next e he =>
    cases hget
    have hnum : e.inodeNum = n := by simpa using List.find?_some he
    obtain ⟨-, hdisk, hmagic⟩ := h.coherent e (List.mem_of_find?_eq_some he)
    rw [hnum] at hdisk
    exact ⟨hdisk.symm, hmagic, Idle.refl _⟩
  · dsimp only at hget
    split_ifs at hget with hmagic hcrc hroom
    cases hget
    have hmagic' : inoMagic.get (fs.vol.inodeAt fs.disk n) = inodeMagic := not_not.mp hmagic
    refine ⟨rfl, hmagic', ?_, rfl, rfl⟩
    intro hi
    refine ⟨hi.geo, hi.head, ?_, hi.tidy, hi.segments, hi.active⟩
    intro e he
    rcases List.mem_append.mp he with he | he
    · exact hi.coherent e he
    · obtain rfl := List.mem_singleton.mp he
      exact ⟨hn, rfl, hmagic'⟩

lemma disk_blockWrite (fs : Fs) (lba : ℕ) (blk : Block) :
    (fs.blockWrite lba blk).disk = update fs.disk lba blk := by
  simp only [Fs.disk, Fs.blockWrite, Device.perform, Device.view, applyWrites_append,
    applyWrites_cons, applyWrites_nil]

/-- After a commit and with the superblock written, the disk is the staged one outside the
superblock and the journal, whatever else is in memory. -/
structure Settled (fs fs' : Fs) (D : ℕ → Block) : Prop where
  vol_eq : fs'.vol = fs.vol
  geo : fs'.journal.geo = fs.vol.geometry
  head : fs'.journal.head = fs'.journal.geo.base
  segments : fs'.segments = fs.segments
  active : fs'.activeSegment = fs.activeSegment
  disk_eq : ∀ lba, fs.vol.geometry.Home lba → fs'.disk lba = D lba

variable (h : Settled fs fs' D)
include h

lemma Settled.inodeAt (hn : n < inodeCountMax) :
    fs'.vol.inodeAt fs'.disk n = fs.vol.inodeAt D n := by
  rw [h.vol_eq]
  exact inodeAt_congr (h.disk_eq _ (fs.vol.home_inode hn))

lemma Settled.used (hb : b < fs.vol.totalBlocks) : used fs'.disk b = used D b :=
  used_congr (h.disk_eq _ (fs.vol.home_bitmap hb))

omit h

lemma settled_commit (hgeo : fs.journal.geo = fs.vol.geometry)
    (hhead : fs.journal.head = fs.journal.geo.base) (t : Txn) :
    (fs.txnCommit t).1 = 0 ∧ Settled fs (fs.txnCommit t).2 (staged fs.disk t) ∧
      (fs.txnCommit t).2.cache = fs.cache := by
  obtain ⟨hrc, hgeo', hhead', hdisk⟩ := txnCommit_spec hhead t
  refine ⟨hrc, ⟨rfl, hgeo'.trans hgeo, by rw [hhead', hgeo'], rfl, rfl, ?_⟩, rfl⟩
  intro lba hlba
  rw [← hgeo] at hlba
  exact hdisk lba hlba

include h

lemma Settled.publish (n : ℕ) (ino : Inode) :
    Settled fs (fs'.publish n ino) D := ⟨h.vol_eq, h.geo, h.head, h.segments, h.active, h.disk_eq⟩

omit h

lemma Settled.of_publish (h : Settled (fs.publish n ino) fs' D) :
    Settled fs fs' D := ⟨h.vol_eq, h.geo, h.head, h.segments, h.active, h.disk_eq⟩

include h

lemma Settled.writeSuperblock : Settled fs fs'.writeSuperblock D := by
  refine ⟨h.vol_eq, h.geo, h.head, h.segments, h.active, ?_⟩
  intro lba hlba
  rw [Fs.writeSuperblock, disk_blockWrite, update_of_ne hlba.1]
  exact h.disk_eq lba hlba

lemma Settled.flush :
    Settled fs { fs' with journal := { fs'.journal with dev := fs'.journal.dev.perform .flush } } D :=
  ⟨h.vol_eq, h.geo, h.head, h.segments, h.active, h.disk_eq⟩

lemma Settled.coherent (hcache : Coherent fs.vol D fs'.cache) :
    Coherent fs'.vol fs'.disk fs'.cache := by
  intro e he
  obtain ⟨hlt, hdisk, hmagic⟩ := hcache e he
  exact ⟨hlt, (h.inodeAt hlt).trans hdisk, hmagic⟩

/-- The invariant after a transaction, from what it staged. -/
lemma Settled.inv (hsegments : fs.segments = formatSegments fs.vol)
    (hactive : fs.activeSegment = some 0) (htidy : Tidy fs.vol (fs.vol.inodeAt D) (Volume.used D))
    (hcache : Coherent fs.vol D fs'.cache) : Inv fs' := by
  refine ⟨by rw [h.geo, h.vol_eq], h.head, h.coherent hcache, ?_,
    by rw [h.segments, hsegments, h.vol_eq], h.active.trans hactive⟩
  rw [h.vol_eq]
  refine htidy.congr (fun n hn => ?_) fun b hb => h.used hb
  rw [← h.inodeAt hn, h.vol_eq]

omit h

lemma coherent_publish {cache : List CacheEntry} (h : Coherent v d cache)
    (hmagic : inoMagic.get ino = inodeMagic)
    (hD : ∀ m < inodeCountMax, m ≠ n → inoMagic.get (v.inodeAt d m) = inodeMagic →
      v.inodeAt D m = v.inodeAt d m) (hn : v.inodeAt D n = ino) :
    Coherent v D (cache.map fun e => if e.inodeNum = n then { e with disk := ino } else e) := by
  intro e he
  obtain ⟨e₀, he₀, rfl⟩ := List.mem_map.mp he
  obtain ⟨hlt, hdisk, hmagic₀⟩ := h e₀ he₀
  by_cases hnum : e₀.inodeNum = n
  · rw [if_pos hnum]
    refine ⟨hlt, ?_, hmagic⟩
    simp only [hnum]
    exact hn
  · rw [if_neg hnum]
    exact ⟨hlt, (hD _ hlt hnum (hdisk ▸ hmagic₀)).trans hdisk, hmagic₀⟩

lemma get_writtenInode {f : Field} (hsize : f.Apart inoSize) (htime : f.Apart inoModificationTime)
    (hsum : f.Apart inoChecksum) (ino : Inode) (offset count : ℕ) :
    f.get (writtenInode ino offset count) = f.get ino := by
  unfold writtenInode
  rw [get_sealInode hsum, Field.get_put_of_apart htime]
  split_ifs
  · exact Field.get_put_of_apart hsize _ _
  · rfl

lemma size_writtenInode {count : ℕ} (hend : offset + count < 2 ^ 64) (ino : Inode) :
    inoSize.get (writtenInode ino offset count) = max (inoSize.get ino) (offset + count) := by
  unfold writtenInode
  simp only [Nat.mod_eq_of_lt hend]
  rw [get_sealInode (by decide), Field.get_put_of_apart (by decide)]
  split_ifs with hlt
  · have hput : inoSize.get (inoSize.put ino (offset + count)) = offset + count :=
      Field.get_put_self _ _ (by decide) (by simpa [inoSize] using hend)
    rw [hput]
    omega
  · omega

lemma slot_writtenInode {i : ℕ} (hi : i < 12) (ino : Inode) (offset count : ℕ) :
    slot (writtenInode ino offset count) i = slot ino i := by
  apply get_writtenInode
  · simp only [Field.Apart, inoDirect, inoSize]
    omega
  · simp only [Field.Apart, inoDirect, inoModificationTime]
    omega
  · simp only [Field.Apart, inoDirect, inoChecksum]
    omega

/-- What a write that succeeded did. -/
structure Written (fs fs' : Fs) (n offset : ℕ) (data : List UInt8) (fresh : Option (ℕ × ℕ)) :
    Prop where
  vol_eq : fs'.vol = fs.vol
  fresh_ok : ∀ i b, fresh = some (i, b) → i < 12 ∧ Covered offset data.length i ∧
    slot (fs.vol.inodeAt fs.disk n) i = 0 ∧ firstFree fs.vol fs.disk = some b
  inodes : ∀ m < inodeCountMax, fs'.vol.inodeAt fs'.disk m =
    if m = n then writtenInode (grow fresh (fs.vol.inodeAt fs.disk n)) offset data.length
    else fs.vol.inodeAt fs.disk m
  nonzero : ∀ j < 12, Covered offset data.length j →
    slot (grow fresh (fs.vol.inodeAt fs.disk n)) j ≠ 0
  bytes : ∀ j < 12, Covered offset data.length j → ∀ k < 4096,
    byte (fs'.disk (slot (grow fresh (fs.vol.inodeAt fs.disk n)) j)) k =
      if offset ≤ 4096 * j + k ∧ 4096 * j + k < offset + data.length then
        data.getD (4096 * j + k - offset) 0
      else byte (fs.disk (slot (grow fresh (fs.vol.inodeAt fs.disk n)) j)) k
  frame : ∀ lba, fs.vol.dataStart ≤ lba →
    (∀ j < 12, Covered offset data.length j →
      slot (grow fresh (fs.vol.inodeAt fs.disk n)) j ≠ lba) → fs'.disk lba = fs.disk lba

variable {fresh : Option (ℕ × ℕ)}

lemma Written.of_idle (h : Written fs₁ fs' n offset data fresh) (hidle : Idle fs fs₁)
    : Written fs fs' n offset data fresh := by
  obtain ⟨hvol, hfresh, hinodes, hnonzero, hbytes, hframe⟩ := h
  rw [hidle.vol_eq, hidle.disk_eq] at hfresh hinodes hnonzero hbytes hframe
  exact ⟨hvol.trans hidle.vol_eq, hfresh, hinodes, hnonzero, hbytes, hframe⟩

lemma fits_written {count : ℕ} (h : Tidy v I (used d)) (hn : n < inodeCountMax)
    (hmagic : inoMagic.get (I n) = inodeMagic)
    (hU : ∀ b, used d b = true → U' b = true)
    (hfresh : ∀ i b, fresh = some (i, b) → i < 12 ∧ slot (I n) i = 0 ∧
      firstFree v d = some b ∧ U' b = true) :
    Fits v I U' n (writtenInode (grow fresh (I n)) offset count) := by
  have hold := h.slotsOk hn
  have hi : ∀ i b, fresh = some (i, b) → i < 12 := fun i b hib => (hfresh i b hib).1
  have hnew : ∀ i b, fresh = some (i, b) → v.dataStart < b ∧ b < v.totalBlocks ∧
      ∀ m < inodeCountMax, ∀ j < 12, slot (I m) j ≠ b := by
    intro i b hib
    obtain ⟨hge, hlt, hfree⟩ := mem_firstFree (hfresh i b hib).2.2.1
    obtain ⟨hgt, hapart⟩ := h.fresh hge hfree
    exact ⟨hgt, hlt, hapart⟩
  have hgrown : SlotsOk v (grow fresh (I n)) := by
    apply slotsOk_grow hold
    intro i b hib
    obtain ⟨hgt, hlt, hapart⟩ := hnew i b hib
    exact ⟨hi i b hib, hgt.le, hlt, hapart n hn⟩
  have hslot : ∀ i < 12, slot (grow fresh (I n)) i = slot (I n) i ∨
      ∃ b, fresh = some (i, b) ∧ slot (grow fresh (I n)) i = b := fun i hi' =>
    slot_grow_cases hi'
      (fun i b hib => ⟨hi i b hib, (hnew i b hib).2.1.trans v.total_lt_word⟩) (I n)
  refine ⟨?_, ?_, ?_, ?_, ?_, inodeCrcOk_sealInode _⟩
  · intro i hi' hnz
    rw [slot_writtenInode hi'] at hnz ⊢
    rcases hslot i hi' with heq | ⟨b, hib, heq⟩
    · rw [heq] at hnz ⊢
      obtain ⟨hgt, hlt, hused⟩ := h.slots n hn i hi' hnz
      exact ⟨hgt, hlt, hU _ hused⟩
    · rw [heq]
      exact ⟨(hnew i b hib).1, (hnew i b hib).2.1, (hfresh i b hib).2.2.2⟩
  · intro i hi' j hj hnz heq
    rw [slot_writtenInode hi'] at hnz heq
    rw [slot_writtenInode hj] at heq
    exact hgrown.inj i hi' j hj hnz heq
  · intro i hi' hnz m hm hmn j hj heq
    rw [slot_writtenInode hi'] at hnz heq
    rcases hslot i hi' with hsame | ⟨b, hib, hsame⟩
    · rw [hsame] at hnz heq
      exact hmn (h.inj n hn i hi' m hm j hj hnz heq.symm).1.symm
    · rw [hsame] at heq
      exact (hnew i b hib).2.2 m hm j hj heq
  · have hpages := h.pages n hn
    refine ⟨?_, ?_, ?_⟩
    · rw [get_writtenInode (by decide) (by decide) (by decide), get_grow (by decide) fresh hi]
      exact hpages.1
    · rw [get_writtenInode (by decide) (by decide) (by decide), get_grow (by decide) fresh hi]
      exact hpages.2.1
    · rw [get_writtenInode (by decide) (by decide) (by decide), get_grow (by decide) fresh hi]
      exact hpages.2.2
  · intro htype
    rw [get_writtenInode (by decide) (by decide) (by decide), get_grow (by decide) fresh hi] at htype
    have hzero := h.dirs n hn hmagic htype
    rw [slot_writtenInode (by decide)]
    rcases hslot 0 (by decide) with heq | ⟨b, hib, -⟩
    · rw [heq]
      exact hzero
    · exact absurd (hfresh 0 b hib).2.1 hzero

lemma off_table {pos : ℕ} {a a' : Alloc} (h : Wrote v d pos data a a' fresh)
    (hempty : targets a.txn = []) (hslots : SlotsOk v a'.ino) :
    ∀ x ∈ targets a'.txn, x < v.inodeTableStart ∨ v.dataStart ≤ x := by
  intro x hx
  rcases h.targets x hx with hx | ⟨j, hj, hcov, rfl⟩ | ⟨i, b, hib, rfl⟩
  · rw [hempty] at hx
    cases hx
  · exact .inr (hslots.range j hj (h.nonzero j hj hcov)).1
  · exact .inl (v.bitmapLba_lt (mem_firstFree (h.fresh_ok i b hib).2.2.2).2.1)

lemma inodeLba_not_mem (hn : n < inodeCountMax) {xs : List ℕ}
    (h : ∀ x ∈ xs, x < v.inodeTableStart ∨ v.dataStart ≤ x) : v.inodeLba n ∉ xs := by
  intro hmem
  have hge := v.inodeLba_ge n
  have hlt := v.inodeLba_lt hn
  have hreg := v.regions
  have hx := h _ hmem
  omega

lemma used_markFresh (h : ∀ lba < v.inodeTableStart, D lba = markFresh d fresh d lba)
    (hb : b < v.totalBlocks) :
    used D b = (fresh.any (fun p => p.2 = b) || used d b) := by
  rw [used_congr (h _ (v.bitmapLba_lt hb))]
  cases fresh with
  | none => rfl
  | some p =>
    obtain ⟨i, b₀⟩ := p
    simp only [markFresh, used_update, Option.any_some]
    by_cases heq : b = b₀
    · simp [heq]
    · simp [heq, Ne.symm heq]

lemma written_staged (h : Inv fs) (hn : n < inodeCountMax)
    (hmagic : inoMagic.get (fs.vol.inodeAt fs.disk n) = inodeMagic)
    {a a' : Alloc} {t : Txn}
    (hwrote : Wrote fs.vol fs.disk offset data a a' fresh)
    (hino : a.ino = fs.vol.inodeAt fs.disk n) (hempty : a.txn.refs = [])
    (hstage : journalStageInode fs.vol fs.disk a'.txn n
      (writtenInode a'.ino offset data.length) = .ok t) (hD : D = staged fs.disk t)
    (hsettled : Settled fs fs' D)
    (hcache : fs'.cache = fs.cache.map fun e =>
      if e.inodeNum = n then { e with disk := writtenInode a'.ino offset data.length } else e) :
    Written fs fs' n offset data fresh ∧ Inv fs' := by
  have hreg := fs.vol.regions
  have hbegin : staged fs.disk a.txn = fs.disk := by simp [staged, homeWrites, hempty]
  have htargets : targets a.txn = [] := by simp [targets, hempty]
  have hgrow : a'.ino = grow fresh (fs.vol.inodeAt fs.disk n) := by rw [hwrote.ino_eq, hino]
  have hfree : ∀ i b, fresh = some (i, b) → slot (fs.vol.inodeAt fs.disk n) i = 0 ∧
      firstFree fs.vol fs.disk = some b ∧ b < fs.vol.totalBlocks := by
    intro i b hib
    obtain ⟨-, -, hzero, hfree⟩ := hwrote.fresh_ok i b hib
    exact ⟨hino ▸ hzero, hfree, (mem_firstFree hfree).2.1⟩
  have hslots : SlotsOk fs.vol a'.ino := by
    apply hwrote.slotsOk
    · rw [hino]
      exact h.tidy.slotsOk hn
    · intro i _ _ _ b hb j hj
      obtain ⟨hge, -, hunused⟩ := mem_firstFree hb
      rw [hino]
      exact (h.tidy.fresh hge hunused).2 n hn j hj
  have hoff := inodeLba_not_mem hn (off_table hwrote htargets hslots)
  have hstaged := staged_journalStageInode hstage hn
    ((List.count_eq_zero.mpr hoff).le.trans zero_le_one)
  have htable : ∀ m < inodeCountMax, fs.vol.inodeAt (staged fs.disk a'.txn) m =
      fs.vol.inodeAt fs.disk m := fun m hm =>
    inodeAt_congr (staged_of_not_mem (inodeLba_not_mem hm (off_table hwrote htargets hslots)))
  have hinodes : ∀ m < inodeCountMax, fs.vol.inodeAt D m =
      if m = n then writtenInode a'.ino offset data.length else fs.vol.inodeAt fs.disk m := by
    intro m hm
    rw [hD, hstaged, inodeAt_update _ _ hn hm, htable m hm]
  have hbits : ∀ b < fs.vol.totalBlocks, used D b =
      (fresh.any (fun p => p.2 = b) || used fs.disk b) := by
    intro b hb
    apply used_markFresh _ hb
    intro lba hlba
    have hge := fs.vol.inodeLba_ge n
    rw [hD, hstaged, update_of_ne (by omega), hwrote.bitmap lba hlba, hbegin]
  have hdata : ∀ lba, fs.vol.dataStart ≤ lba → fs'.disk lba = staged fs.disk a'.txn lba := by
    intro lba hlba
    have hlt := fs.vol.inodeLba_lt hn
    rw [hsettled.disk_eq lba (fs.vol.home_data hlba), hD, hstaged, update_of_ne (by omega)]
  have hmono : ∀ b, used fs.disk b = true →
      (fresh.any (fun p => p.2 = b) || used fs.disk b) = true := by
    intro b hb
    rw [hb, Bool.or_true]
  have hfits : Fits fs.vol (fs.vol.inodeAt fs.disk)
      (fun b => fresh.any (fun p => p.2 = b) || used fs.disk b) n
      (writtenInode (grow fresh (fs.vol.inodeAt fs.disk n)) offset data.length) := by
    apply fits_written h.tidy hn hmagic hmono
    intro i b hib
    refine ⟨(hwrote.fresh_ok i b hib).1, (hfree i b hib).1, (hfree i b hib).2.1, ?_⟩
    simp [hib]
  refine ⟨?_, hsettled.inv h.segments h.active ?_ ?_⟩
  · refine
      { vol_eq := hsettled.vol_eq
        fresh_ok := ?_
        inodes := ?_
        nonzero := ?_
        bytes := ?_
        frame := ?_ }
    · intro i b hib
      obtain ⟨hi, hcov, -, -⟩ := hwrote.fresh_ok i b hib
      exact ⟨hi, hcov, (hfree i b hib).1, (hfree i b hib).2.1⟩
    · intro m hm
      rw [hsettled.inodeAt hm, hinodes m hm, hgrow]
    · intro j hj hcov
      rw [← hgrow]
      exact hwrote.nonzero j hj hcov
    · intro j hj hcov k hk
      have hnz := hwrote.nonzero j hj hcov
      rw [← hgrow, hdata _ (hslots.range j hj hnz).1]
      exact hwrote.bytes j hj hcov k hk
    · intro lba hlba hne
      rw [hdata lba hlba, hwrote.frame lba (by omega), hbegin]
      intro j hj hcov
      rw [hgrow]
      exact hne j hj hcov
  · refine (h.tidy.replace hmono hfits).congr (fun m hm => ?_) hbits
    rw [hinodes m hm, hgrow, update_apply]
  · rw [hcache]
    have hinomagic : inoMagic.get (writtenInode a'.ino offset data.length) = inodeMagic := by
      rw [get_writtenInode (by decide) (by decide) (by decide), hgrow,
        get_grow (by decide) fresh fun i b hib => (hwrote.fresh_ok i b hib).1]
      exact hmagic
    refine coherent_publish h.coherent hinomagic (fun m hm hmn _ => ?_) ?_
    · rw [hinodes m hm, if_neg hmn]
    · rw [hinodes n hn, if_pos rfl]

/-- A write in the direct blocks with at most one block to allocate does all it should, or
fails and does nothing. -/
theorem write_spec (h : Inv fs) (hn : n < inodeCountMax) (hend : offset + data.length ≤ 4096 * 12)
    (hfree : AtMostOneFree (fs.vol.inodeAt fs.disk n) offset data.length) :
    (Idle fs (grahafsV2Write fs n offset data).2 ∧
      ((grahafsV2Write fs n offset data).1 = data.length → data = [])) ∨
    ((grahafsV2Write fs n offset data).1 = data.length ∧ data ≠ [] ∧
      ∃ fresh, Written fs (grahafsV2Write fs n offset data).2 n offset data fresh ∧
        Inv (grahafsV2Write fs n offset data).2) := by
  unfold grahafsV2Write
  by_cases hdata : data = []
  · rw [if_pos hdata]
    exact .inl ⟨Idle.refl _, fun _ => hdata⟩
  rw [if_neg hdata]
  have hlen : 0 < data.length := List.length_pos_iff.mpr hdata
  cases hget : inodeCacheGet fs n with
  | none => exact .inl ⟨Idle.refl _, fun hrc => by simp only at hrc; omega⟩
  | some r =>
  obtain ⟨ino, fs₁⟩ := r
  obtain ⟨rfl, hmagic, hidle⟩ := inodeCacheGet_some h hn hget
  dsimp only
  split_ifs with htype
  · exact .inl ⟨hidle, fun hrc => by simp only at hrc; omega⟩
  have hbegun := hidle.trans (idle_begin fs₁)
  have hpos := @position_eq offset (by omega)
  cases hloop : writeLoop data.length (offset / blockSize % 2 ^ 32) (offset % blockSize) 0 data
      ⟨fs₁.txnBegin.2, fs.vol.inodeAt fs.disk n, fs₁.txnBegin.1⟩ with
  | error e =>
    obtain ⟨rc, fs₂⟩ := e
    obtain ⟨hcounts, hrc⟩ := writeLoop_error _ hloop
    exact .inl ⟨hbegun.trans (idle_counts hcounts), fun heq => by simp only at heq; omega⟩
  | ok a =>
    obtain ⟨fresh, hwrote⟩ := @writeLoop_ok fs₁.txnBegin.2.vol fs₁.txnBegin.2.disk data.length
      (offset / blockSize % 2 ^ 32) (offset % blockSize) 0 data _ a le_rfl
      (Nat.mod_lt _ (by decide)) (by omega) rfl rfl
      (by rw [hbegun.vol_eq]; exact h.tidy.slotsOk hn) (by rw [hpos]; exact hfree)
      (by
        intro i _ _ _ b hb j hj
        rw [hbegun.vol_eq, hbegun.disk_eq] at hb
        obtain ⟨hge, -, hunused⟩ := mem_firstFree hb
        exact (h.tidy.fresh hge hunused).2 n hn j hj) hloop
    rw [hpos] at hwrote
    have hcounts := hbegun.trans (idle_counts hwrote.counts)
    dsimp only
    cases hstage : journalStageInode a.fs.vol a.fs.disk a.txn n
        (writtenInode a.ino offset data.length) with
    | error rc =>
      have hneg := journalStageInode_error hstage
      exact .inl ⟨hcounts, fun heq => by simp only at heq; omega⟩
    | ok t =>
      have hinv' := hcounts.inv h
      obtain ⟨hrc, hsettled, hcache⟩ := settled_commit hinv'.geo hinv'.head t
      dsimp only
      rw [if_neg (by rw [hrc]; simp)]
      right
      refine ⟨rfl, hdata, fresh, ?_⟩
      have hall := (hsettled.publish n (writtenInode a.ino offset data.length)).writeSuperblock
      have hsame : a.fs.vol.inodeAt a.fs.disk n = fs.vol.inodeAt fs.disk n := by
        rw [hcounts.vol_eq, hcounts.disk_eq]
      have hvol := hwrote.counts.vol_eq
      have hdisk := hwrote.counts.disk_eq
      dsimp only at hvol hdisk
      rw [← hvol, ← hdisk] at hwrote
      obtain ⟨hwritten, hdone⟩ := written_staged hinv' hn (hsame ▸ hmagic) hwrote hsame.symm rfl
        hstage rfl hall (congrArg _ hcache)
      exact ⟨hwritten.of_idle hcounts, hdone⟩

end GrahaOS.FsInvariant
