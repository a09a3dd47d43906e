import GrahaOS.FsCreate

/-!
# When calls succeed

With room in the inode cache, a free inode and a free entry a create succeeds, and with a free block
so does a write within the direct blocks. The bitmap is read from the disk, where the bit of a block
allocated in the same transaction is still clear, so that every hole a write covers gets one and the
same block.
-/

namespace GrahaOS.FsProgress

open ByteFields DiskFormat Journaling VolumeFormat GrahaFs FsStaging FsWrite
  FsInvariant FsCreate List

variable {v : Volume} {d : ℕ → Block} {fs : Fs} {n b parent : ℕ} {t : Txn} {a : Alloc}

lemma stage_succeeds (h : t.refs.length < journalBlockRefsMax) (lba : ℕ) (kind : UInt8)
    (payload : Block) :
    ∃ t', stage t lba kind payload = .ok t' ∧ t'.refs.length = t.refs.length + 1 := by
  cases hstage : stage t lba kind payload with
  | ok t' => exact ⟨t', rfl, by rw [stage_refs hstage, length_append]; rfl⟩
  | error rc =>
    unfold stage journalTxnAddBlock at hstage
    simp only [Bool.not_true, Bool.false_eq_true, if_false] at hstage
    rw [dif_neg (by omega)] at hstage
    cases hstage

lemma length_stageIgnored (t : Txn) (lba : ℕ) (kind : UInt8) (payload : Block) :
    (stageIgnored t lba kind payload).refs.length ≤ t.refs.length + 1 := by
  rcases stageIgnored_cases t lba kind payload with h | h
  · rw [stage_refs h, length_append]
    exact le_rfl
  · rw [h]
    exact Nat.le_succ _

lemma journalStageInode_succeeds (h : t.refs.length < journalBlockRefsMax) (v : Volume)
    (d : ℕ → Block) (n : ℕ) (ino : Inode) :
    ∃ t', journalStageInode v d t n ino = .ok t' ∧ t'.refs.length ≤ t.refs.length + 1 := by
  unfold journalStageInode
  split
  · next refs hrefs => exact ⟨_, rfl, (length_overlayFirst hrefs).le.trans (Nat.le_succ _)⟩
  · obtain ⟨t', hstage, hlen⟩ := stage_succeeds h (v.inodeLba n) kindMetadata
      (splice (d (v.inodeLba n)) (Volume.inodeOff n) ino)
    exact ⟨t', hstage, hlen.le⟩

lemma bitmapAllocateBlock_succeeds (hfree : firstFree fs.vol fs.disk = some b)
    (h : t.refs.length < journalBlockRefsMax) :
    ∃ fs' t', bitmapAllocateBlock fs t = some (b, fs', t') ∧
      t'.refs.length = t.refs.length + 1 := by
  obtain ⟨t', hstage, hlen⟩ := stage_succeeds h (Volume.bitmapLba b) kindMetadata
    (bitmapMark (fs.disk (Volume.bitmapLba b)) (b % bitsPerBlock))
  unfold bitmapAllocateBlock
  rw [hfree]
  simp only [hstage]
  exact ⟨_, t', rfl, hlen⟩

lemma inodeCacheGet_succeeds (hcoherent : Coherent fs.vol fs.disk fs.cache)
    (hmagic : inoMagic.get (fs.vol.inodeAt fs.disk n) = inodeMagic)
    (hcrc : inodeCrcOk (fs.vol.inodeAt fs.disk n) = true)
    (hroom : fs.cache.length < inodeCacheSlots ∨ ∃ e ∈ fs.cache, e.inodeNum = n) :
    ∃ fs', inodeCacheGet fs n = some (fs.vol.inodeAt fs.disk n, fs') ∧ fs'.disk = fs.disk ∧
      fs'.cache.length ≤ fs.cache.length + 1 := by
  unfold inodeCacheGet
  cases hfind : fs.cache.find? fun e => e.inodeNum = n with
  | some e =>
    have hnum : e.inodeNum = n := by simpa using List.find?_some hfind
    obtain ⟨-, hdisk, -⟩ := hcoherent e (mem_of_find?_eq_some hfind)
    rw [hnum] at hdisk
    exact ⟨fs, by rw [hdisk], rfl, Nat.le_succ _⟩
  | none =>
    have hlen : ¬inodeCacheSlots ≤ fs.cache.length := by
      rcases hroom with hlt | ⟨e, he, hnum⟩
      · exact Nat.not_le.mpr hlt
      · exact absurd hnum (by simpa using List.find?_eq_none.mp hfind e he)
    rw [if_neg (not_not.mpr hmagic), if_neg (by simp [hcrc]), if_neg hlen]
    exact ⟨_, rfl, rfl, by simp⟩

lemma createBlock_succeeds (fs : Fs) (t : Txn) {type : NodeType}
    (hblock : type = .directory → firstFree fs.vol fs.disk ≠ none) (hempty : t.refs = [])
    (self parent : ℕ) :
    ∃ b fs' t', createBlock fs t type self parent = .ok (b, fs', t') ∧ t'.refs.length ≤ 2 := by
  unfold createBlock
  cases type with
  | file => exact ⟨0, fs, t, rfl, by simp [hempty]⟩
  | directory =>
  obtain ⟨b, hfree⟩ := Option.ne_none_iff_exists'.mp (hblock rfl)
  obtain ⟨fs', t₁, halloc, hlen₁⟩ :=
    bitmapAllocateBlock_succeeds hfree (t := t) (by simp [hempty, journalBlockRefsMax])
  rw [hempty, length_nil] at hlen₁
  obtain ⟨t₂, hstage, hlen₂⟩ := stage_succeeds (t := t₁) (by simp [hlen₁, journalBlockRefsMax]) b
    kindMetadata (freshDirBlock self parent)
  simp only [halloc, hstage]
  exact ⟨b, fs', t₂, rfl, by omega⟩

lemma dirAddEntry_succeeds (h : Inv fs) (hparent : parent < inodeCountMax)
    (hmagic : inoMagic.get (fs.vol.inodeAt fs.disk parent) = inodeMagic)
    (htype : inoType.get (fs.vol.inodeAt fs.disk parent) = typeDirectory)
    (hroom : fs.cache.length < inodeCacheSlots)
    (hentry : freeDirent (fs.disk (slot (fs.vol.inodeAt fs.disk parent) 0)) ≠ none)
    (hlen : t.refs.length ≤ 3) (name : List UInt8) (child : ℕ) :
    ∃ fs' t', dirAddEntry fs parent name child t = .ok (fs', t') ∧
      fs'.cache.length ≤ fs.cache.length + 1 := by
  obtain ⟨fs₁, hget, -, hcache⟩ := inodeCacheGet_succeeds h.coherent hmagic
    (h.tidy.crc parent hparent hmagic) (.inl hroom)
  have hidle := (inodeCacheGet_some h hparent hget).2.2
  obtain ⟨k, hk⟩ := Option.ne_none_iff_exists'.mp hentry
  have hnz := h.tidy.dirs parent hparent hmagic htype
  generalize fs.vol.inodeAt fs.disk parent = dir at *
  have hroot : rootAlloc ⟨fs₁, dir, t⟩ (inoDirect 0) kindMetadata =
      .ok (slot dir 0, ⟨fs₁, dir, t⟩) := if_neg hnz
  obtain ⟨t₁, hstage, hlen₁⟩ := stage_succeeds (t := t) (by simp only [journalBlockRefsMax]; omega)
    (slot dir 0) kindMetadata (putDirent (fs.disk (slot dir 0)) k child name)
  obtain ⟨t₂, hinode, -⟩ := journalStageInode_succeeds (t := t₁)
    (by simp only [journalBlockRefsMax]; omega) fs₁.vol fs.disk parent
    (sealInode (inoSize.put dir ((k + 1) * 32)))
  unfold dirAddEntry
  rw [hget]
  dsimp only
  rw [if_neg (not_not.mpr htype), hroot]
  dsimp only
  rw [hidle.disk_eq, hk]
  dsimp only
  rw [hstage]
  dsimp only
  rw [hinode]
  exact ⟨_, t₂, rfl, by simpa [Fs.publish] using hcache⟩

theorem create_succeeds (name : List UInt8) (type : NodeType) (h : Inv fs)
    (hparent : parent < inodeCountMax)
    (hmagic : inoMagic.get (fs.vol.inodeAt fs.disk parent) = inodeMagic)
    (htype : inoType.get (fs.vol.inodeAt fs.disk parent) = typeDirectory)
    (hname : name ≠ [] ∧ name.length < 28) (hfree : firstFreeInode fs.vol fs.disk = some n)
    (hblock : type = .directory → firstFree fs.vol fs.disk ≠ none)
    (hroom : fs.cache.length < inodeCacheSlots)
    (hentry : freeDirent (fs.disk (slot (fs.vol.inodeAt fs.disk parent) 0)) ≠ none) :
    (grahafsV2Create fs parent name type).1 = 0 ∧
      (grahafsV2Create fs parent name type).2.cache.length ≤ fs.cache.length + 1 := by
  have hbegun := (idle_freeInodes fs (fs.freeInodes - 1)).trans
    (idle_begin { fs with freeInodes := fs.freeInodes - 1 })
  obtain ⟨b, fs₁, t₁, hcreate, hlen₁⟩ :=
    createBlock_succeeds ({ fs with freeInodes := fs.freeInodes - 1 } : Fs).txnBegin.2
      ({ fs with freeInodes := fs.freeInodes - 1 } : Fs).txnBegin.1 hblock rfl n parent
  have hcounts := (createBlock_spec hcreate).1
  have hidle := hbegun.trans (idle_counts hcounts)
  have hcache₁ : fs₁.cache = fs.cache := by
    obtain ⟨k, hk⟩ := hcounts
    rw [hk]
    rfl
  obtain ⟨t₂, hnew, hlen₂⟩ := journalStageInode_succeeds (t := t₁)
    (by simp only [journalBlockRefsMax]; omega) fs₁.vol fs₁.disk n (freshInode type b)
  rw [← hidle.vol_eq, ← hidle.disk_eq] at hmagic htype hentry
  rw [← hcache₁] at hroom
  obtain ⟨fs₂, t₃, hadd, hcache₂⟩ := dirAddEntry_succeeds (hidle.inv h) hparent hmagic htype hroom
    hentry (show t₂.refs.length ≤ 3 by omega) name n
  have hspec := dirAddEntry_spec (hidle.inv h) hparent name n t₂
  rw [hadd] at hspec
  obtain ⟨dir, fs₃, k, -, -, -, -, -, hidle', rfl, -, -⟩ := hspec
  have hinv := hidle'.inv (hidle.inv h)
  obtain ⟨hrc, -, hcache₃⟩ := @settled_commit (fs₃.publish parent (enteredInode dir k))
    hinv.geo hinv.head t₃
  have hnamed : ¬(name = [] ∨ 28 ≤ name.length) := by
    rintro (hnil | hlong)
    · exact hname.1 hnil
    · omega
  unfold grahafsV2Create
  rw [if_neg hnamed, hfree]
  dsimp only
  rw [hcreate]
  dsimp only
  rw [hnew]
  dsimp only
  rw [hadd]
  dsimp only
  rw [if_neg (by rw [hrc]; simp)]
  refine ⟨rfl, ?_⟩
  rw [hcache₁] at hcache₂
  simp only [Fs.writeSuperblock, Fs.blockWrite, hcache₃]
  exact hcache₂

lemma blockIndexToLbaAlloc_succeeds {i : ℕ} (hi : i < 12)
    (hfree : firstFree a.fs.vol a.fs.disk = some b)
    (hlen : a.txn.refs.length < journalBlockRefsMax) :
    ∃ lba a₁, blockIndexToLbaAlloc a i = .ok (lba, a₁) ∧ CountsOnly a.fs a₁.fs ∧
      (∀ j < 12, slot a₁.ino j = if j = i ∧ slot a.ino j = 0 then b else slot a.ino j) ∧
      (∀ f, OffBlocks f → f.get a₁.ino = f.get a.ino) ∧ lba = slot a₁.ino i ∧
      (∀ x ∈ targets a₁.txn, x ∈ targets a.txn ∨ x = Volume.bitmapLba b ∨ x = b) ∧
      a₁.txn.refs.length ≤ a.txn.refs.length + 2 := by
  have hword := (mem_firstFree hfree).2.1.trans a.fs.vol.total_lt_word
  have hbitmap := a.fs.vol.bitmapLba_lt (mem_firstFree hfree).2.1
  have hroom := a.fs.vol.dataStart_room
  have htotal := a.fs.vol.total_lt_word
  have hreg := a.fs.vol.regions
  have hdirect : blockIndexToLbaAlloc a i = rootAlloc a (inoDirect i) kindData := if_pos hi
  rw [hdirect]
  by_cases hzero : slot a.ino i = 0
  · obtain ⟨fs', t₁, halloc, hlen₁⟩ := bitmapAllocateBlock_succeeds hfree hlen
    obtain ⟨-, hcounts, hmark⟩ := bitmapAllocateBlock_some halloc
    have hroot : rootAlloc a (inoDirect i) kindData = .ok (b, ⟨fs',
        countBlock ((inoDirect i).put a.ino b), stageIgnored t₁ b kindData (zeros blockSize)⟩) := by
      unfold rootAlloc allocateZeroed
      rw [halloc]
      exact if_pos hzero
    have hslot : ∀ j < 12, slot (countBlock ((inoDirect i).put a.ino b)) j =
        if j = i then b else slot a.ino j := fun j hj => slot_grow_some hi hj hword a.ino
    refine ⟨b, _, hroot, hcounts, ?_, ?_, ?_, ?_, ?_⟩
    · intro j hj
      rw [hslot j hj]
      by_cases hji : j = i
      · rw [if_pos hji, if_pos ⟨hji, hji ▸ hzero⟩]
      · rw [if_neg hji, if_neg fun hand => hji hand.1]
    · intro f hf
      refine get_grow hf (some (i, b)) ?_ a.ino
      intro i' b' heq
      cases heq
      exact hi
    · rw [hslot i hi, if_pos rfl]
    · intro x hx
      rcases mem_targets_stageIgnored (by omega) hx with hx | hx
      · rw [targets_stage hmark (by omega), mem_append, mem_singleton] at hx
        rcases hx with hx | hx
        · exact .inl hx
        · exact .inr (.inl hx)
      · exact .inr (.inr hx)
    · have hle := length_stageIgnored t₁ b kindData (zeros blockSize)
      dsimp only
      omega
  · have hroot : rootAlloc a (inoDirect i) kindData = .ok (slot a.ino i, a) := if_neg hzero
    refine ⟨_, a, hroot, CountsOnly.refl _, ?_, fun _ _ => rfl, rfl, fun x hx => .inl hx,
      Nat.le_add_right _ _⟩
    intro j _
    rw [if_neg]
    rintro ⟨rfl, hj⟩
    exact hzero hj

/-- From `a` to `a'` the data was staged at `pos`: every hole in the range now has the block
`b`, and the last block of the range holds its part of the data. -/
structure Filled (v : Volume) (d : ℕ → Block) (pos : ℕ) (data : List UInt8) (b : ℕ)
    (a a' : Alloc) : Prop where
  counts : CountsOnly a.fs a'.fs
  slots : ∀ j < 12, slot a'.ino j =
    if Covered pos data.length j ∧ slot a.ino j = 0 then b else slot a.ino j
  fields : ∀ f, OffBlocks f → f.get a'.ino = f.get a.ino
  targets : ∀ x ∈ targets a'.txn, x ∈ targets a.txn ∨ x < v.inodeTableStart ∨ v.dataStart ≤ x
  length : a'.txn.refs.length < journalBlockRefsMax
  last : ∀ j < 12, Covered pos data.length j → ¬Covered pos data.length (j + 1) → ∀ k < 4096,
    pos ≤ 4096 * j + k → 4096 * j + k < pos + data.length →
      byte (staged d a'.txn (slot a'.ino j)) k = data.getD (4096 * j + k - pos) 0

lemma Filled.nil (v : Volume) (d : ℕ → Block) (pos b : ℕ)
    (hlen : a.txn.refs.length < journalBlockRefsMax) : Filled v d pos [] b a a where
  counts := CountsOnly.refl _
  slots := by simp [Covered]
  fields := fun _ _ => rfl
  targets := fun _ hx => .inl hx
  length := hlen
  last := by simp [Covered]

lemma writeLoop_nil (fuel blockIndex off written : ℕ) (a : Alloc) :
    writeLoop fuel blockIndex off written [] a = .ok a := by
  cases fuel with
  | zero => rfl
  | succ fuel => rw [writeLoop, if_pos rfl]

theorem writeLoop_fills : ∀ (fuel : ℕ) {blockIndex off written : ℕ} {data : List UInt8} {a : Alloc},
    data.length ≤ fuel → off < 4096 → 4096 * blockIndex + off + data.length ≤ 4096 * 12 →
    a.fs.vol = v → a.fs.disk = d → firstFree v d = some b →
    (∀ j < 12, slot a.ino j ≠ 0 → v.dataStart ≤ slot a.ino j) →
    a.txn.refs.length + 3 * (12 - blockIndex) < journalBlockRefsMax →
    ∃ a', writeLoop fuel blockIndex off written data a = .ok a' ∧
      Filled v d (4096 * blockIndex + off) data b a a' := by
  intro fuel
  induction fuel with
  | zero =>
    intro blockIndex off written data a hfuel _ _ _ _ _ _ hlen
    obtain rfl := length_eq_zero_iff.mp (Nat.le_zero.mp hfuel)
    exact ⟨a, rfl, Filled.nil v d _ b (by omega)⟩
  | succ fuel ih =>
  intro blockIndex off written data a hfuel hoff hend hv hd hfree hslots hlen
  by_cases hdata : data = []
  · subst hdata
    exact ⟨a, writeLoop_nil _ _ _ _ _, Filled.nil v d _ b (by omega)⟩
  rw [writeLoop, if_neg hdata]
  have hpos : 0 < data.length := length_pos_iff.mpr hdata
  have hindex : blockIndex < 12 := by omega
  subst hv hd
  obtain ⟨lba, a₁, hblock, hcounts, hslot, hfields, hlba, htargets, hlen₁⟩ :=
    blockIndexToLbaAlloc_succeeds hindex hfree (show _ < _ by omega)
  obtain ⟨hge, hlt, -⟩ := mem_firstFree hfree
  have hreg := a.fs.vol.regions
  have hbitmap := a.fs.vol.bitmapLba_lt hlt
  have hbelow : ∀ j < 12, slot a₁.ino j ≠ 0 → a.fs.vol.dataStart ≤ slot a₁.ino j := by
    intro j hj hnz
    rw [hslot j hj] at hnz ⊢
    split_ifs at hnz ⊢
    · exact hge
    · exact hslots j hj hnz
  have hlba_ge : a.fs.vol.dataStart ≤ lba := by
    rw [hlba]
    apply hbelow _ hindex
    rw [hslot _ hindex]
    split_ifs with hhole
    · omega
    · exact fun hzero => hhole ⟨rfl, hzero⟩
  rw [hblock]
  generalize hchunk : min (blockSize - off) data.length = chunk
  simp only [blockSize] at hchunk
  dsimp only
  obtain ⟨t₂, hstage, hlen₂⟩ := stage_succeeds (t := a₁.txn) (by omega) lba kindData
    (chunkBlock a₁.fs.disk lba off (data.take chunk))
  rw [hstage]
  have hword : lba < 2 ^ 64 := hlba ▸ slot_lt _ _
  have hmod : (blockIndex + 1) % 2 ^ 32 = blockIndex + 1 := Nat.mod_eq_of_lt (by omega)
  have htake : (data.take chunk).length = chunk := by
    rw [length_take]
    omega
  have hdrop : (data.drop chunk).length = data.length - chunk := length_drop
  have hsplit : ∀ j, Covered (4096 * blockIndex + off) data.length j ↔
      j = blockIndex ∨ Covered (4096 * (blockIndex + 1) + 0) (data.drop chunk).length j := by
    intro j
    simp only [Covered, hdrop]
    omega
  rw [hmod]
  obtain ⟨a₂, hloop, hrest⟩ := @ih (blockIndex + 1) 0 (written + chunk) (data.drop chunk)
    { a₁ with txn := t₂ } (by omega) (by decide) (by omega) hcounts.vol_eq hcounts.disk_eq hfree
    hbelow (by dsimp only; omega)
  refine ⟨a₂, hloop, ?_⟩
  refine
    { counts := hcounts.trans hrest.counts
      slots := ?_
      fields := fun f hf => (hrest.fields f hf).trans (hfields f hf)
      targets := ?_
      length := hrest.length
      last := ?_ }
  · -- The pass covers its own block, the rest the blocks behind it.
    intro j hj
    rw [hrest.slots j hj, hslot j hj]
    simp only [hsplit]
    by_cases hzero : slot a.ino j = 0
    · by_cases hj0 : j = blockIndex
      · have hbnz : b ≠ 0 := by omega
        simp [hj0, hj0 ▸ hzero, hbnz]
      · simp [hj0, hzero]
    · simp [hzero]
  · intro x hx
    rcases hrest.targets x hx with hx | hx
    · dsimp only at hx
      rw [targets_stage hstage hword, mem_append, mem_singleton] at hx
      rcases hx with hx | rfl
      · rcases htargets x hx with hx | rfl | rfl
        · exact .inl hx
        · exact .inr (.inl hbitmap)
        · exact .inr (.inr hge)
      · exact .inr (.inr hlba_ge)
    · exact .inr hx
  · intro j hj hcov hnext k hk hin hout
    by_cases hdone : data.drop chunk = []
    · -- This pass is the last one.
      rw [hdone, writeLoop_nil] at hloop
      cases hloop
      have hlen_eq : chunk = data.length := by
        rw [hdone] at hdrop
        simp only [length_nil] at hdrop
        omega
      have hj0 : j = blockIndex := by
        simp only [Covered] at hcov
        omega
      subst hj0
      rw [staged_stage hstage hword, ← hlba, Function.update_self, byte_chunkBlock _ _ _ _ hk,
        if_pos (by omega), hlen_eq, take_length]
      congr 1
      omega
    · have hrest_pos : 0 < (data.drop chunk).length := length_pos_iff.mpr hdone
      have hj : j ≠ blockIndex := by
        rintro rfl
        apply hnext
        simp only [Covered]
        omega
      have hcov' : Covered (4096 * (blockIndex + 1) + 0) (data.drop chunk).length j := by
        rcases (hsplit j).mp hcov with heq | hcov'
        · exact absurd heq hj
        · exact hcov'
      have hlast := hrest.last j (by omega) hcov'
        (fun hc => hnext ((hsplit (j + 1)).mpr (.inr hc))) k hk
        (by simp only [Covered] at hcov'; omega) (by omega)
      have hshift : chunk + (4096 * j + k - (4096 * (blockIndex + 1) + 0)) =
          4096 * j + k - (4096 * blockIndex + off) := by
        simp only [Covered] at hcov'
        omega
      rw [hlast, getD_eq_getElem?_getD, getD_eq_getElem?_getD, getElem?_drop, hshift]

/-- What a write did that gave every hole it covers the same block. -/
structure FilledHoles (fs fs' : Fs) (n offset : ℕ) (data : List UInt8) (b : ℕ) : Prop where
  vol_eq : fs'.vol = fs.vol
  cache_le : fs'.cache.length ≤ fs.cache.length + 1
  coherent : Coherent fs'.vol fs'.disk fs'.cache
  slots : ∀ j < 12, slot (fs'.vol.inodeAt fs'.disk n) j =
    if Covered offset data.length j ∧ slot (fs.vol.inodeAt fs.disk n) j = 0 then b
    else slot (fs.vol.inodeAt fs.disk n) j
  magic : inoMagic.get (fs'.vol.inodeAt fs'.disk n) = inodeMagic
  type_eq : inoType.get (fs'.vol.inodeAt fs'.disk n) = typeFile
  size : inoSize.get (fs'.vol.inodeAt fs'.disk n) =
    max (inoSize.get (fs.vol.inodeAt fs.disk n)) (offset + data.length)
  crc : inodeCrcOk (fs'.vol.inodeAt fs'.disk n) = true
  last : ∀ j < 12, Covered offset data.length j → ¬Covered offset data.length (j + 1) →
    ∀ k < 4096, offset ≤ 4096 * j + k → 4096 * j + k < offset + data.length →
      byte (fs'.disk (slot (fs'.vol.inodeAt fs'.disk n) j)) k = data.getD (4096 * j + k - offset) 0

/-- A write within the direct blocks of a file succeeds, and gives every hole it covers the
first free block. -/
theorem write_fills (h : Inv fs) (hn : n < inodeCountMax) {offset : ℕ} {data : List UInt8}
    (hmagic : inoMagic.get (fs.vol.inodeAt fs.disk n) = inodeMagic)
    (htype : inoType.get (fs.vol.inodeAt fs.disk n) = typeFile)
    (hroom : fs.cache.length < inodeCacheSlots) (hfree : firstFree fs.vol fs.disk = some b)
    (hdata : data ≠ []) (hend : offset + data.length ≤ 4096 * 12) :
    (grahafsV2Write fs n offset data).1 = data.length ∧
      FilledHoles fs (grahafsV2Write fs n offset data).2 n offset data b := by
  obtain ⟨fs₁, hget, -, hcache⟩ := inodeCacheGet_succeeds h.coherent hmagic
    (h.tidy.crc n hn hmagic) (.inl hroom)
  have hbegun := (inodeCacheGet_some h hn hget).2.2.trans (idle_begin fs₁)
  have hslots := h.tidy.slotsOk hn
  have hpos := @position_eq offset (by omega)
  obtain ⟨a, hloop, hfilled⟩ := @writeLoop_fills fs.vol fs.disk b data.length
    (offset / blockSize % 2 ^ 32) (offset % blockSize) 0 data
    ⟨fs₁.txnBegin.2, fs.vol.inodeAt fs.disk n, fs₁.txnBegin.1⟩ le_rfl (Nat.mod_lt _ (by decide))
    (by omega) hbegun.vol_eq hbegun.disk_eq hfree (fun j hj hnz => (hslots.range j hj hnz).1)
    (by simp only [Fs.txnBegin, journalTxnBegin, length_nil, journalBlockRefsMax]; omega)
  rw [hpos] at hfilled
  have hcounts := hbegun.trans (idle_counts hfilled.counts)
  have hinv := hcounts.inv h
  have hcache' : a.fs.cache = fs₁.cache := by
    obtain ⟨k, hk⟩ := hfilled.counts
    rw [hk]
    rfl
  obtain ⟨t, hstage, -⟩ := journalStageInode_succeeds hfilled.length a.fs.vol a.fs.disk n
    (writtenInode a.ino offset data.length)
  obtain ⟨hrc, hsettled, hkept⟩ := settled_commit hinv.geo hinv.head t
  have hwrite : grahafsV2Write fs n offset data = ((data.length : ℤ),
      ((a.fs.txnCommit t).2.publish n (writtenInode a.ino offset data.length)).writeSuperblock) := by
    unfold grahafsV2Write
    rw [if_neg hdata, hget]
    dsimp only
    rw [if_neg (fun hand => hand.1 htype), hloop]
    dsimp only
    rw [hstage]
    dsimp only
    rw [if_neg (by rw [hrc]; simp)]
  have hoff : ∀ m < inodeCountMax, a.fs.vol.inodeLba m ∉ targets a.txn := by
    intro m hm
    apply inodeLba_not_mem hm
    intro x hx
    rcases hfilled.targets x hx with hx | hx
    · cases hx
    · rw [hcounts.vol_eq]
      exact hx
  have hstaged := staged_journalStageInode hstage hn
    ((count_eq_zero.mpr (hoff n hn)).le.trans zero_le_one)
  have hinodes : ∀ m < inodeCountMax, a.fs.vol.inodeAt (staged a.fs.disk t) m =
      if m = n then writtenInode a.ino offset data.length else a.fs.vol.inodeAt a.fs.disk m := by
    intro m hm
    rw [hstaged, inodeAt_update _ _ hn hm, inodeAt_congr (staged_of_not_mem (hoff m hm))]
  rw [hwrite]
  refine ⟨rfl, ?_⟩
  have hdone := (hsettled.publish n (writtenInode a.ino offset data.length)).writeSuperblock
  have hdisk := hcounts.disk_eq
  have hvol := hcounts.vol_eq
  have hmagic' : inoMagic.get (writtenInode a.ino offset data.length) = inodeMagic := by
    rw [get_writtenInode (by decide) (by decide) (by decide), hfilled.fields _ (by decide)]
    exact hmagic
  generalize hfinal : ((a.fs.txnCommit t).2.publish n
    (writtenInode a.ino offset data.length)).writeSuperblock = fs' at hdone ⊢
  have hcache_eq : fs'.cache = a.fs.cache.map fun e => if e.inodeNum = n then
      { e with disk := writtenInode a.ino offset data.length } else e := by
    rw [← hfinal, ← hkept]
    rfl
  have hinode : fs'.vol.inodeAt fs'.disk n = writtenInode a.ino offset data.length := by
    rw [hdone.inodeAt hn, hinodes n hn, if_pos rfl]
  have hslot : ∀ j < 12, slot (fs'.vol.inodeAt fs'.disk n) j = slot a.ino j := by
    intro j hj
    rw [hinode, slot_writtenInode hj]
  refine
    { vol_eq := hdone.vol_eq.trans hvol
      cache_le := by rw [hcache_eq, length_map, hcache']; exact hcache
      coherent := ?_
      slots := fun j hj => (hslot j hj).trans (hfilled.slots j hj)
      magic := by rw [hinode, hmagic']
      type_eq := ?_
      size := ?_
      crc := by rw [hinode]; exact inodeCrcOk_sealInode _
      last := ?_ }
  · apply hdone.coherent
    rw [hcache_eq]
    refine coherent_publish hinv.coherent hmagic' (fun m hm hmn _ => ?_) ?_
    · rw [hinodes m hm, if_neg hmn]
    · rw [hinodes n hn, if_pos rfl]
  · rw [hinode, get_writtenInode (by decide) (by decide) (by decide), hfilled.fields _ (by decide)]
    exact htype
  · rw [hinode, size_writtenInode (by omega), hfilled.fields _ (by decide)]
  · intro j hj hcov hnext k hk hin hout
    have hge : fs.vol.dataStart ≤ slot a.ino j := by
      rw [hfilled.slots j hj]
      split_ifs with hhole
      · exact (mem_firstFree hfree).1
      · exact (hslots.range j hj fun hzero => hhole ⟨hcov, hzero⟩).1
    have hreg := fs.vol.regions
    have hltN := fs.vol.inodeLba_lt hn
    rw [hslot j hj, hdone.disk_eq _ (by rw [hvol]; exact fs.vol.home_data hge), hstaged, hvol,
      Function.update_of_ne (by omega), hdisk]
    exact hfilled.last j hj hcov hnext k hk hin hout

/-- Segment 0 with its first version record, in the block behind the directories. -/
def recordedSegment (v : Volume) : Segment :=
  { formatSegment v with
    refcount := 1
    freeBytesInSegment := (segmentBlocks - 1 - 7) * blockSize - blockSize
    nextFreeBlockOffset := (1 + 7) * blockSize + blockSize }

lemma segmentAllocateForWrite_first (h : Inv fs) (fuel : ℕ) :
    segmentAllocateForWrite blockSize (fuel + 1) fs =
      .ok (0, recordedSegment fs.vol, updateSegment fs 0 (recordedSegment fs.vol)) := by
  rw [segmentAllocateForWrite, h.active]
  simp only [h.segments, formatSegments, getElem?_cons_zero]
  have hfits : blockSize ≤ (formatSegment fs.vol).freeBytesInSegment := by
    simp only [formatSegment, segmentBlocks, blockSize]
    decide
  rw [if_pos ⟨rfl, hfits⟩]
  rfl

/-- The record goes to the block behind the directories, whatever the bitmap says of it. -/
lemma emitVersionRecord_first (h : Inv fs) (hempty : t.refs = []) (env : Env)
    (fileSize simhash prevVersion clusterId : ℕ) :
    ∃ t', emitVersionRecord env fs fileSize simhash prevVersion clusterId t =
        .ok (0, fs.nextVersionId, { updateSegment fs 0 (recordedSegment fs.vol) with
          nextVersionId := fs.nextVersionId + 1 }, t') ∧
      targets t' = [fs.vol.dataStart + 8] ∧ t'.refs.length = 1 := by
  have hblock : (recordedSegment fs.vol).firstBlock +
      ((recordedSegment fs.vol).nextFreeBlockOffset / blockSize - 1) = fs.vol.dataStart + 8 := by
    simp [recordedSegment, formatSegment, blockSize]
  have hroom := fs.vol.dataStart_room
  have htotal := fs.vol.total_lt_word
  have hsegment := segmentAllocateForWrite_first h (2 * fs.segments.length + 1)
  obtain ⟨t', hstage, hlen⟩ := stage_succeeds (t := t) (by simp [hempty, journalBlockRefsMax])
    (fs.vol.dataStart + 8) kindMetadata (versionBlock ⟨fs.nextVersionId, env.timestampNs, fileSize,
      simhash, 0, clusterId, prevVersion⟩)
  refine ⟨t', ?_, ?_, by rw [hlen, hempty]; rfl⟩
  · unfold emitVersionRecord
    rw [hsegment]
    dsimp only
    rw [hblock]
    have hnext : (updateSegment fs 0 (recordedSegment fs.vol)).nextVersionId = fs.nextVersionId := rfl
    rw [hnext, hstage]
  · rw [targets_stage hstage (by omega), targets, hempty]
    rfl

lemma slot_versionedInode {i : ℕ} (hi : i < 12) (ino : Inode) (versionId segmentId simhash : ℕ) :
    slot (versionedInode ino versionId segmentId simhash) i = slot ino i := by
  unfold versionedInode
  rw [slot_sealInode hi, slot_put_of_outside (by decide) hi, slot_put_of_outside (by decide) hi,
    slot_put_of_outside (by decide) hi]
  split_ifs
  · rw [slot_put_of_outside (by decide) hi, slot_put_of_outside (by decide) hi,
      slot_put_of_outside (by decide) hi]
  · rw [slot_put_of_outside (by decide) hi, slot_put_of_outside (by decide) hi]

/-- The first close of a file that is not empty records a version in segment 0 and leaves
the blocks of the file as they are. -/
theorem close_records (h : Inv fs) (hn : n < inodeCountMax)
    (hmagic : inoMagic.get (fs.vol.inodeAt fs.disk n) = inodeMagic)
    (hemits : emitsVersion (fs.vol.inodeAt fs.disk n) = true)
    (hroom : fs.cache.length < inodeCacheSlots) (env : Env) :
    (grahafsV2Close env fs n).vol = fs.vol ∧
      (grahafsV2Close env fs n).segments[0]? = some (recordedSegment fs.vol) ∧
      ∀ i < 12, slot (fs.vol.inodeAt (grahafsV2Close env fs n).disk n) i =
        slot (fs.vol.inodeAt fs.disk n) i := by
  obtain ⟨fs₁, hget, -, -⟩ := inodeCacheGet_succeeds h.coherent hmagic
    (h.tidy.crc n hn hmagic) (.inl hroom)
  have hbegun := (inodeCacheGet_some h hn hget).2.2.trans (idle_begin fs₁)
  have hinv := hbegun.inv h
  have hreg := fs.vol.regions
  have hltN := fs.vol.inodeLba_lt hn
  generalize hino : fs.vol.inodeAt fs.disk n = ino at hget hemits ⊢
  generalize hsimhash : (if sampleFile fs₁.disk ino = [] then 0
    else env.simhashAuto (sampleFile fs₁.disk ino)) = simhash
  obtain ⟨t₁, hemit, htargets, hlen⟩ := emitVersionRecord_first hinv (t := fs₁.txnBegin.1) rfl env
    (inoSize.get ino) simhash (inoVersionChainHeadId.get ino) (inoClusterId.get ino)
  generalize hfs₂ : ({ updateSegment fs₁.txnBegin.2 0 (recordedSegment fs₁.txnBegin.2.vol) with
    nextVersionId := fs₁.txnBegin.2.nextVersionId + 1 } : Fs) = fs₂ at hemit
  have hvol : fs₂.vol = fs.vol := by
    rw [← hfs₂]
    exact hbegun.vol_eq
  have hgeo : fs₂.journal.geo = fs₂.vol.geometry := by
    rw [← hfs₂]
    exact hinv.geo
  have hhead : fs₂.journal.head = fs₂.journal.geo.base := by
    rw [← hfs₂]
    exact hinv.head
  have hsegment : fs₂.segments[0]? = some (recordedSegment fs.vol) := by
    have hlist : fs₁.txnBegin.2.segments = formatSegments fs.vol := by
      rw [hinv.segments, hbegun.vol_eq]
    rw [← hfs₂, ← hbegun.vol_eq]
    simp only [updateSegment, persistHeader, Fs.blockWrite, hlist, formatSegments, set_cons_zero,
      getElem?_cons_zero]
  obtain ⟨t₂, hstage, -⟩ := journalStageInode_succeeds (t := t₁)
    (by simp [hlen, journalBlockRefsMax]) fs₂.vol fs₂.disk n
    (versionedInode ino fs₁.txnBegin.2.nextVersionId 0 simhash)
  obtain ⟨hrc, hsettled, -⟩ := settled_commit hgeo hhead t₂
  have hclose : grahafsV2Close env fs n = (fs₂.txnCommit t₂).2.publish n
      (versionedInode ino fs₁.txnBegin.2.nextVersionId 0 simhash) := by
    unfold grahafsV2Close
    rw [hget]
    dsimp only
    rw [if_neg (by simp [hemits]), hsimhash, hemit]
    dsimp only
    rw [hstage]
    dsimp only
    rw [if_neg (by rw [hrc]; simp)]
  have hdone := hsettled.publish n (versionedInode ino fs₁.txnBegin.2.nextVersionId 0 simhash)
  rw [hclose]
  refine ⟨hdone.vol_eq.trans hvol, by rw [hdone.segments, hsegment], fun i hi => ?_⟩
  have hoff : fs₂.vol.inodeLba n ∉ targets t₁ := by
    rw [htargets, mem_singleton, hvol, hbegun.vol_eq]
    omega
  have hfinal := hdone.inodeAt hn
  rw [staged_journalStageInode hstage hn ((count_eq_zero.mpr hoff).le.trans zero_le_one),
    inodeAt_update _ _ hn hn, if_pos rfl, hdone.vol_eq, hvol] at hfinal
  rw [hfinal, slot_versionedInode hi]

end GrahaOS.FsProgress
