import GrahaOS.FsInvariant

/-!
# What a create does

A create takes the first free inode, allocates a block for it if it is a directory, and
adds an entry to the parent's block. In a tidy volume the parent has its block, so that
at most one block is allocated, and the two inodes that are staged, often in one block of
the inode table, are the only ones that change.
-/

namespace GrahaOS.FsCreate

open ByteFields DiskFormat Journaling VolumeFormat GrahaFs FsStaging FsWrite
  FsInvariant Function List

variable {v : Volume} {I : ℕ → Inode} {U U' : ℕ → Bool} {d D : ℕ → Block} {fs fs' : Fs}
  {n b parent k i self child : ℕ} {ino : Inode} {t t' : Txn} {type : NodeType} {name : List UInt8}

lemma slot_sealInode (hi : i < 12) (ino : Inode) : slot (sealInode ino) i = slot ino i := by
  apply get_sealInode
  simp only [Field.Apart, inoDirect, inoChecksum]
  omega

lemma slot_zeros (i : ℕ) : slot (zeros inodeSize) i = 0 := Field.get_zeros _

/-- The block of a new directory is its first; a new file has none. -/
def firstBlock : NodeType → ℕ → ℕ
  | .file, _ => 0
  | .directory, b => b

lemma slot_freshInode (hi : i < 12) (hb : b < 2 ^ 32) :
    slot (freshInode type b) i = if i = 0 then firstBlock type b else 0 := by
  cases type with
  | file =>
    simp only [freshInode, firstBlock, ite_self]
    rw [slot_sealInode hi, slot_put_of_outside (by decide) hi, slot_put_of_outside (by decide) hi,
      slot_put_of_outside (by decide) hi, slot_put_of_outside (by decide) hi, slot_zeros]
  | directory =>
    simp only [freshInode, firstBlock]
    rw [slot_sealInode hi, slot_put_of_outside (by decide) hi, slot_put_of_outside (by decide) hi,
      slot_put (by decide) hb, slot_put_of_outside (by decide) hi,
      slot_put_of_outside (by decide) hi, slot_put_of_outside (by decide) hi,
      slot_put_of_outside (by decide) hi, slot_zeros]

variable (type)

lemma freshInode_pages (b : ℕ) :
    inoIndirect.get (freshInode type b) = 0 ∧ inoDoubleIndirect.get (freshInode type b) = 0 ∧
      inoAiMetadataBlock.get (freshInode type b) = 0 := by
  cases type with
  | file | directory =>
    refine ⟨?_, ?_, ?_⟩ <;>
      simp (disch := decide) only [freshInode, get_sealInode, Field.get_put_of_apart,
        Field.get_zeros]

/-- The type number of an inode. -/
def typeNumber : NodeType → ℕ
  | .file => typeFile
  | .directory => typeDirectory

lemma freshInode_header (b : ℕ) : inoType.get (freshInode type b) = typeNumber type ∧
      inoMagic.get (freshInode type b) = inodeMagic := by
  cases type with
  | file | directory =>
    simp (disch := decide) only [freshInode, get_sealInode, Field.get_put_of_apart]
    constructor <;> exact Field.get_put_self _ _ (by decide) (by decide)

lemma freshInode_type (b : ℕ) : inoType.get (freshInode type b) = typeNumber type :=
  (freshInode_header type b).1

lemma freshInode_magic (b : ℕ) : inoMagic.get (freshInode type b) = inodeMagic :=
  (freshInode_header type b).2

variable {type}

lemma freshInode_file_size (b : ℕ) : inoSize.get (freshInode .file b) = 0 := by
  simp (disch := decide) only [freshInode, get_sealInode, Field.get_put_of_apart, Field.get_zeros]

lemma fits_fresh (hb : type = .directory → v.dataStart < b ∧ b < v.totalBlocks ∧
      U' b = true ∧ ∀ m < inodeCountMax, ∀ i < 12, slot (I m) i ≠ b) (hword : b < 2 ^ 32) :
    Fits v I U' n (freshInode type b) := by
  have hslot : ∀ i < 12, slot (freshInode type b) i ≠ 0 →
      type = .directory ∧ i = 0 ∧ slot (freshInode type b) i = b := by
    intro i hi hnz
    rw [slot_freshInode hi hword] at hnz ⊢
    cases type with
    | file => simp [firstBlock] at hnz
    | directory =>
      by_cases hi0 : i = 0
      · exact ⟨rfl, hi0, if_pos hi0⟩
      · exact absurd (if_neg hi0) hnz
  refine ⟨?_, ?_, ?_, freshInode_pages type b, ?_, by cases type <;> exact inodeCrcOk_sealInode _⟩
  · intro i hi hnz
    obtain ⟨hdir, -, heq⟩ := hslot i hi hnz
    obtain ⟨hgt, hlt, hused, -⟩ := hb hdir
    rw [heq]
    exact ⟨hgt, hlt, hused⟩
  · intro i hi j hj hnz heq
    obtain ⟨-, hi0, -⟩ := hslot i hi hnz
    obtain ⟨-, hj0, -⟩ := hslot j hj (heq ▸ hnz)
    rw [hi0, hj0]
  · intro i hi hnz m hm _ j hj
    obtain ⟨hdir, -, heq⟩ := hslot i hi hnz
    rw [heq]
    exact (hb hdir).2.2.2 m hm j hj
  · intro htype
    cases type with
    | file => cases htype
    | directory =>
      rw [slot_freshInode (by decide) hword, if_pos rfl]
      have hgt := (hb rfl).1
      simp only [firstBlock]
      omega

lemma fits_same (h : Tidy v I U) (hn : n < inodeCountMax)
    (hmagic : inoMagic.get (I n) = inodeMagic) (hslots : ∀ i < 12, slot ino i = slot (I n) i)
    (hpages : inoIndirect.get ino = 0 ∧ inoDoubleIndirect.get ino = 0 ∧
      inoAiMetadataBlock.get ino = 0)
    (htype : inoType.get ino = inoType.get (I n)) (hcrc : inodeCrcOk ino = true) :
    Fits v I U n ino := by
  refine ⟨?_, ?_, ?_, hpages, ?_, hcrc⟩
  · intro i hi hnz
    rw [hslots i hi] at hnz ⊢
    exact h.slots n hn i hi hnz
  · intro i hi j hj hnz heq
    rw [hslots i hi] at hnz heq
    rw [hslots j hj] at heq
    exact (h.inj n hn i hi n hn j hj hnz heq).2
  · intro i hi hnz m hm hmn j hj heq
    rw [hslots i hi] at hnz heq
    exact hmn (h.inj n hn i hi m hm j hj hnz heq.symm).1.symm
  · intro hdir
    rw [hslots 0 (by decide)]
    exact h.dirs n hn hmagic (htype ▸ hdir)

/-- The inode of a directory after an entry was added. -/
def enteredInode (dir : Inode) (slot : ℕ) : Inode := sealInode (inoSize.put dir ((slot + 1) * 32))

lemma get_enteredInode {f : Field} (hsize : f.Apart inoSize) (hsum : f.Apart inoChecksum)
    (dir : Inode) (k : ℕ) : f.get (enteredInode dir k) = f.get dir := by
  rw [enteredInode, get_sealInode hsum, Field.get_put_of_apart hsize]

lemma slot_enteredInode (hi : i < 12) (dir : Inode) (k : ℕ) :
    slot (enteredInode dir k) i = slot dir i := by
  rw [enteredInode, slot_sealInode hi, slot_put_of_outside (by decide) hi]

/-- What the first part of a create answers: a block for a directory, or a negative code. -/
def BlockTaken (fs : Fs) (t : Txn) (type : NodeType) (self parent : ℕ) :
    Except (ℤ × Fs) (ℕ × Fs × Txn) → Prop
  | .ok (b, fs', t') => CountsOnly fs fs' ∧ ((type = .file ∧ b = 0 ∧ t' = t) ∨
      (type = .directory ∧ firstFree fs.vol fs.disk = some b ∧
        ∃ t₁, stage t (Volume.bitmapLba b) kindMetadata
          (bitmapMark (fs.disk (Volume.bitmapLba b)) (b % bitsPerBlock)) = .ok t₁ ∧
        stage t₁ b kindMetadata (freshDirBlock self parent) = .ok t'))
  | .error (rc, fs') => CountsOnly fs fs' ∧ rc < 0

lemma createBlock_spec {r : Except (ℤ × Fs) (ℕ × Fs × Txn)}
    (h : createBlock fs t type self parent = r) : BlockTaken fs t type self parent r := by
  subst h
  unfold createBlock
  cases type with
  | file => exact ⟨CountsOnly.refl _, .inl ⟨rfl, rfl, rfl⟩⟩
  | directory =>
  cases halloc : bitmapAllocateBlock fs t with
  | none => exact ⟨CountsOnly.refl _, by decide⟩
  | some r =>
    obtain ⟨b₁, fs₁, t₁⟩ := r
    obtain ⟨hfree, hcounts, hmark⟩ := bitmapAllocateBlock_some halloc
    dsimp only
    cases hstage : stage t₁ b₁ kindMetadata (freshDirBlock self parent) with
    | error rc => exact ⟨hcounts, stage_error hstage⟩
    | ok t₂ => exact ⟨hcounts, .inr ⟨rfl, hfree, t₁, hmark, hstage⟩⟩

/-- The new block of a create, if it makes a directory. -/
def newBlock : NodeType → ℕ → Option (ℕ × ℕ)
  | .file, _ => none
  | .directory, b => some (0, b)

/-- What a create has staged before its inodes. -/
structure StagedBlock (v : Volume) (d : ℕ → Block) (type : NodeType) (b : ℕ) (t : Txn) : Prop where
  free : type = .directory → firstFree v d = some b
  word : b < 2 ^ 32
  bitmap : ∀ lba < v.inodeTableStart, staged d t lba = markFresh d (newBlock type b) d lba
  frame : ∀ lba, v.inodeTableStart ≤ lba → (type = .directory → lba ≠ b) → staged d t lba = d lba
  targets : ∀ x ∈ targets t, x < v.inodeTableStart ∨ v.dataStart ≤ x

lemma createBlock_staged (h : createBlock fs t type self parent = .ok (b, fs', t'))
    (hempty : t.refs = []) : StagedBlock fs.vol fs.disk type b t' := by
  have hbegin : staged fs.disk t = fs.disk := by simp [staged, homeWrites, hempty]
  have htargets : targets t = [] := by simp [targets, hempty]
  rcases (createBlock_spec h).2 with ⟨rfl, rfl, rfl⟩ | ⟨rfl, hfree, t₁, hmark, hstage⟩
  · refine ⟨by simp, by decide, fun lba _ => by rw [hbegin]; rfl, fun lba _ _ => by rw [hbegin], ?_⟩
    rw [htargets]
    intro x hx
    cases hx
  · obtain ⟨hge, hlt, -⟩ := mem_firstFree hfree
    have hword := fs.vol.total_lt_word
    have hreg := fs.vol.regions
    have hbitmap := fs.vol.bitmapLba_lt hlt
    have hstaged := staged_stage (d := fs.disk) hstage (by omega)
    have hmarked := staged_stage (d := fs.disk) hmark (by omega)
    refine ⟨fun _ => hfree, hlt.trans hword, ?_, ?_, ?_⟩
    · intro lba hlba
      rw [hstaged, update_of_ne (by omega), hmarked, hbegin]
      rfl
    · intro lba hlba hne
      rw [hstaged, update_of_ne (hne rfl), hmarked, update_of_ne (by omega), hbegin]
    · intro x hx
      rw [targets_stage hstage (by omega), targets_stage hmark (by omega), htargets] at hx
      simp only [nil_append, cons_append, mem_cons, not_mem_nil, or_false] at hx
      omega

lemma dirAddEntry_spec (h : Inv fs) (hparent : parent < inodeCountMax) (name : List UInt8)
    (child : ℕ) (t : Txn) :
    match dirAddEntry fs parent name child t with
    | .error (rc, fs') => Idle fs fs' ∧ rc < 0
    | .ok (fs', t') => ∃ dir fs₁ k t₁, dir = fs.vol.inodeAt fs.disk parent ∧
      inoMagic.get dir = inodeMagic ∧ inoType.get dir = typeDirectory ∧ slot dir 0 ≠ 0 ∧
      Idle fs fs₁ ∧ fs' = fs₁.publish parent (enteredInode dir k) ∧
      stage t (slot dir 0) kindMetadata (putDirent (fs.disk (slot dir 0)) k child name) = .ok t₁ ∧
      journalStageInode fs.vol fs.disk t₁ parent (enteredInode dir k) = .ok t' := by
  unfold dirAddEntry
  cases hget : inodeCacheGet fs parent with
  | none => exact ⟨Idle.refl _, by decide⟩
  | some r =>
  obtain ⟨dir, fs₁⟩ := r
  obtain ⟨hdir, hmagic, hidle⟩ := inodeCacheGet_some h hparent hget
  dsimp only
  by_cases htype : inoType.get dir = typeDirectory
  · have hnz : slot dir 0 ≠ 0 := by
      rw [hdir] at hmagic htype ⊢
      exact h.tidy.dirs parent hparent hmagic htype
    have hroot : rootAlloc ⟨fs₁, dir, t⟩ (inoDirect 0) kindMetadata =
        .ok (slot dir 0, ⟨fs₁, dir, t⟩) := if_neg hnz
    rw [if_neg (not_not.mpr htype), hroot]
    dsimp only
    rw [hidle.vol_eq, hidle.disk_eq]
    cases hslot : freeDirent (fs.disk (slot dir 0)) with
    | none => exact ⟨hidle, by decide⟩
    | some k =>
    dsimp only
    cases hstage : stage t (slot dir 0) kindMetadata
        (putDirent (fs.disk (slot dir 0)) k child name) with
    | error rc => exact ⟨hidle, stage_error hstage⟩
    | ok t₁ =>
      dsimp only
      cases hinode : journalStageInode fs.vol fs.disk t₁ parent
          (sealInode (inoSize.put dir ((k + 1) * 32))) with
      | error rc => exact ⟨hidle, journalStageInode_error hinode⟩
      | ok t₂ => exact ⟨dir, fs₁, k, t₁, hdir, hmagic, htype, hnz, hidle, rfl, hstage, hinode⟩
  · rw [if_pos htype]
    exact ⟨hidle, by decide⟩

lemma mem_firstFreeInode (h : firstFreeInode v d = some n) :
    n < inodeCountMax ∧ inoMagic.get (v.inodeAt d n) = 0 := by
  have hlt := mem_range'_1.mp (mem_of_find?_eq_some h)
  have hfree := List.find?_some h
  simp only [Bool.and_eq_true, decide_eq_true_eq] at hfree
  refine ⟨?_, hfree.1⟩
  simp only [inodeCountMax] at hlt ⊢
  omega

/-- The disk a create stages, in terms of the disk before. -/
structure StagedCreate (v : Volume) (d D : ℕ → Block) (parent n : ℕ) (type : NodeType) (b k : ℕ) :
    Prop where
  inodes : ∀ m < inodeCountMax, v.inodeAt D m =
    if m = parent then enteredInode (v.inodeAt d parent) k
    else if m = n then freshInode type b else v.inodeAt d m
  used : ∀ c < v.totalBlocks, Volume.used D c =
    ((newBlock type b).any (fun p => p.2 = c) || Volume.used d c)
  frame : ∀ lba, v.dataStart ≤ lba → lba ≠ slot (v.inodeAt d parent) 0 →
    (type = .directory → lba ≠ b) → D lba = d lba

/-- Two inodes and an entry on top of the block. The parent's inode may already be staged in
the copy of the inode block that holds the new inode, but then in this copy only. -/
lemma staged_create {t₁ t₂ t₃ t₄ : Txn} (hn : n < inodeCountMax)
    (hparent : parent < inodeCountMax)
    (hblock : StagedBlock v d type b t₁)
    (hlba : v.dataStart ≤ slot (v.inodeAt d parent) 0)
    (hnew : journalStageInode v d t₁ n (freshInode type b) = .ok t₂)
    (hentry : stage t₂ (slot (v.inodeAt d parent) 0) kindMetadata
      (putDirent (d (slot (v.inodeAt d parent) 0)) k n name) = .ok t₃)
    (hdir : journalStageInode v d t₃ parent (enteredInode (v.inodeAt d parent) k) = .ok t₄) :
    StagedCreate v d (staged d t₄) parent n type b k := by
  have hreg := v.regions
  have hword := slot_lt (v.inodeAt d parent) 0
  generalize heq₀ : slot (v.inodeAt d parent) 0 = lba₀ at hlba hentry hword
  have hgeN := v.inodeLba_ge n
  have hltN := v.inodeLba_lt hn
  have hgeP := v.inodeLba_ge parent
  have hltP := v.inodeLba_lt hparent
  have hcountN : (targets t₁).count (v.inodeLba n) = 0 :=
    count_eq_zero.mpr (inodeLba_not_mem hn hblock.targets)
  have hcountP : (targets t₁).count (v.inodeLba parent) = 0 :=
    count_eq_zero.mpr (inodeLba_not_mem hparent hblock.targets)
  have hcount : (targets t₃).count (v.inodeLba parent) ≤ 1 := by
    have hne : v.inodeLba parent ≠ lba₀ := by omega
    rw [targets_stage hentry hword, count_append, count_singleton, if_neg (by simpa using hne.symm)]
    rcases targets_journalStageInode hnew hn with heq | ⟨-, heq⟩
    · rw [heq, hcountP]
      decide
    · rw [heq, count_append, hcountP, count_singleton]
      split_ifs <;> decide
  have h₂ := staged_journalStageInode hnew hn (hcountN.le.trans zero_le_one)
  have h₃ := staged_stage (d := d) hentry hword
  have h₄ := staged_journalStageInode hdir hparent hcount
  -- Outside the table and the entry's block only the new block shows.
  have hother : ∀ lba, (lba < v.inodeTableStart ∨ v.dataStart ≤ lba) → lba ≠ lba₀ →
      staged d t₄ lba = staged d t₁ lba := by
    intro lba hside hne
    rw [h₄, update_of_ne (by omega), h₃, update_of_ne hne, h₂, update_of_ne (by omega)]
  have htable₁ : ∀ m < inodeCountMax, v.inodeAt (staged d t₁) m = v.inodeAt d m := fun m hm =>
    inodeAt_congr (staged_of_not_mem (inodeLba_not_mem hm hblock.targets))
  have htable₃ : ∀ m < inodeCountMax, v.inodeAt (staged d t₃) m =
      if m = n then freshInode type b else v.inodeAt d m := by
    intro m hm
    have hltM := v.inodeLba_lt hm
    have hkept : v.inodeAt (staged d t₃) m = v.inodeAt (staged d t₂) m := by
      apply inodeAt_congr
      rw [h₃, update_of_ne (by omega)]
    rw [hkept, h₂, inodeAt_update _ _ hn hm, htable₁ m hm]
  refine ⟨?_, ?_, ?_⟩
  · intro m hm
    rw [h₄, inodeAt_update _ _ hparent hm, htable₃ m hm]
  · intro c hc
    apply used_markFresh _ hc
    intro lba hlt
    rw [hother lba (.inl hlt) (by omega)]
    exact hblock.bitmap lba hlt
  · intro lba hge hne hneb
    rw [hother lba (.inr hge) (heq₀ ▸ hne)]
    exact hblock.frame lba (by omega) hneb

/-- What a create that succeeded did. -/
structure Created (fs fs' : Fs) (parent n : ℕ) (type : NodeType) (b k : ℕ) : Prop where
  vol_eq : fs'.vol = fs.vol
  lt : n < inodeCountMax
  free : inoMagic.get (fs.vol.inodeAt fs.disk n) = 0
  magic : inoMagic.get (fs.vol.inodeAt fs.disk parent) = inodeMagic
  type_eq : inoType.get (fs.vol.inodeAt fs.disk parent) = typeDirectory
  block : type = .directory → firstFree fs.vol fs.disk = some b
  inodes : ∀ m < inodeCountMax, fs'.vol.inodeAt fs'.disk m =
    if m = parent then enteredInode (fs.vol.inodeAt fs.disk parent) k
    else if m = n then freshInode type b else fs.vol.inodeAt fs.disk m
  used : ∀ c < fs.vol.totalBlocks, Volume.used fs'.disk c =
    ((newBlock type b).any (fun p => p.2 = c) || Volume.used fs.disk c)
  frame : ∀ lba, fs.vol.dataStart ≤ lba → lba ≠ slot (fs.vol.inodeAt fs.disk parent) 0 →
    (type = .directory → lba ≠ b) → fs'.disk lba = fs.disk lba

lemma tidy_create (h : Tidy v (v.inodeAt d) (Volume.used d)) (hparent : parent < inodeCountMax)
    (hne : parent ≠ n) (hmagic : inoMagic.get (v.inodeAt d parent) = inodeMagic)
    (hblock : type = .directory → firstFree v d = some b) (hword : b < 2 ^ 32)
    (hD : StagedCreate v d D parent n type b k) : Tidy v (v.inodeAt D) (Volume.used D) := by
  have hmono : ∀ c, Volume.used d c = true →
      ((newBlock type b).any (fun p => p.2 = c) || Volume.used d c) = true := by
    intro c hc
    rw [hc, Bool.or_true]
  have hnew : Fits v (v.inodeAt d)
      (fun c => (newBlock type b).any (fun p => p.2 = c) || Volume.used d c) n
      (freshInode type b) := by
    apply fits_fresh _ hword
    intro hdir
    obtain ⟨hge, hlt, hunused⟩ := mem_firstFree (hblock hdir)
    obtain ⟨hgt, hapart⟩ := h.fresh hge hunused
    refine ⟨hgt, hlt, ?_, hapart⟩
    simp [hdir, newBlock]
  have hgrown := h.replace hmono hnew
  have hsame : update (v.inodeAt d) n (freshInode type b) parent = v.inodeAt d parent :=
    update_of_ne hne _ _
  have hentered := fits_same hgrown hparent (hsame ▸ hmagic)
    (fun i hi => (slot_enteredInode hi (v.inodeAt d parent) k).trans (by rw [hsame]))
    (by
      have hpages := h.pages parent hparent
      rw [get_enteredInode (by decide) (by decide), get_enteredInode (by decide) (by decide),
        get_enteredInode (by decide) (by decide)]
      exact hpages)
    ((get_enteredInode (by decide) (by decide) _ _).trans (by rw [hsame]))
    (inodeCrcOk_sealInode _)
  refine (hgrown.replace (fun _ => id) hentered).congr (fun m hm => ?_) hD.used
  rw [hD.inodes m hm, update_apply, update_apply]

lemma created_staged (h : Inv fs) (hparent : parent < inodeCountMax)
    (hn : n < inodeCountMax) (hzero : inoMagic.get (fs.vol.inodeAt fs.disk n) = 0)
    (hmagic : inoMagic.get (fs.vol.inodeAt fs.disk parent) = inodeMagic)
    (htype : inoType.get (fs.vol.inodeAt fs.disk parent) = typeDirectory)
    (hblock : type = .directory → firstFree fs.vol fs.disk = some b) (hword : b < 2 ^ 32)
    (hD : StagedCreate fs.vol fs.disk D parent n type b k) (hsettled : Settled fs fs' D)
    (hcache : fs'.cache = fs.cache.map fun e => if e.inodeNum = parent then
      { e with disk := enteredInode (fs.vol.inodeAt fs.disk parent) k } else e) :
    Created fs fs' parent n type b k ∧ Inv fs' := by
  have hne : parent ≠ n := by
    rintro rfl
    rw [hzero] at hmagic
    cases hmagic
  refine ⟨⟨hsettled.vol_eq, hn, hzero, hmagic, htype, hblock, ?_, ?_, ?_⟩,
    hsettled.inv h.segments h.active ?_ ?_⟩
  · intro m hm
    rw [hsettled.inodeAt hm]
    exact hD.inodes m hm
  · intro c hc
    rw [hsettled.used hc]
    exact hD.used c hc
  · intro lba hlba hentry hnew
    rw [hsettled.disk_eq lba (fs.vol.home_data hlba)]
    exact hD.frame lba hlba hentry hnew
  · exact tidy_create h.tidy hparent hne hmagic hblock hword hD
  · rw [hcache]
    apply coherent_publish h.coherent
    · rw [get_enteredInode (by decide) (by decide)]
      exact hmagic
    · intro m hm hmparent hmmagic
      have hmn : m ≠ n := by
        rintro rfl
        rw [hzero] at hmmagic
        cases hmmagic
      rw [hD.inodes m hm, if_neg hmparent, if_neg hmn]
    · rw [hD.inodes parent hparent, if_pos rfl]

lemma Created.of_idle {fs₁ : Fs} (h : Created fs₁ fs' parent n type b k) (hidle : Idle fs fs₁) :
    Created fs fs' parent n type b k := by
  obtain ⟨hvol, hlt, hfree, hmagic, htype, hblock, hinodes, hused, hframe⟩ := h
  rw [hidle.vol_eq, hidle.disk_eq] at hfree hmagic htype hblock hinodes hused hframe
  exact ⟨hvol.trans hidle.vol_eq, hlt, hfree, hmagic, htype, hblock, hinodes, hused, hframe⟩

/-- A create does all it should, or fails and does nothing. -/
theorem create_spec (h : Inv fs) (hparent : parent < inodeCountMax) (name : List UInt8)
    (type : NodeType) :
    (Idle fs (grahafsV2Create fs parent name type).2 ∧
      (grahafsV2Create fs parent name type).1 < 0) ∨
    ((grahafsV2Create fs parent name type).1 = 0 ∧
      ∃ n b k, firstFreeInode fs.vol fs.disk = some n ∧
        Created fs (grahafsV2Create fs parent name type).2 parent n type b k ∧
        Inv (grahafsV2Create fs parent name type).2) := by
  unfold grahafsV2Create
  by_cases hname : name = [] ∨ 28 ≤ name.length
  · rw [if_pos hname]
    exact .inl ⟨Idle.refl _, (by decide : (-22 : ℤ) < 0)⟩
  rw [if_neg hname]
  cases hfree : firstFreeInode fs.vol fs.disk with
  | none => exact .inl ⟨Idle.refl _, (by decide : (-28 : ℤ) < 0)⟩
  | some n =>
  obtain ⟨hn, hzero⟩ := mem_firstFreeInode hfree
  dsimp only
  have hbegun := (idle_freeInodes fs (fs.freeInodes - 1)).trans
    (idle_begin { fs with freeInodes := fs.freeInodes - 1 })
  cases hcreate : createBlock ({ fs with freeInodes := fs.freeInodes - 1 } : Fs).txnBegin.2
      ({ fs with freeInodes := fs.freeInodes - 1 } : Fs).txnBegin.1 type n parent with
  | error e =>
    obtain ⟨rc, fs₁⟩ := e
    obtain ⟨hcounts, hrc⟩ := createBlock_spec hcreate
    exact .inl ⟨hbegun.trans (idle_counts hcounts), hrc⟩
  | ok r =>
    obtain ⟨b, fs₁, t₁⟩ := r
    have hblock := createBlock_staged hcreate rfl
    have hidle := hbegun.trans (idle_counts (createBlock_spec hcreate).1)
    rw [hbegun.vol_eq, hbegun.disk_eq, ← hidle.vol_eq, ← hidle.disk_eq] at hblock
    dsimp only
    cases hnew : journalStageInode fs₁.vol fs₁.disk t₁ n (freshInode type b) with
    | error rc => exact .inl ⟨hidle, journalStageInode_error hnew⟩
    | ok t₂ =>
    have hinv := hidle.inv h
    have hspec := dirAddEntry_spec hinv hparent name n t₂
    dsimp only
    cases hadd : dirAddEntry fs₁ parent name n t₂ with
    | error e =>
      obtain ⟨rc, fs₂⟩ := e
      rw [hadd] at hspec
      exact .inl ⟨hidle.trans hspec.1, hspec.2⟩
    | ok r =>
    obtain ⟨fs₃, t₄⟩ := r
    rw [hadd] at hspec
    obtain ⟨dir, fs₂, k, t₃, rfl, hmagic, htype, hnz, hidle', rfl, hentry, hentered⟩ := hspec
    have hlba := (hinv.tidy.slots parent hparent 0 (by decide) hnz).1.le
    have hD := staged_create hn hparent hblock hlba hnew hentry hentered
    have hfirst := hblock.free
    have hinv' := hidle'.inv hinv
    -- The lookup of the parent changed the cache: `fs₂` is the state before the commit.
    have hall := hidle.trans hidle'
    rw [← hall.vol_eq, ← hall.disk_eq] at hzero
    rw [← hidle'.vol_eq, ← hidle'.disk_eq] at hmagic htype hD hfirst
    rw [← hidle'.vol_eq, ← hidle'.disk_eq]
    obtain ⟨hrc, hsettled, hcache⟩ :=
      @settled_commit (fs₂.publish parent (enteredInode (fs₂.vol.inodeAt fs₂.disk parent) k))
        hinv'.geo hinv'.head t₄
    dsimp only
    rw [if_neg (by rw [hrc]; simp)]
    refine .inr ⟨rfl, n, b, k, rfl, ?_⟩
    obtain ⟨hcreated, hdone⟩ := created_staged hinv' hparent hn hzero hmagic htype hfirst
      hblock.word hD hsettled.of_publish.writeSuperblock.flush hcache
    exact ⟨hcreated.of_idle hall, hdone⟩

end GrahaOS.FsCreate
