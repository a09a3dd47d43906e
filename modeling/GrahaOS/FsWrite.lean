import GrahaOS.FsStaging
import Mathlib.Data.List.GetD

/-!
# What a write stages

When the range of a write lies in the direct blocks and at most one of them has no block yet, the
loop allocates at most one block, and the staged disk has the data in the blocks of the range and is
unchanged elsewhere, apart from the bit of the new block. With two blocks to allocate this fails:
the allocator reads the bitmap of the disk.
-/

namespace GrahaOS.FsWrite

open ByteFields DiskFormat Journaling VolumeFormat GrahaFs FsStaging Function List

variable {v : Volume} {d : ℕ → Block} {fs fs' : Fs} {a a' a₁ a₂ : Alloc} {t t' : Txn}
  {lba b n j i k blockIndex : ℕ} {kind : UInt8} {ino : Inode} {pos : ℕ} {data src : List UInt8}
  {f : Field}

/-- Only the counter of free blocks may differ. -/
def CountsOnly (fs fs' : Fs) : Prop := ∃ k, fs' = { fs with freeBlocks := k }

lemma CountsOnly.refl (fs : Fs) : CountsOnly fs fs := ⟨fs.freeBlocks, rfl⟩

lemma CountsOnly.trans {fs₁ fs₂ fs₃ : Fs} (h : CountsOnly fs₁ fs₂) (h' : CountsOnly fs₂ fs₃) :
    CountsOnly fs₁ fs₃ := by
  obtain ⟨k, rfl⟩ := h
  obtain ⟨k', rfl⟩ := h'
  exact ⟨k', rfl⟩

lemma CountsOnly.disk_eq (h : CountsOnly fs fs') : fs'.disk = fs.disk := by
  obtain ⟨k, rfl⟩ := h
  rfl

lemma CountsOnly.vol_eq (h : CountsOnly fs fs') : fs'.vol = fs.vol := by
  obtain ⟨k, rfl⟩ := h
  rfl

/-- An allocation, failed or not, changes only counters. -/
def Keeps (fs : Fs) : Except Fs (ℕ × Alloc) → Prop
  | .ok r => CountsOnly fs r.2.fs
  | .error fs' => CountsOnly fs fs'

lemma bitmapAllocateBlock_some (h : bitmapAllocateBlock fs t = some (b, fs', t')) :
    firstFree fs.vol fs.disk = some b ∧ CountsOnly fs fs' ∧
    stage t (Volume.bitmapLba b) kindMetadata
      (bitmapMark (fs.disk (Volume.bitmapLba b)) (b % bitsPerBlock)) = .ok t' := by
  unfold bitmapAllocateBlock at h
  cases hfree : firstFree fs.vol fs.disk with
  | none =>
    rw [hfree] at h
    cases h
  | some i =>
  rw [hfree] at h
  simp only at h
  cases hstage : stage t (Volume.bitmapLba i) kindMetadata
      (bitmapMark (fs.disk (Volume.bitmapLba i)) (i % bitsPerBlock)) with
  | error rc =>
    rw [hstage] at h
    cases h
  | ok t₁ =>
    rw [hstage] at h
    cases h
    exact ⟨rfl, ⟨_, rfl⟩, hstage⟩

lemma allocateZeroed_some (h : allocateZeroed fs t kind = some (b, fs', t')) :
    ∃ t₁, bitmapAllocateBlock fs t = some (b, fs', t₁) ∧
      t' = stageIgnored t₁ b kind (zeros blockSize) := by
  unfold allocateZeroed at h
  cases halloc : bitmapAllocateBlock fs t with
  | none =>
    rw [halloc] at h
    cases h
  | some r =>
    obtain ⟨b₁, fs₁, t₁⟩ := r
    rw [halloc] at h
    cases h
    exact ⟨t₁, rfl, rfl⟩

lemma rootAlloc_ok (h : rootAlloc a f kind = .ok (lba, a')) :
    (f.get a.ino ≠ 0 ∧ lba = f.get a.ino ∧ a' = a) ∨
    (f.get a.ino = 0 ∧ ∃ t₁, bitmapAllocateBlock a.fs a.txn = some (lba, a'.fs, t₁) ∧
      a'.ino = countBlock (f.put a.ino lba) ∧
      a'.txn = stageIgnored t₁ lba kind (zeros blockSize)) := by
  unfold rootAlloc at h
  by_cases hzero : f.get a.ino = 0
  · rw [if_pos hzero] at h
    cases halloc : allocateZeroed a.fs a.txn kind with
    | none =>
      rw [halloc] at h
      cases h
    | some r =>
      obtain ⟨b₁, fs₁, t₂⟩ := r
      rw [halloc] at h
      cases h
      obtain ⟨t₁, hblock, rfl⟩ := allocateZeroed_some halloc
      exact .inr ⟨hzero, t₁, hblock, rfl, rfl⟩
  · rw [if_neg hzero] at h
    simp only [Except.ok.injEq, Prod.mk.injEq] at h
    exact .inl ⟨hzero, h.1.symm, h.2.symm⟩

lemma keeps_rootAlloc (a : Alloc) (f : Field) (kind : UInt8) : Keeps a.fs (rootAlloc a f kind) := by
  cases h : rootAlloc a f kind with
  | ok r =>
    obtain ⟨lba, a'⟩ := r
    rcases rootAlloc_ok h with ⟨-, -, rfl⟩ | ⟨-, t₁, hblock, -⟩
    · exact CountsOnly.refl _
    · exact (bitmapAllocateBlock_some hblock).2.1
  | error fs' =>
    unfold rootAlloc at h
    split_ifs at h
    cases halloc : allocateZeroed a.fs a.txn kind with
    | none =>
      rw [halloc] at h
      obtain rfl := Except.error.inj h
      exact CountsOnly.refl _
    | some r =>
      rw [halloc] at h
      cases h

lemma keeps_slotAlloc (a : Alloc) (page k : ℕ) (kind : UInt8) :
    Keeps a.fs (slotAlloc a page k kind) := by
  unfold slotAlloc
  simp only
  split_ifs
  · cases halloc : allocateZeroed a.fs a.txn kind with
    | none => exact CountsOnly.refl _
    | some r =>
      obtain ⟨b₁, fs₁, t₂⟩ := r
      obtain ⟨t₁, hblock, -⟩ := allocateZeroed_some halloc
      exact (bitmapAllocateBlock_some hblock).2.1
  · exact CountsOnly.refl _

lemma keeps_bind {r : Except Fs (ℕ × Alloc)} {f : ℕ × Alloc → Except Fs (ℕ × Alloc)}
    (h : Keeps fs r) (hf : ∀ p, Keeps p.2.fs (f p)) : Keeps fs (r.bind f) := by
  cases r with
  | error fs' => exact h
  | ok p =>
  have hp := hf p
  change Keeps fs (f p)
  cases hfp : f p with
  | ok q =>
    rw [hfp] at hp
    exact CountsOnly.trans h hp
  | error fs' =>
    rw [hfp] at hp
    exact CountsOnly.trans h hp

lemma keeps_blockIndexToLbaAlloc (a : Alloc) (k : ℕ) : Keeps a.fs (blockIndexToLbaAlloc a k) := by
  unfold blockIndexToLbaAlloc
  by_cases hdirect : k < directBlocks
  · rw [if_pos hdirect]
    exact keeps_rootAlloc _ _ _
  rw [if_neg hdirect]
  generalize k - directBlocks = adj
  by_cases hindirect : adj < indirectPtrs
  · rw [if_pos hindirect]
    exact keeps_bind (keeps_rootAlloc _ _ _) fun p => keeps_slotAlloc _ _ _ _
  rw [if_neg hindirect]
  generalize adj - indirectPtrs = rest
  by_cases hdouble : rest < indirectPtrs * indirectPtrs
  · rw [if_pos hdouble]
    exact keeps_bind (keeps_rootAlloc _ _ _) fun p =>
      keeps_bind (keeps_slotAlloc _ _ _ _) fun q => keeps_slotAlloc _ _ _ _
  · rw [if_neg hdouble]
    exact CountsOnly.refl _

lemma writeLoop_error : ∀ (fuel : ℕ) {blockIndex blockOffset written : ℕ} {data : List UInt8}
    {a : Alloc} {rc : ℤ} {fs' : Fs},
    writeLoop fuel blockIndex blockOffset written data a = .error (rc, fs') →
      CountsOnly a.fs fs' ∧ rc < written + data.length := by
  intro fuel
  induction fuel with
  | zero =>
    intro _ _ _ _ _ _ _ h
    cases h
  | succ fuel ih =>
  intro blockIndex blockOffset written data a rc fs' h
  rw [writeLoop] at h
  by_cases hdata : data = []
  · rw [if_pos hdata] at h
    cases h
  rw [if_neg hdata] at h
  have hlen : 0 < data.length := length_pos_iff.mpr hdata
  have hkeeps := keeps_blockIndexToLbaAlloc a blockIndex
  cases hblock : blockIndexToLbaAlloc a blockIndex with
  | error fs₁ =>
    rw [hblock] at h hkeeps
    cases h
    refine ⟨hkeeps, ?_⟩
    split_ifs <;> omega
  | ok r =>
    obtain ⟨lba, a₁⟩ := r
    rw [hblock] at h hkeeps
    simp only at h
    cases hstage : stage a₁.txn lba kindData (chunkBlock a₁.fs.disk lba blockOffset
        (data.take (min (blockSize - blockOffset) data.length))) with
    | error rc₁ =>
      rw [hstage] at h
      cases h
      have hneg := stage_error hstage
      exact ⟨hkeeps, by omega⟩
    | ok t₁ =>
      rw [hstage] at h
      simp only at h
      obtain ⟨hrest, hrc⟩ := ih h
      refine ⟨CountsOnly.trans hkeeps hrest, ?_⟩
      rw [length_drop] at hrc
      omega

/-- `direct_blocks[i]`. -/
def slot (ino : Inode) (i : ℕ) : ℕ := (inoDirect i).get ino

/-- The direct blocks are in the data area and are different blocks. -/
structure SlotsOk (v : Volume) (ino : Inode) : Prop where
  range : ∀ i < 12, slot ino i ≠ 0 → v.dataStart ≤ slot ino i ∧ slot ino i < v.totalBlocks
  inj : ∀ i < 12, ∀ j < 12, slot ino i ≠ 0 → slot ino i = slot ino j → i = j

lemma slot_lt (ino : Inode) (i : ℕ) : slot ino i < 2 ^ 64 := by
  have h : slot ino i < 256 ^ 4 := Field.get_lt (inoDirect i) ino
  omega

lemma slot_put_of_outside (hf : f.off + f.width ≤ 64 ∨ 112 ≤ f.off) (hi : i < 12) (ino : Inode)
    (x : ℕ) : slot (f.put ino x) i = slot ino i := by
  apply Field.get_put_of_apart
  simp only [Field.Apart, inoDirect]
  omega

lemma slot_put (hi : i < 12) (hb : b < 2 ^ 32) (ino : Inode) :
    slot ((inoDirect i).put ino b) j = if j = i then b else slot ino j := by
  by_cases hji : j = i
  · subst hji
    rw [if_pos rfl]
    apply Field.get_put_self _ _ _ (by simpa [inoDirect] using hb)
    simp only [Field.Fits, inoDirect, inodeSize]
    omega
  · rw [if_neg hji]
    apply Field.get_put_of_apart
    simp only [Field.Apart, inoDirect]
    omega

/-- The inode with a new direct block, if there is one. -/
def grow : Option (ℕ × ℕ) → Inode → Inode
  | none, ino => ino
  | some (i, b), ino => countBlock ((inoDirect i).put ino b)

lemma slot_grow_some (hi : i < 12) (hj : j < 12) (hb : b < 2 ^ 32) (ino : Inode) :
    slot (grow (some (i, b)) ino) j = if j = i then b else slot ino j := by
  simp only [grow, countBlock]
  rw [slot_put_of_outside (by decide) hj, slot_put hi hb]

lemma slot_grow_cases {fresh : Option (ℕ × ℕ)} (hj : j < 12)
    (hfresh : ∀ i b, fresh = some (i, b) → i < 12 ∧ b < 2 ^ 32) (ino : Inode) :
    slot (grow fresh ino) j = slot ino j ∨
      ∃ b, fresh = some (j, b) ∧ slot (grow fresh ino) j = b := by
  cases fresh with
  | none => exact .inl rfl
  | some p =>
    obtain ⟨i, b⟩ := p
    obtain ⟨hi, hb⟩ := hfresh i b rfl
    rw [slot_grow_some hi hj hb]
    by_cases heq : j = i
    · exact .inr ⟨b, by rw [heq], if_pos heq⟩
    · exact .inl (if_neg heq)

/-- The field is neither a block number of the inode nor their count. -/
def OffBlocks (f : Field) : Prop :=
  f.off + f.width ≤ 32 ∨ (40 ≤ f.off ∧ f.off + f.width ≤ 64) ∨ 112 ≤ f.off

instance (f : Field) : Decidable (OffBlocks f) := inferInstanceAs (Decidable (_ ∨ _ ∧ _ ∨ _))

lemma get_grow (hf : OffBlocks f) (fresh : Option (ℕ × ℕ))
    (hfresh : ∀ i b, fresh = some (i, b) → i < 12) (ino : Inode) :
    f.get (grow fresh ino) = f.get ino := by
  simp only [OffBlocks] at hf
  cases fresh with
  | none => rfl
  | some p =>
  obtain ⟨i, b⟩ := p
  have hi := hfresh i b rfl
  have hcount : f.Apart inoBlocksAllocated := by
    simp only [Field.Apart, inoBlocksAllocated]
    omega
  have hslot : f.Apart (inoDirect i) := by
    simp only [Field.Apart, inoDirect]
    omega
  simp only [grow, countBlock]
  rw [Field.get_put_of_apart hcount, Field.get_put_of_apart hslot]

lemma slotsOk_grow (h : SlotsOk v ino) {fresh : Option (ℕ × ℕ)}
    (hfresh : ∀ i b, fresh = some (i, b) → i < 12 ∧ v.dataStart ≤ b ∧ b < v.totalBlocks ∧
      ∀ j < 12, slot ino j ≠ b) : SlotsOk v (grow fresh ino) := by
  cases fresh with
  | none => exact h
  | some p =>
  obtain ⟨i, b⟩ := p
  obtain ⟨hi, hge, hlt, hne⟩ := hfresh i b rfl
  have hb : b < 2 ^ 32 := hlt.trans v.total_lt_word
  refine ⟨?_, ?_⟩
  · intro j hj hnz
    rw [slot_grow_some hi hj hb] at hnz ⊢
    split_ifs at hnz ⊢
    · exact ⟨hge, hlt⟩
    · exact h.range j hj hnz
  · intro j hj k hk hnz heq
    rw [slot_grow_some hi hj hb] at hnz heq
    rw [slot_grow_some hi hk hb] at heq
    split_ifs at hnz heq with hji hki hki
    · rw [hji, hki]
    · exact absurd heq.symm (hne k hk)
    · exact absurd heq (hne j hj)
    · exact h.inj j hj k hk hnz heq

lemma position_eq {offset : ℕ} (h : offset < 2 ^ 44) :
    4096 * (offset / blockSize % 2 ^ 32) + offset % blockSize = offset := by
  simp only [blockSize]
  omega

lemma byte_chunkBlock (d : ℕ → Block) (lba off : ℕ) (src : List UInt8) (hk : k < blockSize) :
    byte (chunkBlock d lba off src) k =
      if off ≤ k ∧ k < off + src.length then src.getD (k - off) 0 else byte (d lba) k := by
  rw [chunkBlock, byte_of_lt _ hk, overlay]
  by_cases hin : off ≤ k ∧ k < off + src.length
  · rw [if_pos hin, if_pos hin]
  rw [if_neg hin, if_neg hin, byte_of_lt _ hk, if_pos]
  by_contra hfull
  push Not at hfull
  omega

/-- Block `j` of the file has a byte in the range. -/
def Covered (pos len j : ℕ) : Prop := pos < 4096 * (j + 1) ∧ 4096 * j < pos + len ∧ 0 < len

instance (pos len j : ℕ) : Decidable (Covered pos len j) :=
  inferInstanceAs (Decidable (_ ∧ _ ∧ _))

/-- The disk with the bit of a new block set, if there is one. -/
def markFresh (d : ℕ → Block) : Option (ℕ × ℕ) → (ℕ → Block) → ℕ → Block
  | none, D => D
  | some (_, b), D => Function.update D (Volume.bitmapLba b)
      (bitmapMark (d (Volume.bitmapLba b)) (b % bitsPerBlock))

lemma markFresh_congr (fresh : Option (ℕ × ℕ)) {D D' : ℕ → Block} {x : ℕ} (h : D x = D' x) :
    markFresh d fresh D x = markFresh d fresh D' x := by
  cases fresh with
  | none => exact h
  | some p => simp only [markFresh, update_apply, h]

/-- From `a` to `a'` the data was staged at `pos`, with at most one block allocated. -/
structure Wrote (v : Volume) (d : ℕ → Block) (pos : ℕ) (data : List UInt8) (a a' : Alloc)
    (fresh : Option (ℕ × ℕ)) : Prop where
  counts : CountsOnly a.fs a'.fs
  ino_eq : a'.ino = grow fresh a.ino
  fresh_ok : ∀ i b, fresh = some (i, b) →
    i < 12 ∧ Covered pos data.length i ∧ slot a.ino i = 0 ∧ firstFree v d = some b
  nonzero : ∀ j < 12, Covered pos data.length j → slot a'.ino j ≠ 0
  bytes : ∀ j < 12, Covered pos data.length j → ∀ k < 4096,
    byte (staged d a'.txn (slot a'.ino j)) k =
      if pos ≤ 4096 * j + k ∧ 4096 * j + k < pos + data.length then
        data.getD (4096 * j + k - pos) 0
      else byte (d (slot a'.ino j)) k
  bitmap : ∀ lba < v.inodeTableStart, staged d a'.txn lba = markFresh d fresh (staged d a.txn) lba
  frame : ∀ lba, v.inodeTableStart ≤ lba →
    (∀ j < 12, Covered pos data.length j → slot a'.ino j ≠ lba) →
      staged d a'.txn lba = staged d a.txn lba
  targets : ∀ x ∈ targets a'.txn, x ∈ targets a.txn ∨
    (∃ j < 12, Covered pos data.length j ∧ x = slot a'.ino j) ∨
    ∃ i b, fresh = some (i, b) ∧ x = Volume.bitmapLba b

lemma Wrote.nil (v : Volume) (d : ℕ → Block) (pos : ℕ) (a : Alloc) : Wrote v d pos [] a a none where
  counts := CountsOnly.refl _
  ino_eq := rfl
  fresh_ok := by simp
  nonzero := by simp [Covered]
  bytes := by simp [Covered]
  bitmap := by simp [markFresh]
  frame := by simp
  targets := fun x hx => .inl hx

/-- A new block is none of the blocks the inode has. -/
def FreshApart (v : Volume) (d : ℕ → Block) (ino : Inode) : Prop :=
  ∀ b, firstFree v d = some b → ∀ j < 12, slot ino j ≠ b

lemma Wrote.slotsOk {fresh : Option (ℕ × ℕ)} (h : Wrote v d pos data a a' fresh)
    (hslots : SlotsOk v a.ino) (hapart : ∀ i < 12, Covered pos data.length i → slot a.ino i = 0 →
      FreshApart v d a.ino) : SlotsOk v a'.ino := by
  rw [h.ino_eq]
  apply slotsOk_grow hslots
  intro i b hfresh
  obtain ⟨hi, hcov, hzero, hfree⟩ := h.fresh_ok i b hfresh
  obtain ⟨hge, hlt, -⟩ := mem_firstFree hfree
  exact ⟨hi, hge, hlt, hapart i hi hcov hzero b hfree⟩

lemma Wrote.slot_of_not_covered {fresh : Option (ℕ × ℕ)} (h : Wrote v d pos data a a' fresh)
    (hj : j < 12) (hcov : ¬Covered pos data.length j) : slot a'.ino j = slot a.ino j := by
  rw [h.ino_eq]
  cases fresh with
  | none => rfl
  | some p =>
    obtain ⟨i, b⟩ := p
    obtain ⟨hi, hcovi, -, hfree⟩ := h.fresh_ok i b rfl
    obtain ⟨-, hlt, -⟩ := mem_firstFree hfree
    have hji : j ≠ i := by
      rintro rfl
      exact hcov hcovi
    rw [slot_grow_some hi hj (hlt.trans v.total_lt_word), if_neg hji]

/-- What allocating a direct block leaves, before its data is staged. -/
lemma directAlloc_spec (hv : a.fs.vol = v) (hd : a.fs.disk = d) (hslots : SlotsOk v a.ino)
    (hi : i < 12) (hblock : blockIndexToLbaAlloc a i = .ok (lba, a₁)) :
    ∃ fresh, CountsOnly a.fs a₁.fs ∧ a₁.ino = grow fresh a.ino ∧ lba = slot a₁.ino i ∧
      v.dataStart ≤ lba ∧
      (∀ j b, fresh = some (j, b) → j = i ∧ slot a.ino i = 0 ∧ firstFree v d = some b) ∧
      (∀ x ≠ lba, staged d a₁.txn x = markFresh d fresh (staged d a.txn) x) ∧
      ∀ x ∈ targets a₁.txn, x ∈ targets a.txn ∨ x = lba ∨
        ∃ b, fresh = some (i, b) ∧ x = Volume.bitmapLba b := by
  have hroot : rootAlloc a (inoDirect i) kindData = .ok (lba, a₁) := by
    rw [← hblock, blockIndexToLbaAlloc, if_pos (show i < directBlocks from hi)]
  rcases rootAlloc_ok hroot with ⟨hnz, rfl, rfl⟩ | ⟨hzero, t₁, halloc, hino, htxn⟩
  · exact ⟨none, CountsOnly.refl _, rfl, rfl, (hslots.range i hi hnz).1, nofun, fun _ _ => rfl,
      fun x hx => .inl hx⟩
  obtain ⟨hfree, hcounts, hmark⟩ := bitmapAllocateBlock_some halloc
  rw [hv, hd] at hfree
  rw [hd] at hmark
  obtain ⟨hge, hlt, -⟩ := mem_firstFree hfree
  have hb : lba < 2 ^ 32 := hlt.trans v.total_lt_word
  have hreg := v.regions
  have hroom := v.dataStart_room
  have hword := v.total_lt_word
  have hbitmap := v.bitmapLba_lt hlt
  refine ⟨some (i, lba), hcounts, hino, ?_, hge, ?_, ?_, ?_⟩
  · rw [hino]
    exact ((slot_grow_some hi hi hb a.ino).trans (if_pos rfl)).symm
  · intro j b hjb
    cases hjb
    exact ⟨rfl, hzero, hfree⟩
  · intro x hx
    rw [htxn, staged_stageIgnored_of_ne (by omega) hx, staged_stage hmark (by omega)]
    rfl
  · intro x hx
    rw [htxn] at hx
    rcases mem_targets_stageIgnored (by omega) hx with hx | hx
    · rw [targets_stage hmark (by omega), mem_append, mem_singleton] at hx
      rcases hx with hx | hx
      · exact .inl hx
      · exact .inr (.inr ⟨lba, rfl, hx⟩)
    · exact .inr (.inl hx)

lemma wrote_pass {off : ℕ} (hv : a.fs.vol = v) (hd : a.fs.disk = d) (hslots : SlotsOk v a.ino)
    (hindex : blockIndex < 12) (hsrc : src ≠ []) (hfit : off + src.length ≤ 4096)
    (hblock : blockIndexToLbaAlloc a blockIndex = .ok (lba, a₁))
    (hstage : stage a₁.txn lba kindData (chunkBlock a₁.fs.disk lba off src) = .ok t') :
    ∃ fresh, Wrote v d (4096 * blockIndex + off) src a { a₁ with txn := t' } fresh ∧
      (slot a.ino blockIndex ≠ 0 → fresh = none) := by
  have hlen : 0 < src.length := length_pos_iff.mpr hsrc
  have honly : ∀ j, Covered (4096 * blockIndex + off) src.length j ↔ j = blockIndex := by
    intro j
    simp only [Covered]
    omega
  obtain ⟨fresh, hcounts, hino, rfl, hge, hfresh, hstaged₁, htargets⟩ :=
    directAlloc_spec hv hd hslots hindex hblock
  have hreg := v.regions
  rw [hcounts.disk_eq, hd] at hstage
  have hstaged := staged_stage (d := d) hstage (slot_lt _ _)
  refine ⟨fresh, ?_, ?_⟩
  · refine
      { counts := hcounts
        ino_eq := hino
        fresh_ok := ?_
        nonzero := ?_
        bytes := ?_
        bitmap := ?_
        frame := ?_
        targets := ?_ }
    · intro i b hib
      obtain ⟨rfl, hzero, hfree⟩ := hfresh i b hib
      exact ⟨hindex, (honly _).mpr rfl, hzero, hfree⟩
    · intro j _ hcov
      obtain rfl := (honly j).mp hcov
      change slot a₁.ino j ≠ 0
      omega
    · intro j _ hcov k hk
      obtain rfl := (honly j).mp hcov
      rw [hstaged, update_self, byte_chunkBlock d _ off src hk, Nat.add_sub_add_left]
      apply if_congr _ rfl rfl
      omega
    · intro x hx
      rw [hstaged, update_of_ne (by omega), hstaged₁ x (by omega)]
    · intro x hx hne
      have hxlba : x ≠ slot a₁.ino blockIndex := (hne blockIndex hindex ((honly _).mpr rfl)).symm
      rw [hstaged, update_of_ne hxlba, hstaged₁ x hxlba]
      cases fresh with
      | none => rfl
      | some p =>
        have hlt := v.bitmapLba_lt (mem_firstFree (hfresh p.1 p.2 rfl).2.2).2.1
        exact update_of_ne (by omega) _ _
    · intro x hx
      rw [targets_stage hstage (slot_lt _ _), mem_append, mem_singleton] at hx
      rcases hx.imp_left (htargets x) with (hx | hx | ⟨b, hb⟩) | hx
      · exact .inl hx
      · exact .inr (.inl ⟨blockIndex, hindex, (honly _).mpr rfl, hx⟩)
      · exact .inr (.inr ⟨blockIndex, b, hb⟩)
      · exact .inr (.inl ⟨blockIndex, hindex, (honly _).mpr rfl, hx⟩)
  · intro hnz
    cases fresh with
    | none => rfl
    | some p => exact absurd (hfresh p.1 p.2 rfl).2.1 hnz

lemma Wrote.append (blockIndex : ℕ) {rest : List UInt8} {f₁ f₂ : Option (ℕ × ℕ)}
    (h₁ : Wrote v d pos src a a₁ f₁) (h₂ : Wrote v d (4096 * (blockIndex + 1)) rest a₁ a₂ f₂)
    (hpos : 4096 * blockIndex ≤ pos) (hend : pos + src.length ≤ 4096 * (blockIndex + 1))
    (hsrc : src ≠ []) (hjoin : rest.length = 0 ∨ pos + src.length = 4096 * (blockIndex + 1))
    (hone : f₁ = none ∨ f₂ = none) (hslots : SlotsOk v a₂.ino) :
    Wrote v d pos (src ++ rest) a a₂ (f₁ <|> f₂) := by
  have hlen : 0 < src.length := length_pos_iff.mpr hsrc
  have hcov : ∀ j, Covered pos (src ++ rest).length j ↔
      Covered pos src.length j ∨ Covered (4096 * (blockIndex + 1)) rest.length j := by
    intro j
    simp only [Covered, length_append]
    omega
  have hnot : ∀ j, Covered pos src.length j → ¬Covered (4096 * (blockIndex + 1)) rest.length j := by
    intro j
    simp only [Covered]
    omega
  have hkept : ∀ j < 12, Covered pos src.length j → slot a₂.ino j = slot a₁.ino j :=
    fun j hj hj₁ => h₂.slot_of_not_covered hj (hnot j hj₁)
  have hnonzero : ∀ j < 12, Covered pos (src ++ rest).length j → slot a₂.ino j ≠ 0 := by
    intro j hj hj'
    rcases (hcov j).mp hj' with hj₁ | hj₂
    · rw [hkept j hj hj₁]
      exact h₁.nonzero j hj hj₁
    · exact h₂.nonzero j hj hj₂
  -- the later passes write blocks other than those of this one
  have hapart : ∀ j < 12, Covered pos src.length j →
      staged d a₂.txn (slot a₂.ino j) = staged d a₁.txn (slot a₂.ino j) := by
    intro j hj hj₁
    have hnz := hnonzero j hj ((hcov j).mpr (.inl hj₁))
    apply h₂.frame
    · have hge := (hslots.range j hj hnz).1
      have hreg := v.regions
      omega
    · intro i hi hi₂ heq
      obtain rfl := hslots.inj j hj i hi hnz heq.symm
      exact hnot j hj₁ hi₂
  refine
    { counts := CountsOnly.trans h₁.counts h₂.counts
      ino_eq := ?_
      fresh_ok := ?_
      nonzero := hnonzero
      bytes := ?_
      bitmap := ?_
      frame := ?_
      targets := ?_ }
  · rw [h₂.ino_eq, h₁.ino_eq]
    rcases hone with rfl | rfl
    · rfl
    · cases f₁ <;> rfl
  · intro i b hib
    rcases hone with rfl | rfl
    · obtain ⟨hi, hi₂, hzero, hfree⟩ := h₂.fresh_ok i b hib
      rw [h₁.ino_eq] at hzero
      exact ⟨hi, (hcov i).mpr (.inr hi₂), hzero, hfree⟩
    · cases f₁ with
      | none => cases hib
      | some p =>
        obtain ⟨hi, hi₁, hzero, hfree⟩ := h₁.fresh_ok i b hib
        exact ⟨hi, (hcov i).mpr (.inl hi₁), hzero, hfree⟩
  · intro j hj hj' k hk
    rcases (hcov j).mp hj' with hj₁ | hj₂
    · rw [hapart j hj hj₁, hkept j hj hj₁, h₁.bytes j hj hj₁ k hk]
      simp only [Covered] at hj₁
      by_cases hin : pos ≤ 4096 * j + k ∧ 4096 * j + k < pos + src.length
      · rw [if_pos hin, if_pos (by rw [length_append]; omega), getD_append _ _ _ _ (by omega)]
      · rw [if_neg hin, if_neg (by rw [length_append]; omega)]
    · rw [h₂.bytes j hj hj₂ k hk]
      simp only [Covered] at hj₂
      have hindex : 4096 * j + k - pos - src.length = 4096 * j + k - 4096 * (blockIndex + 1) := by
        omega
      by_cases hin : 4096 * (blockIndex + 1) ≤ 4096 * j + k ∧
          4096 * j + k < 4096 * (blockIndex + 1) + rest.length
      · rw [if_pos hin, if_pos (by rw [length_append]; omega),
          getD_append_right _ _ _ _ (by omega), hindex]
      · rw [if_neg hin, if_neg (by rw [length_append]; omega)]
  · intro x hx
    rw [h₂.bitmap x hx]
    rcases hone with rfl | rfl
    · exact markFresh_congr f₂ (h₁.bitmap x hx)
    · cases f₁ <;> exact h₁.bitmap x hx
  · intro x hx hne
    have hx₁ : ∀ j < 12, Covered pos src.length j → slot a₁.ino j ≠ x := by
      intro j hj hj₁
      rw [← hkept j hj hj₁]
      exact hne j hj ((hcov j).mpr (.inl hj₁))
    rw [h₂.frame x hx fun j hj hj₂ => hne j hj ((hcov j).mpr (.inr hj₂)), h₁.frame x hx hx₁]
  · intro x hx
    rcases h₂.targets x hx with hx | ⟨j, hj, hj₂, rfl⟩ | ⟨i, b, rfl, rfl⟩
    · rcases h₁.targets x hx with hx | ⟨j, hj, hj₁, rfl⟩ | ⟨i, b, rfl, rfl⟩
      · exact .inl hx
      · exact .inr (.inl ⟨j, hj, (hcov j).mpr (.inl hj₁), (hkept j hj hj₁).symm⟩)
      · exact .inr (.inr ⟨i, b, rfl, rfl⟩)
    · exact .inr (.inl ⟨j, hj, (hcov j).mpr (.inr hj₂), rfl⟩)
    · rcases hone with rfl | hnone
      · exact .inr (.inr ⟨i, b, rfl, rfl⟩)
      · cases hnone

/-- At most one block of the range has no block on the disk. -/
def AtMostOneFree (ino : Inode) (pos len : ℕ) : Prop :=
  ∀ i < 12, ∀ j < 12, Covered pos len i → Covered pos len j → slot ino i = 0 → slot ino j = 0 →
    i = j

/-- The loop over a range of direct blocks of which at most one is to be allocated. -/
theorem writeLoop_ok : ∀ (fuel : ℕ) {blockIndex off written : ℕ} {data : List UInt8} {a a' : Alloc},
    data.length ≤ fuel → off < 4096 → 4096 * blockIndex + off + data.length ≤ 4096 * 12 →
    a.fs.vol = v → a.fs.disk = d → SlotsOk v a.ino →
    AtMostOneFree a.ino (4096 * blockIndex + off) data.length →
    (∀ i < 12, Covered (4096 * blockIndex + off) data.length i → slot a.ino i = 0 →
      FreshApart v d a.ino) →
    writeLoop fuel blockIndex off written data a = .ok a' →
      ∃ fresh, Wrote v d (4096 * blockIndex + off) data a a' fresh := by
  intro fuel
  induction fuel with
  | zero =>
    intro blockIndex off written data a a' hfuel _ _ _ _ _ _ _ h
    obtain rfl := length_eq_zero_iff.mp (Nat.le_zero.mp hfuel)
    cases h
    exact ⟨none, Wrote.nil v d _ a⟩
  | succ fuel ih =>
    intro blockIndex off written data a a' hfuel hoff hend hv hd hslots hfree hapart h
    rw [writeLoop] at h
    by_cases hdata : data = []
    · rw [if_pos hdata] at h
      subst hdata
      cases h
      exact ⟨none, Wrote.nil v d _ a⟩
    rw [if_neg hdata] at h
    have hlen : 0 < data.length := length_pos_iff.mpr hdata
    have hindex : blockIndex < 12 := by omega
    cases hblock : blockIndexToLbaAlloc a blockIndex with
    | error fs₁ =>
      rw [hblock] at h
      cases h
    | ok r =>
    obtain ⟨lba, a₁⟩ := r
    rw [hblock] at h
    simp only at h
    obtain ⟨chunk, hchunk⟩ : ∃ chunk, chunk = min (blockSize - off) data.length := ⟨_, rfl⟩
    rw [← hchunk] at h
    simp only [blockSize] at hchunk
    cases hstage : stage a₁.txn lba kindData (chunkBlock a₁.fs.disk lba off (data.take chunk)) with
    | error rc =>
      rw [hstage] at h
      cases h
    | ok t₁ =>
    rw [hstage] at h
    simp only at h
    have htake : (data.take chunk).length = chunk := by
      rw [length_take]
      omega
    have hdrop : (data.drop chunk).length = data.length - chunk := length_drop
    have hsrc : data.take chunk ≠ [] := by
      apply length_pos_iff.mp
      omega
    obtain ⟨f₁, h₁, hnone⟩ := wrote_pass hv hd hslots hindex hsrc (by omega) hblock hstage
    have hcovered : ∀ i, Covered (4096 * blockIndex + off) (data.take chunk).length i →
        Covered (4096 * blockIndex + off) data.length i := by
      intro i
      simp only [Covered]
      omega
    have hslots₁ := h₁.slotsOk hslots fun i hi hcov hzero => hapart i hi (hcovered i hcov) hzero
    have hmod : (blockIndex + 1) % 2 ^ 32 = blockIndex + 1 := by omega
    rw [hmod] at h
    have hlater : ∀ i, Covered (4096 * (blockIndex + 1) + 0) (data.drop chunk).length i →
        Covered (4096 * blockIndex + off) data.length i ∧ i ≠ blockIndex ∧
          ¬Covered (4096 * blockIndex + off) (data.take chunk).length i := by
      intro i
      simp only [Covered]
      omega
    have hthis : Covered (4096 * blockIndex + off) data.length blockIndex := by
      simp only [Covered]
      omega
    -- a block that is still to be allocated is the only one
    have hsame : ∀ i < 12, Covered (4096 * (blockIndex + 1) + 0) (data.drop chunk).length i →
        slot a₁.ino i = 0 → f₁ = none ∧ a₁.ino = a.ino := by
      intro i hi hcov hzero
      obtain ⟨hcov', hne, hnot⟩ := hlater i hcov
      have hold : slot a₁.ino i = slot a.ino i := h₁.slot_of_not_covered hi hnot
      rw [hold] at hzero
      have hnz : slot a.ino blockIndex ≠ 0 := fun hz =>
        hne (hfree i hi blockIndex hindex hcov' hthis hzero hz)
      have hf₁ := hnone hnz
      have hino := h₁.ino_eq
      rw [hf₁] at hino
      exact ⟨hf₁, hino⟩
    have hfree₁ : AtMostOneFree a₁.ino (4096 * (blockIndex + 1) + 0) (data.drop chunk).length := by
      intro i hi j hj hci hcj hzi hzj
      obtain ⟨-, hino⟩ := hsame i hi hci hzi
      rw [hino] at hzi hzj
      exact hfree i hi j hj (hlater i hci).1 (hlater j hcj).1 hzi hzj
    have hapart₁ : ∀ i < 12, Covered (4096 * (blockIndex + 1) + 0) (data.drop chunk).length i →
        slot a₁.ino i = 0 → FreshApart v d a₁.ino := by
      intro i hi hci hzi
      obtain ⟨-, hino⟩ := hsame i hi hci hzi
      rw [hino] at hzi ⊢
      exact hapart i hi (hlater i hci).1 hzi
    obtain ⟨f₂, h₂⟩ := @ih (blockIndex + 1) 0 (written + chunk) (data.drop chunk)
      { a₁ with txn := t₁ } a' (by omega) (by omega) (by omega)
      (h₁.counts.vol_eq.trans hv) (h₁.counts.disk_eq.trans hd) hslots₁ hfree₁ hapart₁ h
    have hone : f₁ = none ∨ f₂ = none := by
      cases f₂ with
      | none => exact .inr rfl
      | some p =>
        obtain ⟨i, b⟩ := p
        obtain ⟨hi, hci, hzi, -⟩ := h₂.fresh_ok i b rfl
        exact .inl (hsame i hi hci hzi).1
    have hjoined := h₁.append blockIndex h₂ (by omega) (by omega) hsrc (by omega)
      hone (h₂.slotsOk hslots₁ hapart₁)
    rw [take_append_drop] at hjoined
    exact ⟨_, hjoined⟩

end GrahaOS.FsWrite
