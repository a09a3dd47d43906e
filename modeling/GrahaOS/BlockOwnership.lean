import GrahaOS.FormattedVolume

/-!
# Every block has one owner

A block of the data area can be a direct block of an inode, one of the pages of its block tree, a
block such a page points to, its metadata block, the header of a segment in use or a version record.
The bitmap is read from the disk, so a second allocation in one transaction returns the block of the
first; the segments take blocks of the same area and set no bit for their records. `Tame` excludes
both.
-/

namespace GrahaOS.BlockOwnership

open ByteFields DiskFormat VolumeFormat GrahaFs FsWrite FsInvariant FsCreate Option List
  FormattedVolume FsProgress Runs

/-- What a block of the data area can be used for. -/
inductive Owner
  | direct (n i : ℕ)
  | indirectPage (n : ℕ)
  | indirectSlot (n k : ℕ)
  | doublePage (n : ℕ)
  | midPage (n outer : ℕ)
  | doubleSlot (n outer inner : ℕ)
  | aiMetadata (n : ℕ)
  | segmentHeader (s : ℕ)
  | versionRecord (s k : ℕ)
deriving DecidableEq

/-- The first block of a segment that can hold a record: the blocks of the formatter's
directories come before the records of segment 0. -/
def firstRecord (s : ℕ) : ℕ := if s = 0 then 8 else 1

/-- The block that is used for a purpose, if one is; zero is no block. -/
def blockOf (fs : Fs) : Owner → Option ℕ
  | .direct n i => if n < inodeCountMax ∧ i < directBlocks then
      some (slot (fs.vol.inodeAt fs.disk n) i) else none
  | .indirectPage n => if n < inodeCountMax then
      some (inoIndirect.get (fs.vol.inodeAt fs.disk n)) else none
  | .indirectSlot n k => if n < inodeCountMax ∧ k < indirectPtrs then
      some (indirectLookup fs.disk (inoIndirect.get (fs.vol.inodeAt fs.disk n)) k) else none
  | .doublePage n => if n < inodeCountMax then
      some (inoDoubleIndirect.get (fs.vol.inodeAt fs.disk n)) else none
  | .midPage n outer => if n < inodeCountMax ∧ outer < indirectPtrs then
      some (indirectLookup fs.disk (inoDoubleIndirect.get (fs.vol.inodeAt fs.disk n)) outer)
      else none
  | .doubleSlot n outer inner =>
      if n < inodeCountMax ∧ outer < indirectPtrs ∧ inner < indirectPtrs then
        some (indirectLookup fs.disk (indirectLookup fs.disk
          (inoDoubleIndirect.get (fs.vol.inodeAt fs.disk n)) outer) inner)
      else none
  | .aiMetadata n => if n < inodeCountMax then
      some (inoAiMetadataBlock.get (fs.vol.inodeAt fs.disk n)) else none
  | .segmentHeader s => (fs.segments[s]?).bind fun seg =>
      if seg.state ≠ .free then some seg.firstBlock else none
  | .versionRecord s k => (fs.segments[s]?).bind fun seg =>
      if seg.state ≠ .free ∧ firstRecord s ≤ k ∧ k < seg.nextFreeBlockOffset / blockSize then
        some (seg.firstBlock + k)
      else none

/-- The block is used for this purpose. -/
def Owns (fs : Fs) (o : Owner) (b : ℕ) : Prop := blockOf fs o = some b ∧ b ≠ 0

/-- The calls within what the allocators can do: inodes of the table, writes within the
direct blocks with at most one block to allocate, and closes that record no version. -/
def Tame (fs : Fs) : FsOp → Prop
  | .create parent _ _ => parent < inodeCountMax
  | .write n offset data => n < inodeCountMax ∧ offset + data.length ≤ directBlocks * blockSize ∧
      AtMostOneFree (fs.vol.inodeAt fs.disk n) offset data.length
  | .close n _ => n < inodeCountMax ∧ emitsVersion (fs.vol.inodeAt fs.disk n) = false

variable {fs : Fs} {n b : ℕ} {o o' : Owner}

lemma close_idle (h : Inv fs) (hn : n < inodeCountMax)
    (hquiet : emitsVersion (fs.vol.inodeAt fs.disk n) = false) (env : Env) :
    Idle fs (grahafsV2Close env fs n) := by
  unfold grahafsV2Close
  cases hget : inodeCacheGet fs n with
  | none => exact Idle.refl _
  | some r =>
    obtain ⟨ino, fs₁⟩ := r
    obtain ⟨rfl, -, hidle⟩ := inodeCacheGet_some h hn hget
    dsimp only
    rw [hquiet]
    exact hidle

theorem inv_step (fs : Fs) (op : FsOp) (h : Inv fs) (hop : Tame fs op) : Inv (step fs op) := by
  cases op with
  | create parent name type =>
    rcases create_spec h hop name type with ⟨hidle, -⟩ | ⟨-, n, b, k, -, -, hinv⟩
    · exact hidle.inv h
    · exact hinv
  | write n offset data =>
    obtain ⟨hn, hend, hfree⟩ := hop
    rcases write_spec h hn hend hfree with ⟨hidle, -⟩ | ⟨-, -, fresh, -, hinv⟩
    · exact hidle.inv h
    · exact hinv
  | close n env => exact (close_idle h hop.1 hop.2 env).inv h

/-- What a call is to do to the volume; a tame close does nothing. -/
def Done (fs fs' : Fs) : FsOp → Prop
  | .create parent _ type => ∃ n b k, Created fs fs' parent n type b k
  | .write n offset data => ∃ fresh, Written fs fs' n offset data fresh
  | .close _ _ => False

lemma formatSegments_eq (v : Volume) :
    ∃ rest, formatSegments v = formatSegment v :: rest ∧ ∀ seg ∈ rest, seg.state = .free := by
  unfold formatSegments
  generalize range' 1 (v.segmentCountMax - 1) = ids
  refine ⟨_, rfl, ?_⟩
  intro seg hseg
  obtain ⟨i, -, rfl⟩ := mem_map.mp hseg
  rfl

lemma segment_inUse {v : Volume} {s : ℕ} {seg : Segment} (hget : (formatSegments v)[s]? = some seg)
    (hstate : seg.state ≠ .free) : s = 0 ∧ seg = formatSegment v := by
  obtain ⟨rest, hrest, hfree⟩ := formatSegments_eq v
  rw [hrest] at hget
  cases s with
  | zero =>
    rw [getElem?_cons_zero] at hget
    exact ⟨rfl, (some.inj hget).symm⟩
  | succ s =>
    rw [getElem?_cons_succ] at hget
    exact absurd (hfree seg (mem_of_getElem? hget)) hstate

/-- In a tidy volume without versions a block is a direct block or the first header. -/
lemma owns_cases (h : Inv fs) (hown : Owns fs o b) :
    (∃ n < inodeCountMax, ∃ i < 12, o = .direct n i ∧ slot (fs.vol.inodeAt fs.disk n) i = b) ∨
    (o = .segmentHeader 0 ∧ b = fs.vol.dataStart) := by
  obtain ⟨hblock, hnz⟩ := hown
  have hlookup : ∀ k, indirectLookup fs.disk 0 k = 0 := fun k => if_pos rfl
  cases o with
  | direct n i =>
    simp only [blockOf, ite_none_right_eq_some, some.injEq] at hblock
    obtain ⟨⟨hn, hi⟩, hslot⟩ := hblock
    exact .inl ⟨n, hn, i, hi, rfl, hslot⟩
  | indirectPage n | doublePage n | aiMetadata n =>
    simp only [blockOf, ite_none_right_eq_some, some.injEq] at hblock
    obtain ⟨hn, rfl⟩ := hblock
    obtain ⟨hind, hdouble, hai⟩ := h.tidy.pages n hn
    simp [hind, hdouble, hai] at hnz
  | indirectSlot n k | midPage n outer | doubleSlot n outer inner =>
    simp only [blockOf, ite_none_right_eq_some, some.injEq] at hblock
    obtain ⟨⟨hn, -⟩, rfl⟩ := hblock
    obtain ⟨hind, hdouble, -⟩ := h.tidy.pages n hn
    simp [hind, hdouble, hlookup] at hnz
  | segmentHeader s =>
    simp only [blockOf, h.segments, bind_eq_some_iff, ite_none_right_eq_some, some.injEq] at hblock
    obtain ⟨seg, hget, hstate, hfirst⟩ := hblock
    obtain ⟨rfl, rfl⟩ := segment_inUse hget hstate
    exact .inr ⟨rfl, hfirst.symm⟩
  | versionRecord s k =>
    simp only [blockOf, h.segments, bind_eq_some_iff, ite_none_right_eq_some, some.injEq] at hblock
    obtain ⟨seg, hget, ⟨hstate, hge, hlt⟩, -⟩ := hblock
    obtain ⟨rfl, rfl⟩ := segment_inUse hget hstate
    simp only [firstRecord, if_true, formatSegment, blockSize] at hge hlt
    omega

lemma owner_unique (h : Inv fs) (hown : Owns fs o b) (hown' : Owns fs o' b) : o = o' := by
  rcases owns_cases h hown with ⟨n, hn, i, hi, rfl, hslot⟩ | ⟨rfl, hb⟩
  · rcases owns_cases h hown' with ⟨m, hm, j, hj, rfl, hslot'⟩ | ⟨rfl, hb⟩
    · obtain ⟨rfl, rfl⟩ := h.tidy.inj n hn i hi m hm j hj (hslot ▸ hown.2) (hslot.trans hslot'.symm)
      rfl
    · have hgt := (h.tidy.slots n hn i hi (hslot ▸ hown.2)).1
      omega
  · rcases owns_cases h hown' with ⟨m, hm, j, hj, rfl, hslot'⟩ | ⟨rfl, -⟩
    · have hgt := (h.tidy.slots m hm j hj (hslot' ▸ hown'.2)).1
      omega
    · rfl

lemma owned_used (h : Inv fs) (hown : Owns fs o b) : Volume.used fs.disk b = true := by
  rcases owns_cases h hown with ⟨n, hn, i, hi, rfl, hslot⟩ | ⟨rfl, rfl⟩
  · rw [← hslot]
    exact (h.tidy.slots n hn i hi (hslot ▸ hown.2)).2.2
  · apply h.tidy.reserved
    simp only [formatUsed]
    omega

/-- In every state reached from a formatted volume by tame calls, no block is used for two
purposes, and every block in use has its bit set. -/
theorem blocks_have_one_marked_owner (v : Volume) (nowNs : ℕ) (old : ℕ → Block) {ops : List FsOp}
    (hok : Guarded step Tame (mountFormatted v nowNs old) ops) :
    (∀ o o' b, Owns (run step (mountFormatted v nowNs old) ops) o b →
      Owns (run step (mountFormatted v nowNs old) ops) o' b → o = o') ∧
    ∀ o b, Owns (run step (mountFormatted v nowNs old) ops) o b →
      Volume.used (run step (mountFormatted v nowNs old) ops).disk b = true := by
  have hinv := invariant_run Inv inv_step (inv_mountFormatted v nowNs old) hok
  exact ⟨fun o o' b hown hown' => owner_unique hinv hown hown',
    fun o b hown => owned_used hinv hown⟩

section OneFile

variable {v : Volume} {old : ℕ → Block}

lemma owns_direct {i : ℕ} (hvol : fs.vol = v) (hn : n < inodeCountMax) (hi : i < 12)
    (hslot : slot (v.inodeAt fs.disk n) i = b) (hnz : b ≠ 0) : Owns fs (.direct n i) b := by
  refine ⟨?_, hnz⟩
  simp only [blockOf, hvol, hslot]
  exact if_pos ⟨hn, hi⟩

/-- The first write to the first file gives it the first free block in every slot it covers. -/
lemma write_first (h : FirstFile v old fs) {data : List UInt8} (hdata : data ≠ [])
    (hlen : data.length ≤ 4096 * 12) :
    (grahafsV2Write fs 8 0 data).1 = data.length ∧ (grahafsV2Write fs 8 0 data).2.vol = v ∧
      (grahafsV2Write fs 8 0 data).2.cache.length < 3 ∧
      ∀ i < 12, Covered 0 data.length i →
        Owns (grahafsV2Write fs 8 0 data).2 (.direct 8 i) (v.dataStart + 8) := by
  have hn : 8 < inodeCountMax := by decide
  obtain ⟨hinv, rfl, hinode, hfree, hroom, -⟩ := h
  obtain ⟨hrc, hfilled⟩ := @write_fills fs 8 (fs.vol.dataStart + 8) hinv hn 0 data
    (hinode ▸ freshInode_magic .file 0) (hinode ▸ freshInode_type .file 0)
    (by simp only [inodeCacheSlots]; omega) hfree hdata (by omega)
  have hcache := hfilled.cache_le
  refine ⟨hrc, hfilled.vol_eq, by omega, fun i hi hcov => owns_direct rfl hn hi ?_ (by omega)⟩
  rw [hfilled.slots i hi, hinode]
  have hempty : slot (freshInode .file 0) i = 0 := by
    rw [slot_freshInode hi (by decide)]
    simp [firstBlock]
  rw [if_pos ⟨hcov, hempty⟩]

/-- The version record of the first close goes to the block of the file. -/
lemma close_first (h : FirstFile v old fs) (x : UInt8) (env : Env) :
    Owns (grahafsV2Close env (grahafsV2Write fs 8 0 [x]).2 8) (.direct 8 0) (v.dataStart + 8) ∧
    Owns (grahafsV2Close env (grahafsV2Write fs 8 0 [x]).2 8) (.versionRecord 0 8)
      (v.dataStart + 8) := by
  have hn : 8 < inodeCountMax := by decide
  obtain ⟨hrc, hvol, hcache, howns⟩ := write_first h (cons_ne_nil x []) (by simp)
  obtain ⟨hinv, rfl, hinode, -, -, -⟩ := h
  have hone : AtMostOneFree (fs.vol.inodeAt fs.disk 8) 0 [x].length := by
    intro i hi j hj hci hcj _ _
    simp only [Covered, length_singleton] at hci hcj
    omega
  rcases write_spec hinv hn (by simp) hone with ⟨-, hbad⟩ | ⟨-, -, fresh, hwritten, hdone⟩
  · exact absurd (hbad hrc) (cons_ne_nil x [])
  generalize (grahafsV2Write fs 8 0 [x]).2 = fs' at hvol hcache howns hwritten hdone ⊢
  have hfresh : ∀ i b, fresh = some (i, b) → i < 12 := fun i b hib => (hwritten.fresh_ok i b hib).1
  have hfile := hwritten.inodes 8 hn
  rw [if_pos rfl, hinode] at hfile
  have hmagic : inoMagic.get (fs'.vol.inodeAt fs'.disk 8) = inodeMagic := by
    rw [hfile, get_writtenInode (by decide) (by decide) (by decide),
      get_grow (by decide) fresh hfresh]
    exact freshInode_magic .file 0
  have hemits : emitsVersion (fs'.vol.inodeAt fs'.disk 8) = true := by
    have htype : inoType.get (fs'.vol.inodeAt fs'.disk 8) = typeFile := by
      rw [hfile, get_writtenInode (by decide) (by decide) (by decide),
        get_grow (by decide) fresh hfresh]
      exact freshInode_type .file 0
    have hsize : inoSize.get (fs'.vol.inodeAt fs'.disk 8) ≠ 0 := by
      rw [hfile, size_writtenInode (by simp)]
      simp
    simp [emitsVersion, htype, hsize]
  obtain ⟨hvol', hsegment, hslots⟩ := close_records hdone hn hmagic hemits
    (by simp only [inodeCacheSlots]; omega) env
  have hnz : fs.vol.dataStart + 8 ≠ 0 := by omega
  refine ⟨owns_direct (hvol'.trans hvol) hn (by decide) ?_ hnz, ?_, hnz⟩
  · have hslot := howns 0 (by decide) (by simp [Covered])
    simp only [Owns, blockOf, hvol, ite_none_right_eq_some, some.injEq] at hslot
    rw [← hvol, hslots 0 (by decide), hvol]
    exact hslot.1.2
  · simp only [blockOf, hsegment, hvol, bind_some]
    rw [if_pos (by simp [recordedSegment, formatSegment, firstRecord, blockSize])]
    rfl

end OneFile

/-- The smallest volume, with zeros in its free blocks. -/
def smallVolume : Volume := ⟨51204, by decide, by decide⟩

def newVolume : Fs := mountFormatted smallVolume 0 fun _ => zeros blockSize

/-- Create a file "a" in the root directory. -/
def createFile : FsOp := .create 1 [97] .file

variable (fs)

lemma step_create (parent : ℕ) (name : List UInt8) (type : NodeType) :
    step fs (.create parent name type) = (grahafsV2Create fs parent name type).2 := rfl

lemma run_write (op : FsOp) (n offset : ℕ) (data : List UInt8) :
    run step fs [op, .write n offset data] = (grahafsV2Write (step fs op) n offset data).2 := rfl

lemma run_write_close (op : FsOp) (n offset m : ℕ) (data : List UInt8) (env : Env) :
    run step fs [op, .write n offset data, .close m env] =
      grahafsV2Close env (grahafsV2Write (step fs op) n offset data).2 m := rfl

lemma perform_write (n offset : ℕ) (data : List UInt8) :
    perform fs (.write n offset data) = grahafsV2Write fs n offset data := rfl

lemma createFile_succeeds : (perform newVolume createFile).1 = 0 := by
  rw [createFile, perform, newVolume]
  exact (create_first smallVolume 0 (fun _ => zeros blockSize) (by decide)).1

lemma firstFile_newVolume :
    FirstFile smallVolume (fun _ => zeros blockSize) (step newVolume createFile) := by
  rw [createFile, step_create, newVolume]
  exact (create_first smallVolume 0 (fun _ => zeros blockSize) (by decide)).2

/-- A file of one byte, written at once, has its block for itself. -/
theorem one_byte_file_owns_its_block :
    Guarded step Tame newVolume [createFile, .write 8 0 [1]] ∧
    Owns (run step newVolume [createFile, .write 8 0 [1]]) (.direct 8 0)
      (smallVolume.dataStart + 8) ∧
    Volume.used (run step newVolume [createFile, .write 8 0 [1]]).disk
      (smallVolume.dataStart + 8) = true ∧
    ∀ o, Owns (run step newVolume [createFile, .write 8 0 [1]]) o (smallVolume.dataStart + 8) →
      o = .direct 8 0 := by
  have hok : Guarded step Tame newVolume [createFile, .write 8 0 [1]] := by
    rw [guarded_cons, guarded_cons]
    refine ⟨show 1 < 16384 by decide, ⟨by decide, by decide, ?_⟩, guarded_nil _ _ _⟩
    intro i hi j hj hci hcj _ _
    simp only [Covered, length_singleton] at hci hcj
    omega
  have hown : Owns (run step newVolume [createFile, .write 8 0 [1]]) (.direct 8 0)
      (smallVolume.dataStart + 8) := by
    rw [run_write]
    exact (write_first firstFile_newVolume (cons_ne_nil 1 []) (by simp)).2.2.2 0
      (by decide) (by simp [Covered])
  obtain ⟨hunique, hused⟩ := blocks_have_one_marked_owner smallVolume 0 (fun _ => zeros blockSize) hok
  exact ⟨hok, hown, hused _ _ hown, fun o ho => hunique _ _ _ ho hown⟩

/-- A write of two blocks to a new file puts one block in both slots. A close after a write
of one byte puts the version record in the block of the file. -/
theorem two_holes_or_a_version_share_a_block :
    (perform newVolume createFile).1 = 0 ∧
    ((perform (step newVolume createFile) (.write 8 0 (List.replicate 8192 1))).1 = 8192 ∧
      Owns (run step newVolume [createFile, .write 8 0 (List.replicate 8192 1)]) (.direct 8 0)
        (smallVolume.dataStart + 8) ∧
      Owns (run step newVolume [createFile, .write 8 0 (List.replicate 8192 1)]) (.direct 8 1)
        (smallVolume.dataStart + 8)) ∧
    (perform (step newVolume createFile) (.write 8 0 [1])).1 = 1 ∧
      Owns (run step newVolume [createFile, .write 8 0 [1], .close 8 ⟨fun _ => 0, 0⟩]) (.direct 8 0)
        (smallVolume.dataStart + 8) ∧
      Owns (run step newVolume [createFile, .write 8 0 [1], .close 8 ⟨fun _ => 0, 0⟩])
        (.versionRecord 0 8) (smallVolume.dataStart + 8) := by
  have htwo : (replicate 8192 (1 : UInt8)).length = 8192 := length_replicate
  generalize replicate 8192 (1 : UInt8) = data at htwo ⊢
  have hdata : data ≠ [] := by
    apply length_pos_iff.mp
    omega
  obtain ⟨hrc, -, -, howns⟩ := write_first firstFile_newVolume hdata (by omega)
  obtain ⟨hrc', -, -, -⟩ := write_first firstFile_newVolume (cons_ne_nil 1 []) (by simp)
  rw [run_write, run_write_close, perform_write, perform_write]
  refine ⟨createFile_succeeds, ⟨?_, ?_, ?_⟩, hrc', close_first firstFile_newVolume 1 _⟩
  · rw [hrc, htwo]
    rfl
  · apply howns 0 (by decide)
    simp only [Covered]
    omega
  · apply howns 1 (by decide)
    simp only [Covered]
    omega

end GrahaOS.BlockOwnership
