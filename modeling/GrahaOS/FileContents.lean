import GrahaOS.BlockOwnership
import GrahaOS.ByteFiles

/-!
# Reads return what was written

A run is traced: next to the volume goes, for each inode, the byte array that the calls so far have
written. A block that a write allocates and covers only in part has to hold zeros already: the write
fills the rest from the disk, where the old contents of the block still are, and not from the zeros
that are staged for it.
-/

namespace GrahaOS.FileContents

open ByteFields DiskFormat VolumeFormat GrahaFs FsStaging FsWrite FsInvariant FsCreate
  FormattedVolume FsProgress BlockOwnership ByteFiles Runs Function List

variable {d : ℕ → Block} {fs fs' : Fs} {n k i : ℕ} {ino : Inode} {files : ℕ → ByteFile}

/-- The byte of a file at a position in the direct blocks. -/
def content (d : ℕ → Block) (ino : Inode) (pos : ℕ) : UInt8 :=
  if slot ino (pos / 4096) = 0 then 0 else byte (d (slot ino (pos / 4096))) (pos % 4096)

lemma content_of_block (hk : k < 4096) :
    content d ino (4096 * i + k) = if slot ino i = 0 then 0 else byte (d (slot ino i)) k := by
  have hdiv : (4096 * i + k) / 4096 = i := by omega
  have hmod : (4096 * i + k) % 4096 = k := by omega
  rw [content, hdiv, hmod]

lemma readLoop_eq : ∀ (fuel : ℕ) {blockIndex off remaining : ℕ}, remaining ≤ fuel → off < 4096 →
    4096 * blockIndex + off + remaining ≤ 4096 * 12 →
    readLoop d ino fuel blockIndex off remaining =
      (List.range remaining).map fun k => content d ino (4096 * blockIndex + off + k) := by
  intro fuel
  induction fuel with
  | zero =>
    intro blockIndex off remaining hfuel _ _
    obtain rfl := Nat.le_zero.mp hfuel
    rfl
  | succ fuel ih =>
  intro blockIndex off remaining hfuel hoff hend
  rw [readLoop]
  by_cases hzero : remaining = 0
  · rw [if_pos hzero, hzero]
    rfl
  rw [if_neg hzero]
  generalize hchunk : min (blockSize - off) remaining = chunk
  simp only [blockSize] at hchunk
  have hmod : (blockIndex + 1) % 2 ^ 32 = blockIndex + 1 := Nat.mod_eq_of_lt (by omega)
  have hlba : blockIndexToLba d ino blockIndex = slot ino blockIndex :=
    if_pos (show blockIndex < 12 by omega)
  have hsplit : remaining = chunk + (remaining - chunk) := by omega
  dsimp only
  rw [hmod, hlba, ih (by omega) (by decide) (by omega)]
  nth_rewrite 2 [hsplit]
  rw [range_add, map_append, map_map]
  congr 1
  · apply map_congr_left
    intro k hk
    have hlt := mem_range.mp hk
    rw [Nat.add_assoc, content_of_block (by omega)]
  · apply map_congr_left
    intro k hk
    have hlt := mem_range.mp hk
    dsimp only [comp]
    congr 1
    omega

/-- A read of a file within its direct blocks. -/
theorem read_content (hcoherent : Coherent fs.vol fs.disk fs.cache)
    (hmagic : inoMagic.get (fs.vol.inodeAt fs.disk n) = inodeMagic)
    (htype : inoType.get (fs.vol.inodeAt fs.disk n) = typeFile)
    (hcrc : inodeCrcOk (fs.vol.inodeAt fs.disk n) = true)
    (hsize : inoSize.get (fs.vol.inodeAt fs.disk n) ≤ 4096 * 12)
    (hroom : fs.cache.length < inodeCacheSlots ∨ ∃ e ∈ fs.cache, e.inodeNum = n)
    {offset count : ℕ} (hwrap : offset + count < 2 ^ 64) :
    (grahafsV2Read fs n offset count).1 = .ok ((List.range
      (min count (inoSize.get (fs.vol.inodeAt fs.disk n) - offset))).map fun k =>
        content fs.disk (fs.vol.inodeAt fs.disk n) (offset + k)) := by
  unfold grahafsV2Read
  by_cases hcount : count = 0
  · rw [if_pos hcount, hcount, Nat.zero_min]
    rfl
  rw [if_neg hcount]
  obtain ⟨fs₁, hget, hdisk, -⟩ := inodeCacheGet_succeeds hcoherent hmagic hcrc hroom
  rw [hget]
  dsimp only
  rw [if_neg fun hand => hand.1 htype]
  generalize fs.vol.inodeAt fs.disk n = ino at hsize ⊢
  by_cases hbeyond : inoSize.get ino ≤ offset
  · have hnone : min count (inoSize.get ino - offset) = 0 := by omega
    rw [if_pos hbeyond, hnone]
    rfl
  rw [if_neg hbeyond]
  have htoRead : (if inoSize.get ino < (offset + count) % 2 ^ 64 then inoSize.get ino - offset
      else count) = min count (inoSize.get ino - offset) := by
    rw [Nat.mod_eq_of_lt hwrap]
    split_ifs <;> omega
  have hpos := @position_eq offset (by omega)
  have hoff : offset % blockSize < 4096 := Nat.mod_lt _ (by decide)
  rw [htoRead, hdisk, readLoop_eq _ le_rfl hoff (by omega), hpos]

/-- The byte arrays after a call: a create starts an empty one in the inode it takes, and a
write that reports all its bytes writes into the one of its inode. -/
def record (fs : Fs) (files : ℕ → ByteFile) : FsOp → ℕ → ByteFile
  | .create parent name type =>
    if (grahafsV2Create fs parent name type).1 = 0 then
      match firstFreeInode fs.vol fs.disk with
      | some n => Function.update files n ByteFile.empty
      | none => files
    else files
  | .write n offset data =>
    if (grahafsV2Write fs n offset data).1 = data.length then
      Function.update files n ((files n).write offset data)
    else files
  | .close _ _ => files

/-- A step of the volume with the byte arrays next to it. -/
def tracedStep (s : Fs × (ℕ → ByteFile)) (op : FsOp) : Fs × (ℕ → ByteFile) :=
  (step s.1 op, record s.1 s.2 op)

lemma run_tracedStep_fst (s : Fs × (ℕ → ByteFile)) (ops : List FsOp) :
    (run tracedStep s ops).1 = run step s.1 ops := by
  induction ops generalizing s with
  | nil => rfl
  | cons op ops ih => exact ih _

/-- The block that a write may allocate holds zeros where the write does not cover it. -/
def Clean (fs : Fs) : FsOp → Prop
  | .write n offset data => ∀ i < 12, Covered offset data.length i →
      slot (fs.vol.inodeAt fs.disk n) i = 0 → ∀ b, firstFree fs.vol fs.disk = some b →
      ∀ k < 4096, ¬(offset ≤ 4096 * i + k ∧ 4096 * i + k < offset + data.length) →
        byte (fs.disk b) k = 0
  | _ => True

def tracedOk (s : Fs × (ℕ → ByteFile)) (op : FsOp) : Prop := Tame s.1 op ∧ Clean s.1 op

/-- The inode is one of a regular file. -/
def IsFile (fs : Fs) (n : ℕ) : Prop :=
  inoMagic.get (fs.vol.inodeAt fs.disk n) = inodeMagic ∧
    inoType.get (fs.vol.inodeAt fs.disk n) = typeFile

/-- The blocks of every file hold its byte array. -/
def Agrees (fs : Fs) (files : ℕ → ByteFile) : Prop :=
  ∀ n < inodeCountMax, IsFile fs n →
    inoSize.get (fs.vol.inodeAt fs.disk n) = (files n).size ∧ (files n).size ≤ 4096 * 12 ∧
      ∀ i < 12, ∀ k < 4096, content fs.disk (fs.vol.inodeAt fs.disk n) (4096 * i + k) =
        (files n).bytes (4096 * i + k)

lemma Agrees.of_idle (h : Agrees fs files) (hidle : Idle fs fs') : Agrees fs' files := by
  intro n hn hfile
  simp only [IsFile, hidle.vol_eq, hidle.disk_eq] at hfile ⊢
  exact h n hn hfile

lemma content_congr {d' : ℕ → Block} (hk : k < 4096)
    (h : slot ino i ≠ 0 → d' (slot ino i) = d (slot ino i)) :
    content d' ino (4096 * i + k) = content d ino (4096 * i + k) := by
  rw [content_of_block hk, content_of_block hk]
  split_ifs with hzero
  · rfl
  · rw [h hzero]

lemma agrees_create {parent b : ℕ} {type : NodeType} (h : Agrees fs files) (hinv : Inv fs)
    (hparent : parent < inodeCountMax) (hcreated : Created fs fs' parent n type b k) :
    Agrees fs' (update files n ByteFile.empty) := by
  intro m hm hfile
  have hinode := hcreated.inodes m hm
  by_cases hmp : m = parent
  · -- The parent is a directory.
    have htype := hfile.2
    rw [hinode, if_pos hmp, get_enteredInode (by decide) (by decide), hcreated.type_eq] at htype
    cases htype
  rw [if_neg hmp] at hinode
  by_cases hmn : m = n
  · subst hmn
    rw [if_pos rfl] at hinode
    have htype := hfile.2
    rw [hinode, freshInode_type] at htype
    cases type with
    | directory => cases htype
    | file =>
    rw [update_self, hinode]
    refine ⟨freshInode_file_size b, Nat.zero_le _, ?_⟩
    intro i hi k hk
    have hhole : slot (freshInode .file b) i = 0 := by
      rw [show freshInode .file b = freshInode .file 0 from rfl, slot_freshInode hi (by decide)]
      simp [firstBlock]
    rw [content_of_block hk, if_pos hhole]
    rfl
  · rw [if_neg hmn] at hinode
    rw [update_of_ne hmn, hinode]
    have hfile' : IsFile fs m := by
      simp only [IsFile, hinode] at hfile
      exact hfile
    obtain ⟨hsize, hle, hcontent⟩ := h m hm hfile'
    refine ⟨hsize, hle, ?_⟩
    intro i hi k hk
    rw [← hcontent i hi k hk]
    apply content_congr hk
    intro hnz
    apply hcreated.frame _ (hinv.tidy.slots m hm i hi hnz).1.le
    · intro heq
      exact hmp (hinv.tidy.inj m hm i hi parent hparent 0 (by decide) hnz heq).1
    · intro hdir heq
      obtain ⟨hge, -, hunused⟩ := mem_firstFree (hcreated.block hdir)
      exact (hinv.tidy.fresh hge hunused).2 m hm i hi heq

section Write

variable {offset i m : ℕ} {data : List UInt8} {fresh : Option (ℕ × ℕ)}

lemma written_kept (hinv' : Inv fs') (hn : n < inodeCountMax)
    (hwritten : Written fs fs' n offset data fresh) (hm : m < inodeCountMax) (hi : i < 12)
    (hnz : slot (fs'.vol.inodeAt fs'.disk m) i ≠ 0)
    (hother : m = n → ¬Covered offset data.length i) :
    fs'.disk (slot (fs'.vol.inodeAt fs'.disk m) i) =
      fs.disk (slot (fs'.vol.inodeAt fs'.disk m) i) := by
  apply hwritten.frame
  · rw [← hwritten.vol_eq]
    exact (hinv'.tidy.slots m hm i hi hnz).1.le
  · intro j hj hcov heq
    have hslot : slot (fs'.vol.inodeAt fs'.disk n) j =
        slot (grow fresh (fs.vol.inodeAt fs.disk n)) j := by
      rw [hwritten.inodes n hn, if_pos rfl, slot_writtenInode hj]
    obtain ⟨hmn, rfl⟩ := hinv'.tidy.inj m hm i hi n hn j hj hnz (heq.symm.trans hslot.symm)
    exact hother hmn hcov

lemma slot_written (hn : n < inodeCountMax) (hwritten : Written fs fs' n offset data fresh)
    (hi : i < 12) :
    slot (fs'.vol.inodeAt fs'.disk n) i = slot (fs.vol.inodeAt fs.disk n) i ∨
    (Covered offset data.length i ∧ slot (fs.vol.inodeAt fs.disk n) i = 0 ∧
      firstFree fs.vol fs.disk = some (slot (fs'.vol.inodeAt fs'.disk n) i)) := by
  rw [hwritten.inodes n hn, if_pos rfl, slot_writtenInode hi]
  have hfresh : ∀ i b, fresh = some (i, b) → i < 12 ∧ b < 2 ^ 32 := by
    intro i b hib
    obtain ⟨hi, -, -, hfree⟩ := hwritten.fresh_ok i b hib
    exact ⟨hi, (mem_firstFree hfree).2.1.trans fs.vol.total_lt_word⟩
  rcases slot_grow_cases hi hfresh (fs.vol.inodeAt fs.disk n) with hsame | ⟨b, hib, heq⟩
  · exact .inl hsame
  · obtain ⟨-, hcov, hzero, hfree⟩ := hwritten.fresh_ok i b hib
    rw [heq]
    exact .inr ⟨hcov, hzero, hfree⟩

lemma content_written (hinv' : Inv fs') (hn : n < inodeCountMax)
    (hclean : Clean fs (.write n offset data)) (hwritten : Written fs fs' n offset data fresh)
    (hi : i < 12) (hk : k < 4096) :
    content fs'.disk (fs'.vol.inodeAt fs'.disk n) (4096 * i + k) =
      if offset ≤ 4096 * i + k ∧ 4096 * i + k < offset + data.length then
        data.getD (4096 * i + k - offset) 0
      else content fs.disk (fs.vol.inodeAt fs.disk n) (4096 * i + k) := by
  have hslots := slot_written hn hwritten hi
  have hgrown : slot (fs'.vol.inodeAt fs'.disk n) i =
      slot (grow fresh (fs.vol.inodeAt fs.disk n)) i := by
    rw [hwritten.inodes n hn, if_pos rfl, slot_writtenInode hi]
  by_cases hcov : Covered offset data.length i
  · have hnz := hwritten.nonzero i hi hcov
    rw [content_of_block hk, hgrown, if_neg hnz, hwritten.bytes i hi hcov k hk]
    by_cases hin : offset ≤ 4096 * i + k ∧ 4096 * i + k < offset + data.length
    · rw [if_pos hin, if_pos hin]
    rw [if_neg hin, if_neg hin, content_of_block hk]
    rcases hslots with hsame | ⟨-, hzero, hfree⟩
    · rw [← hgrown, hsame, if_neg]
      rw [← hsame, hgrown]
      exact hnz
    · -- The rest of a new block is what the disk held.
      rw [if_pos hzero, ← hgrown]
      exact hclean i hi hcov hzero _ hfree k hk hin
  · have hout : ¬(offset ≤ 4096 * i + k ∧ 4096 * i + k < offset + data.length) := by
      simp only [Covered] at hcov
      omega
    have hsame : slot (fs'.vol.inodeAt fs'.disk n) i = slot (fs.vol.inodeAt fs.disk n) i := by
      rcases hslots with hsame | ⟨hcov', -, -⟩
      · exact hsame
      · exact absurd hcov' hcov
    rw [if_neg hout, content_of_block hk, content_of_block hk]
    by_cases hzero : slot (fs'.vol.inodeAt fs'.disk n) i = 0
    · rw [if_pos hzero, if_pos (hsame ▸ hzero)]
    · rw [if_neg hzero, if_neg (hsame ▸ hzero),
        written_kept hinv' hn hwritten hn hi hzero fun _ => hcov, hsame]

lemma isFile_written (hn : n < inodeCountMax) (hwritten : Written fs fs' n offset data fresh)
    (hm : m < inodeCountMax) (hfile : IsFile fs' m) : IsFile fs m := by
  have hinode := hwritten.inodes m hm
  by_cases hmn : m = n
  · subst hmn
    have hfresh : ∀ i b, fresh = some (i, b) → i < 12 := fun i b hib => (hwritten.fresh_ok i b hib).1
    simp only [IsFile, hinode, if_pos] at hfile
    rw [get_writtenInode (by decide) (by decide) (by decide), get_grow (by decide) fresh hfresh,
      get_writtenInode (by decide) (by decide) (by decide), get_grow (by decide) fresh hfresh] at hfile
    exact hfile
  · rw [if_neg hmn] at hinode
    simp only [IsFile, hinode] at hfile
    exact hfile

lemma agrees_write (h : Agrees fs files) (hinv' : Inv fs') (hn : n < inodeCountMax)
    (hdata : data ≠ []) (hend : offset + data.length ≤ 4096 * 12)
    (hclean : Clean fs (.write n offset data)) (hwritten : Written fs fs' n offset data fresh) :
    Agrees fs' (update files n ((files n).write offset data)) := by
  intro m hm hfile
  obtain ⟨hsize, hle, hcontent⟩ := h m hm (isFile_written hn hwritten hm hfile)
  by_cases hmn : m = n
  · subst hmn
    have hfresh : ∀ i b, fresh = some (i, b) → i < 12 := fun i b hib => (hwritten.fresh_ok i b hib).1
    rw [update_self, ByteFile.size_write hdata]
    refine ⟨?_, by omega, ?_⟩
    · rw [hwritten.inodes m hm, if_pos rfl, size_writtenInode (by omega),
        get_grow (by decide) fresh hfresh, hsize]
    · intro i hi k hk
      rw [content_written hinv' hm hclean hwritten hi hk, ByteFile.bytes_write, hcontent i hi k hk]
  · have hinode := hwritten.inodes m hm
    rw [if_neg hmn] at hinode
    rw [update_of_ne hmn, hinode]
    refine ⟨hsize, hle, ?_⟩
    intro i hi k hk
    rw [← hcontent i hi k hk]
    apply content_congr hk
    intro hnz
    rw [← hinode] at hnz ⊢
    exact written_kept hinv' hn hwritten hm hi hnz fun hmn' => absurd hmn' hmn

end Write

/-- What holds along a traced run. -/
def TracedInv (s : Fs × (ℕ → ByteFile)) : Prop := Inv s.1 ∧ Agrees s.1 s.2

lemma tracedInv_step (s : Fs × (ℕ → ByteFile)) (op : FsOp) (h : TracedInv s) (hop : tracedOk s op) :
    TracedInv (tracedStep s op) := by
  obtain ⟨fs, files⟩ := s
  obtain ⟨hinv, hagrees⟩ := h
  obtain ⟨htame, hclean⟩ := hop
  refine ⟨inv_step fs op hinv htame, ?_⟩
  dsimp only [tracedStep]
  cases op with
  | create parent name type =>
    rcases create_spec hinv htame name type with ⟨hidle, hneg⟩ | ⟨hrc, n, b, k, hfree, hcreated, -⟩
    · rw [record, if_neg (ne_of_lt hneg)]
      exact hagrees.of_idle hidle
    · rw [record, if_pos hrc, hfree]
      exact agrees_create hagrees hinv htame hcreated
  | write n offset data =>
    obtain ⟨hn, hend, hone⟩ := htame
    have hinv' := inv_step fs (.write n offset data) hinv ⟨hn, hend, hone⟩
    rcases write_spec hinv hn hend hone with ⟨hidle, hrc⟩ | ⟨hrc, hdata, fresh, hwritten, -⟩
    · rw [record]
      split_ifs with hall
      · rw [hrc hall, ByteFile.write_nil, update_eq_self]
        exact hagrees.of_idle (hrc hall ▸ hidle)
      · exact hagrees.of_idle hidle
    · rw [record, if_pos hrc]
      exact agrees_write hagrees hinv' hn hdata hend hclean hwritten
  | close n env => exact hagrees.of_idle (close_idle hinv htame.1 htame.2 env)

lemma not_isFile_mountFormatted (v : Volume) (nowNs : ℕ) (old : ℕ → Block) (hn : n < inodeCountMax) :
    ¬IsFile (mountFormatted v nowNs old) n := by
  rintro ⟨hmagic, htype⟩
  have hinode : (mountFormatted v nowNs old).vol.inodeAt (mountFormatted v nowNs old).disk n =
      v.inodeAt (format v nowNs old) n := inodeAt_mount v nowNs old hn
  rw [hinode] at hmagic htype
  rcases inodeAt_format_cases v nowNs old hn with hzero | ⟨-, -, count, hdir⟩
  · rw [hzero, Field.get_zeros] at hmagic
    cases hmagic
  · rw [hdir, initDirInode_type] at htype
    cases htype

lemma read_of_agrees (hinv : Inv fs) (hagrees : Agrees fs files) (hn : n < inodeCountMax)
    (hfile : IsFile fs n)
    (hroom : fs.cache.length < inodeCacheSlots ∨ ∃ e ∈ fs.cache, e.inodeNum = n)
    {offset count : ℕ} (hwrap : offset + count < 2 ^ 64) :
    (grahafsV2Read fs n offset count).1 = .ok ((files n).read offset count) := by
  obtain ⟨hsize, hle, hcontent⟩ := hagrees n hn hfile
  rw [read_content hinv.coherent hfile.1 hfile.2 (hinv.tidy.crc n hn hfile.1) (by omega) hroom hwrap,
    hsize, ByteFile.read]
  apply congrArg
  apply map_congr_left
  intro k hk
  have hlt := mem_range.mp hk
  have hpos : offset + k = 4096 * ((offset + k) / 4096) + (offset + k) % 4096 := by omega
  rw [hpos]
  exact hcontent _ (by omega) _ (Nat.mod_lt _ (by decide))

/-- In every state reached from a formatted volume by tame calls that allocate clean blocks,
a read of a file returns the range of the byte array that was written. -/
theorem reads_return_what_was_written (v : Volume) (nowNs : ℕ) (old : ℕ → Block) {ops : List FsOp}
    (hok : Guarded tracedStep tracedOk (mountFormatted v nowNs old, fun _ => ByteFile.empty) ops)
    {fs : Fs} {files : ℕ → ByteFile}
    (hreached : run tracedStep (mountFormatted v nowNs old, fun _ => ByteFile.empty) ops = (fs, files))
    {n offset count : ℕ} (hn : n < inodeCountMax) (hfile : IsFile fs n)
    (hroom : fs.cache.length < inodeCacheSlots ∨ ∃ e ∈ fs.cache, e.inodeNum = n)
    (hwrap : offset + count < 2 ^ 64) :
    (grahafsV2Read fs n offset count).1 = .ok ((files n).read offset count) := by
  have hstart : TracedInv (mountFormatted v nowNs old, fun _ => ByteFile.empty) :=
    ⟨inv_mountFormatted v nowNs old,
      fun n hn hfile => absurd hfile (not_isFile_mountFormatted v nowNs old hn)⟩
  have htraced := invariant_run TracedInv tracedInv_step hstart hok
  rw [hreached] at htraced
  exact read_of_agrees htraced.1 htraced.2 hn hfile hroom hwrap

section OneFile

variable {v : Volume} {old : ℕ → Block} {offset : ℕ} {data : List UInt8}

lemma traced_first {nowNs : ℕ}
    (hrc : (grahafsV2Write (step (mountFormatted v nowNs old) createFile) 8 offset data).1 =
      data.length)
    (hrun : run tracedStep (mountFormatted v nowNs old, fun _ => ByteFile.empty)
      [createFile, .write 8 offset data] = (fs, files)) :
    fs = (grahafsV2Write (step (mountFormatted v nowNs old) createFile) 8 offset data).2 ∧
      files 8 = ByteFile.empty.write offset data := by
  have hcreate : (grahafsV2Create (mountFormatted v nowNs old) 1 [97] .file).1 = 0 :=
    (create_first v nowNs old (by decide)).1
  have hfree : firstFreeInode (mountFormatted v nowNs old).vol (mountFormatted v nowNs old).disk =
      some 8 := firstFreeInode_mount v nowNs old
  have hfirst : record (mountFormatted v nowNs old) (fun _ => ByteFile.empty) createFile =
      update (fun _ => ByteFile.empty) 8 ByteFile.empty := by
    rw [createFile, record, if_pos hcreate, hfree]
  simp only [run_cons, run_nil, tracedStep, hfirst] at hrun
  obtain ⟨hfs, hfiles⟩ := Prod.mk.inj hrun
  refine ⟨hfs.symm, ?_⟩
  rw [← hfiles, record, if_pos hrc, update_self, update_self]

variable (h : FirstFile v old fs)
include h

lemma filled_first (hdata : data ≠ []) (hend : offset + data.length ≤ 4096 * 12) :
    (grahafsV2Write fs 8 offset data).1 = data.length ∧
      FilledHoles fs (grahafsV2Write fs 8 offset data).2 8 offset data (v.dataStart + 8) := by
  obtain ⟨hinv, rfl, hinode, hfree, hroom, -⟩ := h
  exact write_fills hinv (by decide) (hinode ▸ freshInode_magic .file 0)
    (hinode ▸ freshInode_type .file 0) (by simp only [inodeCacheSlots]; omega) hfree hdata hend

lemma slot_firstFile (hi : i < 12) : slot (fs.vol.inodeAt fs.disk 8) i = 0 := by
  rw [h.vol_eq, h.inode, slot_freshInode hi (by decide)]
  simp [firstBlock]

lemma read_first_byte (hdata : data ≠ []) (hend : offset + data.length ≤ 4096 * 12)
    (hcov : Covered offset data.length 0) :
    (grahafsV2Read (grahafsV2Write fs 8 offset data).2 8 0 1).1 =
      .ok [byte ((grahafsV2Write fs 8 offset data).2.disk (v.dataStart + 8)) 0] := by
  obtain ⟨-, hfilled⟩ := filled_first h hdata hend
  have hlen : 0 < data.length := length_pos_iff.mpr hdata
  have hsize : inoSize.get (fs.vol.inodeAt fs.disk 8) = 0 := by
    rw [h.vol_eq, h.inode]
    exact freshInode_file_size 0
  have hslot := hfilled.slots 0 (by decide)
  rw [if_pos ⟨hcov, slot_firstFile h (by decide)⟩] at hslot
  have hcache := hfilled.cache_le
  have hroom := h.room
  have hnew := hfilled.size
  rw [hsize] at hnew
  generalize (grahafsV2Write fs 8 offset data).2 = fs' at hfilled hslot hcache hnew ⊢
  rw [read_content hfilled.coherent hfilled.magic hfilled.type_eq hfilled.crc (by omega)
    (.inl (by simp only [inodeCacheSlots]; omega)) (by decide), hnew]
  have hone : min 1 (max 0 (offset + data.length) - 0) = 1 := by omega
  have hbyte := @content_of_block fs'.disk 0 0 (fs'.vol.inodeAt fs'.disk 8) (by decide)
  rw [hslot, if_neg (by omega)] at hbyte
  rw [hone]
  exact congrArg (fun x => Except.ok [x]) hbyte

omit h

lemma atMostOneFree_in_block (ino : Inode) (hend : offset + data.length ≤ 4096) :
    AtMostOneFree ino offset data.length := by
  intro i hi j hj hci hcj _ _
  simp only [Covered] at hci hcj
  omega

include h

lemma stale_before_offset (hdata : data ≠ []) (hend : offset + data.length ≤ 4096)
    (hpos : 0 < offset) :
    byte ((grahafsV2Write fs 8 offset data).2.disk (v.dataStart + 8)) 0 =
      byte (old (v.dataStart + 8)) 0 := by
  have hn : 8 < inodeCountMax := by decide
  have hlen : 0 < data.length := length_pos_iff.mpr hdata
  have hcov : Covered offset data.length 0 := by
    simp only [Covered]
    omega
  obtain ⟨hrc, hfilled⟩ := @filled_first _ _ _ offset data h hdata (by omega)
  rcases write_spec h.inv hn (by omega) (atMostOneFree_in_block _ hend) with
    ⟨-, hbad⟩ | ⟨-, -, fresh, hwritten, -⟩
  · exact absurd (hbad hrc) hdata
  have hslot := hfilled.slots 0 (by decide)
  rw [if_pos ⟨hcov, slot_firstFile h (by decide)⟩, hwritten.inodes 8 hn, if_pos rfl,
    slot_writtenInode (by decide)] at hslot
  have hbyte := hwritten.bytes 0 (by decide) hcov 0 (by decide)
  rw [hslot, if_neg (by omega), h.data _ le_rfl] at hbyte
  exact hbyte

lemma clean_first (hold : ∀ k < 4096, byte (old (v.dataStart + 8)) k = 0) :
    Clean fs (.write 8 offset data) := by
  intro i _ _ _ b hb k hk _
  rw [h.vol_eq, h.free] at hb
  cases hb
  rw [h.data _ le_rfl]
  exact hold k hk

end OneFile

/-- A file of one byte reads back, and nothing behind its end. -/
theorem one_byte_file_reads_back :
    Guarded tracedStep tracedOk (newVolume, fun _ => ByteFile.empty) [createFile, .write 8 0 [1]] ∧
    (grahafsV2Read (run tracedStep (newVolume, fun _ => ByteFile.empty)
      [createFile, .write 8 0 [1]]).1 8 0 2).1 = .ok [1] := by
  have hfirst := firstFile_newVolume
  rw [newVolume] at hfirst ⊢
  have hok : Guarded tracedStep tracedOk
      (mountFormatted smallVolume 0 fun _ => zeros blockSize, fun _ => ByteFile.empty)
      [createFile, .write 8 0 [1]] :=
    ⟨⟨show 1 < 16384 by decide, trivial⟩,
      ⟨⟨by decide, by decide, atMostOneFree_in_block _ (by simp)⟩,
        clean_first hfirst fun _ _ => byte_zeros _⟩, trivial⟩
  refine ⟨hok, ?_⟩
  obtain ⟨hrc, hfilled⟩ := @filled_first _ _ _ 0 [1] hfirst (List.cons_ne_nil 1 []) (by simp)
  rcases hrun : run tracedStep (mountFormatted smallVolume 0 fun _ => zeros blockSize,
    fun _ => ByteFile.empty) [createFile, .write 8 0 [1]] with ⟨fs, files⟩
  obtain ⟨hfs, hfiles⟩ := traced_first hrc hrun
  rw [← hfs] at hfilled
  have hcache := hfilled.cache_le
  have hcreated := hfirst.room
  rw [reads_return_what_was_written smallVolume 0 (fun _ => zeros blockSize) hok hrun
    (show 8 < 16384 by decide) ⟨hfilled.magic, hfilled.type_eq⟩
    (Or.inl (by simp only [inodeCacheSlots]; omega)) (show 0 + 2 < 2 ^ 64 by decide), hfiles]
  rfl

/-- The smallest volume, with old bytes in its free blocks. -/
def staleVolume : Fs := mountFormatted smallVolume 0 fun _ _ => 170

/-- Two blocks of data, with different bytes. -/
def twoBlocks : List UInt8 := List.replicate 4096 1 ++ List.replicate 4096 2

lemma length_twoBlocks : twoBlocks.length = 8192 := by
  rw [twoBlocks, length_append, length_replicate, length_replicate]

lemma getD_twoBlocks : twoBlocks.getD 0 0 = 1 ∧ twoBlocks.getD 4096 0 = 2 := by
  unfold twoBlocks
  rw [getD_append _ _ _ _ (by rw [length_replicate]; decide),
    getD_append_right _ _ _ _ (by rw [length_replicate]), length_replicate,
    getD_replicate _ (by decide), getD_replicate _ (by decide)]
  exact ⟨rfl, rfl⟩

/-- A byte before the first one written, in the same block, reads as what the disk held. After
a write of two blocks the first one reads as the second. -/
theorem stale_or_misplaced_byte_is_read :
    ((grahafsV2Read (run tracedStep (staleVolume, fun _ => ByteFile.empty)
        [createFile, .write 8 1 [1]]).1 8 0 1).1 = .ok [170] ∧
      ((run tracedStep (staleVolume, fun _ => ByteFile.empty)
        [createFile, .write 8 1 [1]]).2 8).read 0 1 = [0]) ∧
    (grahafsV2Read (run tracedStep (newVolume, fun _ => ByteFile.empty)
        [createFile, .write 8 0 twoBlocks]).1 8 0 1).1 = .ok [2] ∧
      ((run tracedStep (newVolume, fun _ => ByteFile.empty)
        [createFile, .write 8 0 twoBlocks]).2 8).read 0 1 = [1] := by
  have hstale : FirstFile smallVolume (fun _ _ => 170) (step staleVolume createFile) := by
    rw [createFile, step_create, staleVolume]
    exact (create_first smallVolume 0 (fun _ _ => 170) (by decide)).2
  have hclean := firstFile_newVolume
  have hone : ([1] : List UInt8) ≠ [] := List.cons_ne_nil 1 []
  have hlen := length_twoBlocks
  have htwo : twoBlocks ≠ [] := by
    apply List.length_pos_iff.mp
    omega
  rw [staleVolume] at hstale ⊢
  rw [newVolume] at hclean ⊢
  obtain ⟨hrc, -⟩ := @filled_first _ _ _ 1 [1] hstale hone (by simp)
  obtain ⟨hrc', hfilled⟩ := @filled_first _ _ _ 0 twoBlocks hclean htwo (by omega)
  have hlast := hfilled.last 1 (by decide) (by simp only [Covered]; omega)
    (by simp only [Covered]; omega) 0 (by decide) (by omega) (by omega)
  rw [hfilled.slots 1 (by decide),
    if_pos ⟨by simp only [Covered]; omega, slot_firstFile hclean (by decide)⟩] at hlast
  refine ⟨?_, ?_⟩
  · rcases hrun : run tracedStep (mountFormatted smallVolume 0 fun _ _ => 170,
      fun _ => ByteFile.empty) [createFile, .write 8 1 [1]] with ⟨fs, files⟩
    obtain ⟨hfs, hfiles⟩ := traced_first hrc hrun
    dsimp only
    rw [hfs, read_first_byte hstale hone (by simp) (by simp [Covered]),
      stale_before_offset hstale hone (by simp) (by decide), hfiles]
    exact ⟨rfl, rfl⟩
  · rcases hrun : run tracedStep (mountFormatted smallVolume 0 fun _ => zeros blockSize,
      fun _ => ByteFile.empty) [createFile, .write 8 0 twoBlocks] with ⟨fs, files⟩
    obtain ⟨hfs, hfiles⟩ := traced_first hrc' hrun
    dsimp only
    rw [hfs, read_first_byte hclean htwo (by omega) (by simp only [Covered]; omega), hlast, hfiles,
      ByteFile.read, ByteFile.size_write htwo, hlen]
    have hone : min 1 (max ByteFile.empty.size (0 + 8192) - 0) = 1 := rfl
    have hbyte : (ByteFile.empty.write 0 twoBlocks).bytes 0 = 1 := by
      rw [ByteFile.bytes_write, hlen, if_pos (by decide)]
      exact getD_twoBlocks.1
    rw [hone]
    exact ⟨congrArg (fun x => Except.ok [x]) getD_twoBlocks.2, congrArg (fun x => [x]) hbyte⟩

end GrahaOS.FileContents
