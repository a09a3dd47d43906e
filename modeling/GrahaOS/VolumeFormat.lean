import GrahaOS.Journaling

/-!
# GrahaFS v2 volumes

The structures of `kernel/fs/grahafs_v2.h` other than the journal's, and the volume that
`scripts/mkfs.gfs.v2.c` writes; the size of the disk fixes where each part begins. The first segment
begins with the data area, so the bitmap and the segments hand out blocks of the same area.
-/

namespace GrahaOS.VolumeFormat

open ByteFields DiskFormat Journaling

def inodeSize : ℕ := 512

/-- `grahafs_v2_inode_t`. -/
abbrev Inode := Bytes inodeSize

def inodeMagic : ℕ := 0x1203A1FE

def typeFile : ℕ := 1
def typeDirectory : ℕ := 2

def directBlocks : ℕ := 12

def indirectPtrs : ℕ := 1024

def maxVersions : ℕ := 16

def inoMagic : Field := ⟨0, 4⟩
def inoType : Field := ⟨4, 2⟩
def inoLinkCount : Field := ⟨6, 2⟩
def inoMode : Field := ⟨16, 4⟩
def inoSize : Field := ⟨24, 8⟩
def inoBlocksAllocated : Field := ⟨32, 8⟩
def inoCreationTime : Field := ⟨40, 8⟩
def inoModificationTime : Field := ⟨48, 8⟩
def inoAccessTime : Field := ⟨56, 8⟩
def inoDirect (i : ℕ) : Field := ⟨64 + 4 * i, 4⟩
def inoIndirect : Field := ⟨112, 4⟩
def inoDoubleIndirect : Field := ⟨116, 4⟩
def inoVersionChainHeadId : Field := ⟨128, 8⟩
def inoVersionChainSegment : Field := ⟨136, 4⟩
def inoVersionCount : Field := ⟨140, 4⟩
def inoAiFlags : Field := ⟨144, 4⟩
def inoAiMetadataBlock : Field := ⟨152, 4⟩
def inoAiLastModified : Field := ⟨160, 8⟩

/-- `ai_embedding[0]`. -/
def inoSimhash : Field := ⟨264, 8⟩

/-- The cluster id in the first four bytes of `ai_reserved`. -/
def inoClusterId : Field := ⟨328, 4⟩

def inoChecksum : Field := ⟨368, 4⟩

/-- Recompute the inode checksum over the bytes before it. -/
def sealInode (ino : Inode) : Inode :=
  let cleared := inoChecksum.put ino 0
  inoChecksum.put cleared (crc32Buf cleared inoChecksum.off)

/-- The check `inode_cache_get` makes. -/
def inodeCrcOk (ino : Inode) : Bool :=
  crc32Buf (inoChecksum.put ino 0) inoChecksum.off = inoChecksum.get ino

/-- A block number in an indirect page. -/
def pageSlot (k : ℕ) : Field := ⟨4 * k, 4⟩

lemma crc32Buf_congr {n m : ℕ} {a : Bytes n} {b : Bytes m} {len : ℕ}
    (h : ∀ k < len, byte a k = byte b k) : crc32Buf a len = crc32Buf b len := by
  have hupdate : crc32Update crc32Init a len = crc32Update crc32Init b len := by
    apply List.foldl_ext
    intro c k hk
    rw [h k (List.mem_range.mp hk)]
  rw [crc32Buf, crc32Buf, hupdate]

lemma crc32Buf_lt {n : ℕ} (b : Bytes n) (len : ℕ) : crc32Buf b len < 256 ^ 4 := by
  unfold crc32Buf
  exact UInt32.toNat_lt _

lemma inodeCrcOk_sealInode (ino : Inode) : inodeCrcOk (sealInode ino) = true := by
  have hsame : crc32Buf (inoChecksum.put (sealInode ino) 0) inoChecksum.off =
      crc32Buf (inoChecksum.put ino 0) inoChecksum.off := by
    apply crc32Buf_congr
    intro k hk
    unfold sealInode
    simp only [Field.put]
    rw [byte_putLE_of_outside _ (.inl hk), byte_putLE_of_outside _ (.inl hk)]
  have hget : inoChecksum.get (sealInode ino) =
      crc32Buf (inoChecksum.put ino 0) inoChecksum.off :=
    Field.get_put_self _ _ (by decide) (crc32Buf_lt _ _)
  simp only [inodeCrcOk, decide_eq_true_eq]
  rw [hsame, hget]

lemma get_sealInode {f : Field} (h : f.Apart inoChecksum) (ino : Inode) :
    f.get (sealInode ino) = f.get ino := by
  simp only [sealInode, Field.get_put_of_apart h]

/-- Bits of a bitmap block. -/
def bitsPerBlock : ℕ := 8 * blockSize

def bitmapTest (buf : Block) (bit : ℕ) : Bool := (byte buf (bit / 8)).toNat.testBit (bit % 8)

def bitmapMark (buf : Block) (bit : ℕ) : Block := fun k =>
  if (k : ℕ) = bit / 8 then UInt8.ofNat ((buf k).toNat ||| 2 ^ (bit % 8)) else buf k

lemma bitmapTest_bitmapMark (buf : Block) {bit bit' : ℕ} (h : bit < bitsPerBlock)
    (h' : bit' < bitsPerBlock) :
    bitmapTest (bitmapMark buf bit) bit' = (decide (bit' = bit) || bitmapTest buf bit') := by
  have hk : bit' / 8 < blockSize := by
    simp only [bitsPerBlock] at h'
    omega
  simp only [bitmapTest]
  rw [byte_of_lt _ hk, byte_of_lt _ hk, bitmapMark]
  by_cases hbyte : bit' / 8 = bit / 8
  · rw [if_pos hbyte]
    have hlt : (buf ⟨bit' / 8, hk⟩).toNat ||| 2 ^ (bit % 8) < 2 ^ 8 := by
      apply Nat.or_lt_two_pow (UInt8.toNat_lt _)
      exact Nat.pow_lt_pow_right (by decide) (Nat.mod_lt _ (by decide))
    have hsame : bit % 8 = bit' % 8 ↔ bit' = bit := by omega
    rw [UInt8.toNat_ofNat_of_lt' hlt, Nat.testBit_or, Nat.testBit_two_pow, Bool.or_comm]
    simp only [hsame]
  · rw [if_neg hbyte]
    have hne : bit' ≠ bit := by
      rintro rfl
      exact hbyte rfl
    simp [hne]

/-- `v2_dirent_t` in slot `i` of a directory block: the inode number. -/
def direntInode (i : ℕ) : Field := ⟨32 * i, 4⟩

def direntsPerBlock : ℕ := 128

/-- A name as `v2_strcpy` leaves it: at most 27 characters, then zeros. -/
def direntName (name : List UInt8) : Bytes 28 := fun k =>
  if (k : ℕ) < 27 then name.getD k 0 else 0

def putDirent (b : Block) (i inodeNum : ℕ) (name : List UInt8) : Block :=
  splice ((direntInode i).put b inodeNum) (32 * i + 4) (direntName name)

/-- The characters of a literal name. -/
def nameBytes (s : String) : List UInt8 := s.toList.map fun c => UInt8.ofNat c.toNat

def segmentBlocks : ℕ := 32768

inductive SegState
  | free
  | active
  | sealed
  | reclaimable
deriving DecidableEq

/-- The byte that stands for a state on disk. -/
def SegState.code : SegState → ℕ
  | .free => 0
  | .active => 1
  | .sealed => 2
  | .reclaimable => 3

/-- `grahafs_v2_segment_t`. -/
structure Segment where
  segmentId : ℕ
  firstBlock : ℕ
  sizeBlocks : ℕ
  refcount : ℕ
  creationTxn : ℕ
  state : SegState
  nextFreeBlockOffset : ℕ
  freeBytesInSegment : ℕ
  versionRecordCount : ℕ

def segmentMagic : ℕ := 0xC0FFEE52

def segmentBuildHeader (s : Segment) : Block :=
  let b := Field.put ⟨0, 4⟩ (zeros blockSize) segmentMagic
  let b := Field.put ⟨4, 4⟩ b s.segmentId
  let b := Field.put ⟨8, 8⟩ b s.creationTxn
  let b := Field.put ⟨16, 4⟩ b s.sizeBlocks
  let b := Field.put ⟨20, 1⟩ b s.state.code
  let b := Field.put ⟨24, 4⟩ b s.refcount
  let b := Field.put ⟨28, 4⟩ b 0
  let b := Field.put ⟨32, 4⟩ b s.versionRecordCount
  let b := Field.put ⟨36, 4⟩ b s.freeBytesInSegment
  let b := Field.put ⟨40, 4⟩ b s.nextFreeBlockOffset
  Field.put ⟨4092, 4⟩ b (crc32Buf b 4092)

def versionMagic : ℕ := 0x7E5E12DB

/-- `grahafs_v2_version_record_t`, the fields that are not zero in every record. -/
structure VersionRecord where
  versionId : ℕ
  timestampNs : ℕ
  size : ℕ
  simhash : ℕ
  segmentId : ℕ
  clusterIdAtVersion : ℕ
  prevVersion : ℕ

/-- The block a version record is written in. -/
def versionBlock (r : VersionRecord) : Block :=
  let b := Field.put ⟨0, 4⟩ (zeros blockSize) versionMagic
  let b := Field.put ⟨8, 8⟩ b r.versionId
  let b := Field.put ⟨16, 8⟩ b r.timestampNs
  let b := Field.put ⟨24, 8⟩ b r.size
  let b := Field.put ⟨32, 8⟩ b r.simhash
  let b := Field.put ⟨40, 4⟩ b r.segmentId
  let b := Field.put ⟨44, 4⟩ b r.clusterIdAtVersion
  let b := Field.put ⟨48, 8⟩ b r.prevVersion
  Field.put ⟨124, 4⟩ b (crc32Buf b 124)

def inodeCountMax : ℕ := 16384

def journalBlocks : ℕ := 16384

/-- Blocks of the bitmap for a disk of the given number of blocks. -/
def bitmapBlocksFor (totalBlocks : ℕ) : ℕ := (totalBlocks + bitsPerBlock - 1) / bitsPerBlock

/-- The blocks before the data area: superblock, bitmap, 2048 blocks of inodes, segment
table and journal. -/
def metadataBlocksFor (totalBlocks : ℕ) : ℕ :=
  1 + bitmapBlocksFor totalBlocks + inodeCountMax * inodeSize / blockSize + 1 + journalBlocks

/-- A disk that the formatter accepts: it has room for a segment behind the metadata, and
its size does not overflow the formatter's arithmetic. -/
structure Volume where
  totalBlocks : ℕ
  room : metadataBlocksFor totalBlocks + segmentBlocks ≤ totalBlocks
  total_lt : totalBlocks + bitsPerBlock < 2 ^ 32

namespace Volume

variable (v : Volume) {b n : ℕ}

def bitmapStart : ℕ := 1

def bitmapBlocks : ℕ := bitmapBlocksFor v.totalBlocks

def inodeTableStart : ℕ := bitmapStart + v.bitmapBlocks

def inodeTableBlocks : ℕ := inodeCountMax * inodeSize / blockSize

def segmentTableStart : ℕ := v.inodeTableStart + inodeTableBlocks

def journalStart : ℕ := v.segmentTableStart + 1

/-- `data_blocks_start_block`. -/
def dataStart : ℕ := v.journalStart + journalBlocks

def segmentCountMax : ℕ := min ((v.totalBlocks - v.dataStart) / segmentBlocks) 32

/-- `bitmap_block_lba`: the bitmap block with the bit of a block. -/
def bitmapLba (b : ℕ) : ℕ := bitmapStart + b / bitsPerBlock

/-- `inode_locate`: the block of an inode and its offset there. -/
def inodeLba (n : ℕ) : ℕ := v.inodeTableStart + n * inodeSize % 2 ^ 32 / blockSize

def inodeOff (n : ℕ) : ℕ := n * inodeSize % 2 ^ 32 % blockSize

/-- The inode on a disk. -/
def inodeAt (d : ℕ → Block) (n : ℕ) : Inode := slice inodeSize (d (v.inodeLba n)) (inodeOff n)

/-- The bit of a block in the bitmap of a disk. -/
def used (d : ℕ → Block) (b : ℕ) : Bool := bitmapTest (d (bitmapLba b)) (b % bitsPerBlock)

lemma dataStart_room : v.dataStart + 32768 ≤ v.totalBlocks := v.room

lemma total_lt_word : v.totalBlocks < 2 ^ 32 := by
  have h := v.total_lt
  simp only [bitsPerBlock, blockSize] at h
  omega

lemma regions : bitmapStart = 1 ∧ 1 ≤ v.inodeTableStart ∧
    v.segmentTableStart = v.inodeTableStart + 2048 ∧ v.journalStart = v.segmentTableStart + 1 ∧
    v.dataStart = v.journalStart + 16384 := by
  refine ⟨rfl, ?_, rfl, rfl, rfl⟩
  simp only [inodeTableStart, bitmapStart]
  omega

lemma bitmapLba_pos (b : ℕ) : 1 ≤ bitmapLba b := Nat.le_add_right 1 _

lemma bitmapLba_lt (hb : b < v.totalBlocks) : bitmapLba b < v.inodeTableStart := by
  simp only [bitmapLba, inodeTableStart, bitmapStart, bitmapBlocks, bitmapBlocksFor, bitsPerBlock,
    blockSize]
  omega

lemma inodeLba_ge (n : ℕ) : v.inodeTableStart ≤ v.inodeLba n := Nat.le_add_right _ _

lemma inodeLba_lt (hn : n < inodeCountMax) : v.inodeLba n < v.segmentTableStart := by
  simp only [inodeCountMax] at hn
  simp only [inodeLba, segmentTableStart, inodeTableBlocks, inodeCountMax, inodeSize, blockSize]
  omega

lemma inodeOff_apart {m : ℕ} (hn : n < inodeCountMax) (hm : m < inodeCountMax) (hne : n ≠ m)
    (hlba : v.inodeLba n = v.inodeLba m) :
    inodeOff m + inodeSize ≤ inodeOff n ∨ inodeOff n + inodeSize ≤ inodeOff m := by
  simp only [inodeCountMax] at hn hm
  simp only [inodeLba, inodeSize, blockSize] at hlba
  simp only [inodeOff, inodeSize, blockSize]
  omega

/-- Where the journal lies. -/
def geometry : Geometry where
  base := v.journalStart
  size := journalBlocks
  base_pos := by
    simp only [journalStart]
    omega
  room := by decide
  end_lt := by
    have h := v.dataStart_room
    have hlt := v.total_lt_word
    simp only [dataStart] at h
    omega

lemma home_bitmap (hb : b < v.totalBlocks) : v.geometry.Home (bitmapLba b) := by
  have hpos := bitmapLba_pos b
  have hlt := v.bitmapLba_lt hb
  have hreg := v.regions
  simp only [Geometry.Home, Geometry.InArea, geometry]
  omega

lemma home_inode (hn : n < inodeCountMax) : v.geometry.Home (v.inodeLba n) := by
  have hge := v.inodeLba_ge n
  have hlt := v.inodeLba_lt hn
  have hreg := v.regions
  simp only [Geometry.Home, Geometry.InArea, geometry]
  omega

lemma home_data (hb : v.dataStart ≤ b) : v.geometry.Home b := by
  have hreg := v.regions
  simp only [Geometry.Home, Geometry.InArea, geometry, journalBlocks]
  omega

end Volume

def initDirInode (firstDataBlock direntCount nowNs : ℕ) : Inode :=
  let ino := inoMagic.put (zeros inodeSize) inodeMagic
  let ino := inoType.put ino typeDirectory
  let ino := inoLinkCount.put ino direntCount
  let ino := inoMode.put ino 0o755
  let ino := inoSize.put ino (direntCount * 32)
  let ino := inoBlocksAllocated.put ino 1
  let ino := inoCreationTime.put ino nowNs
  let ino := inoModificationTime.put ino nowNs
  let ino := inoAccessTime.put ino nowNs
  let ino := (inoDirect 0).put ino firstDataBlock
  sealInode ino

def fillDirents (self parent : ℕ) (children : List (ℕ × String)) : Block :=
  let b := putDirent (zeros blockSize) 0 self (nameBytes ".")
  let b := putDirent b 1 parent (nameBytes "..")
  (children.zipIdx 2).foldl (fun b c => putDirent b c.2 c.1.1 (nameBytes c.1.2)) b

/-- The block of the directory with inode `k`, for the seven directories of a new volume. -/
def formatDirBlock : ℕ → Block
  | 1 => fillDirents 1 1 [(2, "illu"), (3, "bin"), (5, "etc"), (6, "var")]
  | 2 => fillDirents 2 1 []
  | 3 => fillDirents 3 1 [(4, "tests")]
  | 4 => fillDirents 4 3 []
  | 5 => fillDirents 5 1 []
  | 6 => fillDirents 6 1 [(7, "audit")]
  | _ => fillDirents 7 6 []

/-- The directories of a new volume: inode number and number of entries. -/
def formatDirs : List (ℕ × ℕ) := [(1, 6), (2, 2), (3, 3), (4, 2), (5, 2), (6, 3), (7, 2)]

variable (v : Volume)

/-- Block `q` of the inode table of a new volume. -/
def formatInodeBlock (nowNs q : ℕ) : Block :=
  if q = 0 then
    formatDirs.foldl (fun b dir =>
      splice b (dir.1 * inodeSize) (initDirInode (v.dataStart + dir.1) dir.2 nowNs))
      (zeros blockSize)
  else zeros blockSize

/-- Blocks marked by the formatter: the metadata, the header of segment 0 and the blocks of
the seven directories. -/
def formatUsed : ℕ := v.dataStart + 1 + 7

/-- Block `q` of the bitmap of a new volume. -/
def formatBitmapBlock (q : ℕ) : Block :=
  (List.range (formatUsed v)).foldl (fun b i =>
    if i / bitsPerBlock = q then bitmapMark b (i % bitsPerBlock) else b) (zeros blockSize)

/-- Segment 0 of a new volume. -/
def formatSegment : Segment where
  segmentId := 0
  firstBlock := v.dataStart
  sizeBlocks := segmentBlocks
  refcount := 0
  creationTxn := 0
  state := .active
  nextFreeBlockOffset := (1 + 7) * blockSize
  freeBytesInSegment := (segmentBlocks - 1 - 7) * blockSize
  versionRecordCount := 0

/-- The superblock, with its two counters. -/
def superblock (freeBlocks freeInodes : ℕ) : Block :=
  let b := sbMagic.put (zeros blockSize) sbMagicValue
  let b := Field.put ⟨8, 4⟩ b 2
  let b := Field.put ⟨12, 4⟩ b blockSize
  let b := Field.put ⟨16, 4⟩ b v.totalBlocks
  let b := Field.put ⟨20, 4⟩ b Volume.bitmapStart
  let b := Field.put ⟨24, 4⟩ b v.bitmapBlocks
  let b := Field.put ⟨28, 4⟩ b v.inodeTableStart
  let b := Field.put ⟨32, 4⟩ b Volume.inodeTableBlocks
  let b := Field.put ⟨36, 4⟩ b inodeCountMax
  let b := Field.put ⟨40, 4⟩ b v.dataStart
  let b := Field.put ⟨44, 4⟩ b 1
  let b := Field.put ⟨48, 8⟩ b v.segmentTableStart
  let b := Field.put ⟨56, 4⟩ b 1
  let b := Field.put ⟨60, 4⟩ b v.segmentCountMax
  let b := sbJournalStart.put b v.journalStart
  let b := sbJournalBlocks.put b journalBlocks
  let b := sbJournalHead.put b v.journalStart
  let b := sbJournalTail.put b v.journalStart
  let b := Field.put ⟨96, 4⟩ b freeBlocks
  let b := Field.put ⟨100, 4⟩ b freeInodes
  let b := sbLastTxnId.put b 0
  let b := Field.put ⟨112, 4⟩ b 0
  let b := splice b 120 (fun k : Fin 32 => (nameBytes "graha-v2").getD k 0)
  sealSb b

def formatFreeBlocks : ℕ := v.totalBlocks - v.dataStart - 1 - 7

def formatFreeInodes : ℕ := inodeCountMax - 8

/-- The disk after formatting one with the given contents at the given time. -/
def format (nowNs : ℕ) (old : ℕ → Block) : ℕ → Block := fun lba =>
  if lba = 0 then superblock v (formatFreeBlocks v) formatFreeInodes
  else if lba < v.inodeTableStart then formatBitmapBlock v (lba - Volume.bitmapStart)
  else if lba < v.segmentTableStart then formatInodeBlock v nowNs (lba - v.inodeTableStart)
  else if lba < v.journalStart then Field.put ⟨0, 8⟩ (zeros blockSize) v.dataStart
  else if lba < v.dataStart then zeros blockSize
  else if lba = v.dataStart then segmentBuildHeader (formatSegment v)
  else if lba ≤ v.dataStart + 7 then formatDirBlock (lba - v.dataStart)
  else old lba

end GrahaOS.VolumeFormat
