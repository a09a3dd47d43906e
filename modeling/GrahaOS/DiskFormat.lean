import GrahaOS.ByteFields

/-!
# The on-disk format

`kernel/fs/grahafs_v2.h` and `kernel/lib/crc32.c`: the size of a block, the fields of the
superblock and of the two kinds of journal block at the offsets the header fixes, and the
checksum. Blocks are arrays of bytes; nothing is parsed into a record, so that a block
means what its bytes say, whoever wrote them.
-/

namespace GrahaOS.DiskFormat

open ByteFields

def blockSize : ℕ := 4096

/-- A disk block. -/
abbrev Block := Bytes blockSize

/-- One entry of the table: eight steps of the reflected polynomial. -/
def crc32TableEntry (i : UInt32) : UInt32 :=
  (List.range 8).foldl (fun (c : UInt32) _ =>
    if c &&& 1 ≠ 0 then (0xEDB88320 : UInt32) ^^^ (c >>> 1) else c >>> 1) i

def crc32Byte (c : UInt32) (p : UInt8) : UInt32 :=
  crc32TableEntry ((c ^^^ p.toUInt32) &&& 0xFF) ^^^ (c >>> 8)

def crc32Init : UInt32 := 0xFFFFFFFF

/-- `crc32_update` over the first `len` bytes. -/
def crc32Update {n : ℕ} (running : UInt32) (data : Bytes n) (len : ℕ) : UInt32 :=
  (List.range len).foldl (fun c k => crc32Byte c (byte data k)) running

def crc32Final (running : UInt32) : UInt32 := running ^^^ 0xFFFFFFFF

@[irreducible]
def crc32Buf {n : ℕ} (data : Bytes n) (len : ℕ) : ℕ :=
  (crc32Final (crc32Update crc32Init data len)).toNat

/-- The checksum folded over whole blocks, as the journal computes it. -/
@[irreducible]
def crc32Blocks (blocks : List Block) : ℕ :=
  (crc32Final (blocks.foldl (fun c b => crc32Update c b blockSize) crc32Init)).toNat

lemma crc32Blocks_lt (blocks : List Block) : crc32Blocks blocks < 256 ^ 4 := by
  unfold crc32Blocks
  exact UInt32.toNat_lt _

/-- `GRAHAFS_V2_SB_MAGIC`. -/
def sbMagicValue : ℕ := 0x47524148414F5322

def sbMagic : Field := ⟨0, 8⟩
def sbJournalStart : Field := ⟨64, 8⟩
def sbJournalBlocks : Field := ⟨72, 4⟩
def sbJournalHead : Field := ⟨80, 8⟩
def sbJournalTail : Field := ⟨88, 8⟩
def sbLastTxnId : Field := ⟨104, 8⟩
def sbChecksum : Field := ⟨152, 4⟩

/-- Recompute the superblock checksum over the bytes before it. -/
def sealSb (sb : Block) : Block :=
  let cleared := sbChecksum.put sb 0
  sbChecksum.put cleared (crc32Buf cleared sbChecksum.off)

def journalBegin : ℕ := 0xCAFE7193

def journalCommit : ℕ := 0xCAFECAFE

def journalBlockRefsMax : ℕ := 168

def journalTxnMaxBlocks : ℕ := 2 + journalBlockRefsMax

/-- The magic number that begins a begin or a commit block. -/
def jMagic : Field := ⟨0, 4⟩

/-- The transaction id of a begin or a commit block. -/
def jTxnId : Field := ⟨8, 8⟩

def beginFlags : Field := ⟨16, 4⟩
def beginTimestamp : Field := ⟨24, 8⟩
def beginBlockCount : Field := ⟨32, 4⟩
def beginDataBlockCount : Field := ⟨36, 4⟩
def beginMetadataBlockCount : Field := ⟨40, 4⟩
def beginRefCount : Field := ⟨44, 4⟩

/-- Where `refs[i]` of a begin block lies. -/
def refOff (i : ℕ) : ℕ := 48 + 24 * i

def refLbaTarget (i : ℕ) : Field := ⟨refOff i, 8⟩
def refJournalLba (i : ℕ) : Field := ⟨refOff i + 8, 8⟩
def refKind (i : ℕ) : Field := ⟨refOff i + 16, 1⟩

def commitChecksum : Field := ⟨16, 4⟩

end GrahaOS.DiskFormat
