import GrahaOS.VolumeFormat

/-!
# GrahaFS v2

`kernel/fs/grahafs_v2.c` and the allocating half of `kernel/fs/segment.c`. A mutating call begins a
journal transaction, stages whole blocks in it and commits it; until then the disk is as before, so
everything the call reads meanwhile is what the transaction has not changed yet.

The device does not fail and memory does not run out. Each call runs under the journal's append lock
from its begin to its commit. The hash of the sample that a close takes and the clock are given from
outside.
-/

namespace GrahaOS.GrahaFs

open ByteFields DiskFormat Journaling VolumeFormat

/-- A slot of the inode cache. -/
structure CacheEntry where
  inodeNum : ℕ
  disk : Inode

def inodeCacheSlots : ℕ := 256

/-- A mounted volume: the journal with the device, the counters of the superblock in
memory, the inode cache and the segment table. -/
structure Fs where
  vol : Volume
  journal : Journal
  freeBlocks : ℕ
  freeInodes : ℕ
  cache : List CacheEntry
  segments : List Segment
  activeSegment : Option ℕ
  nextVersionId : ℕ

namespace Fs

/-- What a block read returns. -/
def disk (fs : Fs) : ℕ → Block := fs.journal.dev.view

/-- `grahafs_v2_block_write`, past the journal. -/
def blockWrite (fs : Fs) (lba : ℕ) (b : Block) : Fs :=
  { fs with journal := { fs.journal with dev := fs.journal.dev.perform (.write lba b) } }

def txnBegin (fs : Fs) : Txn × Fs :=
  (journalTxnBegin fs.journal.nextTxnId,
    { fs with journal := { fs.journal with nextTxnId := fs.journal.nextTxnId + 1 } })

def txnCommit (fs : Fs) (t : Txn) : ℤ × Fs :=
  let r := journalTxnCommit fs.journal t none false
  (r.1, { fs with journal := r.2 })

def writeSuperblock (fs : Fs) : Fs :=
  fs.blockWrite 0 (superblock fs.vol fs.freeBlocks fs.freeInodes)

end Fs

/-- The segment table after mounting a new volume. -/
def formatSegments (v : Volume) : List Segment :=
  formatSegment v :: (List.range' 1 (v.segmentCountMax - 1)).map fun i =>
    ⟨i, v.dataStart + i * segmentBlocks, segmentBlocks, 0, 0, .free, 0, 0, 0⟩

/-- `grahafs_v2_mount` on a disk just formatted. -/
def mountFormatted (v : Volume) (nowNs : ℕ) (old : ℕ → Block) : Fs where
  vol := v
  journal := journalSubsystemInit v.geometry (format v nowNs old 0)
    ⟨journalReplay (format v nowNs old), []⟩
  freeBlocks := formatFreeBlocks v
  freeInodes := formatFreeInodes
  cache := []
  segments := formatSegments v
  activeSegment := some 0
  nextVersionId := 1

variable (fs : Fs)

def inodeCacheGet (n : ℕ) : Option (Inode × Fs) :=
  match fs.cache.find? fun e => e.inodeNum = n with
  | some e => some (e.disk, fs)
  | none =>
    let ino := fs.vol.inodeAt fs.disk n
    if inoMagic.get ino ≠ inodeMagic then none
    else if !inodeCrcOk ino then none
    else if inodeCacheSlots ≤ fs.cache.length then none
    else some (ino, { fs with cache := fs.cache ++ [⟨n, ino⟩] })

/-- Publish a new copy of an inode in the cache. -/
def Fs.publish (n : ℕ) (ino : Inode) : Fs :=
  { fs with cache := fs.cache.map fun e => if e.inodeNum = n then { e with disk := ino } else e }

/-- A block for the transaction. -/
def mkRef (lba : ℕ) (kind : UInt8) (payload : Block) : BlockRef where
  lbaTarget := lba % 2 ^ 64
  kind := kind
  payload := payload
  lba_lt := Nat.mod_lt _ (by decide)

/-- Stage a block where the caller looks at the result. -/
def stage (t : Txn) (lba : ℕ) (kind : UInt8) (payload : Block) : Except ℤ Txn :=
  journalTxnAddBlock t (mkRef lba kind payload) true

/-- Stage a block where the caller does not. -/
def stageIgnored (t : Txn) (lba : ℕ) (kind : UInt8) (payload : Block) : Txn :=
  match stage t lba kind payload with
  | .ok t => t
  | .error _ => t

/-- Overlay an inode on the first staged copy of its block. -/
def overlayFirst (lba off : ℕ) (ino : Inode) : List BlockRef → Option (List BlockRef)
  | [] => none
  | ref :: rest =>
    if ref.lbaTarget = lba then some ({ ref with payload := splice ref.payload off ino } :: rest)
    else (overlayFirst lba off ino rest).map (ref :: ·)

lemma overlayFirst_targets {lba off : ℕ} {ino : Inode} : ∀ {refs refs' : List BlockRef},
    overlayFirst lba off ino refs = some refs' →
      refs'.map (·.lbaTarget) = refs.map (·.lbaTarget) := by
  intro refs
  induction refs with
  | nil =>
    intro refs' h
    cases h
  | cons ref rest ih =>
    intro refs' h
    simp only [overlayFirst] at h
    split_ifs at h
    · cases h
      rfl
    · obtain ⟨rest', hrest, rfl⟩ := Option.map_eq_some_iff.mp h
      simp [ih hrest]

lemma length_overlayFirst {lba off : ℕ} {ino : Inode} {refs refs' : List BlockRef}
    (h : overlayFirst lba off ino refs = some refs') : refs'.length = refs.length := by
  simpa using congrArg List.length (overlayFirst_targets h)

def journalStageInode (v : Volume) (d : ℕ → Block) (t : Txn) (n : ℕ) (ino : Inode) : Except ℤ Txn :=
  match h : overlayFirst (v.inodeLba n) (Volume.inodeOff n) ino t.refs with
  | some refs => .ok { t with refs := refs, refs_le := (length_overlayFirst h).trans_le t.refs_le }
  | none => stage t (v.inodeLba n) kindMetadata (splice (d (v.inodeLba n)) (Volume.inodeOff n) ino)

/-- The block `v2_bitmap_allocate_block` picks: the first in the data area whose bit is
clear on the disk. -/
def firstFree (v : Volume) (d : ℕ → Block) : Option ℕ :=
  (List.range v.totalBlocks).find? fun i => v.dataStart ≤ i && !Volume.used d i

/-- A call under way: the volume, the copy of the inode it works on, and its transaction. -/
structure Alloc where
  fs : Fs
  ino : Inode
  txn : Txn

def bitmapAllocateBlock (t : Txn) : Option (ℕ × Fs × Txn) :=
  match firstFree fs.vol fs.disk with
  | none => none
  | some i =>
    let lba := Volume.bitmapLba i
    match stage t lba kindMetadata (bitmapMark (fs.disk lba) (i % bitsPerBlock)) with
    | .error _ => none
    | .ok t => some (i, { fs with freeBlocks := fs.freeBlocks - 1 }, t)

/-- Allocate a block and stage zeros for it. -/
def allocateZeroed (t : Txn) (kind : UInt8) : Option (ℕ × Fs × Txn) :=
  match bitmapAllocateBlock fs t with
  | none => none
  | some (b, fs, t) => some (b, fs, stageIgnored t b kind (zeros blockSize))

/-- Count an allocated block in the inode. -/
def countBlock (ino : Inode) : Inode :=
  inoBlocksAllocated.put ino (inoBlocksAllocated.get ino + 1)

/-- A pointer of the inode, with a block allocated for it if it is zero. -/
def rootAlloc (a : Alloc) (f : Field) (kind : UInt8) : Except Fs (ℕ × Alloc) :=
  if f.get a.ino = 0 then
    match allocateZeroed a.fs a.txn kind with
    | none => .error a.fs
    | some (b, fs, t) => .ok (b, ⟨fs, countBlock (f.put a.ino b), t⟩)
  else .ok (f.get a.ino, a)

/-- A pointer in a page, with a block allocated for it if it is zero. The page is read from
the disk and staged with the new pointer. -/
def slotAlloc (a : Alloc) (page k : ℕ) (kind : UInt8) : Except Fs (ℕ × Alloc) :=
  let buf := a.fs.disk page
  if (pageSlot k).get buf = 0 then
    match allocateZeroed a.fs a.txn kind with
    | none => .error a.fs
    | some (b, fs, t) =>
      .ok (b, ⟨fs, countBlock a.ino, stageIgnored t page kindMetadata ((pageSlot k).put buf b)⟩)
  else .ok ((pageSlot k).get buf, a)

/-- `v2_block_index_to_lba_alloc`; an error carries the counters as they are by then. -/
def blockIndexToLbaAlloc (a : Alloc) (logicalBlock : ℕ) : Except Fs (ℕ × Alloc) :=
  if logicalBlock < directBlocks then rootAlloc a (inoDirect logicalBlock) kindData
  else
    let adj := logicalBlock - directBlocks
    if adj < indirectPtrs then
      (rootAlloc a inoIndirect kindMetadata).bind fun page => slotAlloc page.2 page.1 adj kindData
    else
      let adj := adj - indirectPtrs
      if adj < indirectPtrs * indirectPtrs then
        (rootAlloc a inoDoubleIndirect kindMetadata).bind fun outerPage =>
          (slotAlloc outerPage.2 outerPage.1 (adj / indirectPtrs) kindMetadata).bind fun midPage =>
            slotAlloc midPage.2 midPage.1 (adj % indirectPtrs) kindData
      else .error a.fs

/-- `v2_allocate_inode`, without its counter. -/
def firstFreeInode (v : Volume) (d : ℕ → Block) : Option ℕ :=
  (List.range' 2 (inodeCountMax - 2)).find? fun i =>
    inoMagic.get (v.inodeAt d i) = 0 && inoType.get (v.inodeAt d i) = 0

variable (d : ℕ → Block)

def indirectLookup (page k : ℕ) : ℕ :=
  if page = 0 then 0 else (pageSlot k).get (d page)

def blockIndexToLba (ino : Inode) (logicalBlock : ℕ) : ℕ :=
  if logicalBlock < directBlocks then (inoDirect logicalBlock).get ino
  else
    let adj := logicalBlock - directBlocks
    if adj < indirectPtrs then indirectLookup d (inoIndirect.get ino) adj
    else
      let adj := adj - indirectPtrs
      if adj < indirectPtrs * indirectPtrs then
        indirectLookup d (indirectLookup d (inoDoubleIndirect.get ino) (adj / indirectPtrs))
          (adj % indirectPtrs)
      else 0

/-- The bytes of one pass of the read loop. -/
def readChunk (lba blockOffset chunk : ℕ) : List UInt8 :=
  (List.range chunk).map fun k => if lba = 0 then 0 else byte (d lba) (blockOffset + k)

/-- The loop of `grahafs_v2_read`; each pass takes at least a byte, so that as many passes
as there are bytes are enough. -/
def readLoop (d : ℕ → Block) (ino : Inode) : ℕ → ℕ → ℕ → ℕ → List UInt8
  | 0, _, _, _ => []
  | fuel + 1, blockIndex, blockOffset, remaining =>
    if remaining = 0 then []
    else
      let chunk := min (blockSize - blockOffset) remaining
      readChunk d (blockIndexToLba d ino blockIndex) blockOffset chunk ++
        readLoop d ino fuel ((blockIndex + 1) % 2 ^ 32) 0 (remaining - chunk)

def grahafsV2Read (n offset size : ℕ) : Except ℤ (List UInt8) × Fs :=
  if size = 0 then (.ok [], fs)
  else
    match inodeCacheGet fs n with
    | none => (.error (-5), fs)
    | some (ino, fs) =>
      if inoType.get ino ≠ typeFile ∧ inoType.get ino ≠ typeDirectory then (.error (-22), fs)
      else if inoSize.get ino ≤ offset then (.ok [], fs)
      else
        let toRead :=
          if inoSize.get ino < (offset + size) % 2 ^ 64 then inoSize.get ino - offset else size
        (.ok (readLoop fs.disk ino toRead (offset / blockSize % 2 ^ 32) (offset % blockSize) toRead),
          fs)

/-- Copy bytes into a block. -/
def overlay (b : Block) (off : ℕ) (src : List UInt8) : Block := fun k =>
  if off ≤ k ∧ k < off + src.length then src.getD (k - off) 0 else b k

/-- The block one pass of the write loop stages: a partial block is read from the disk. -/
def chunkBlock (lba blockOffset : ℕ) (src : List UInt8) : Block :=
  overlay (if blockOffset ≠ 0 ∨ src.length ≠ blockSize then d lba else zeros blockSize)
    blockOffset src

/-- The loop of `grahafs_v2_write` over the bytes that remain. -/
def writeLoop : ℕ → ℕ → ℕ → ℕ → List UInt8 → Alloc → Except (ℤ × Fs) Alloc
  | 0, _, _, _, _, a => .ok a
  | fuel + 1, blockIndex, blockOffset, written, data, a =>
    if data = [] then .ok a
    else
      match blockIndexToLbaAlloc a blockIndex with
      | .error fs => .error (if 0 < written then (written : ℤ) else -28, fs)
      | .ok (lba, a) =>
        let chunk := min (blockSize - blockOffset) data.length
        match stage a.txn lba kindData
            (chunkBlock a.fs.disk lba blockOffset (data.take chunk)) with
        | .error rc => .error (rc, a.fs)
        | .ok t =>
          writeLoop fuel ((blockIndex + 1) % 2 ^ 32) 0 (written + chunk) (data.drop chunk)
            { a with txn := t }

/-- The inode after a write of `count` bytes at `offset`. -/
def writtenInode (ino : Inode) (offset count : ℕ) : Inode :=
  let newSize := (offset + count) % 2 ^ 64
  let ino := if inoSize.get ino < newSize then inoSize.put ino newSize else ino
  sealInode (inoModificationTime.put ino (inoModificationTime.get ino + 1))

def grahafsV2Write (n offset : ℕ) (data : List UInt8) : ℤ × Fs :=
  if data = [] then (0, fs)
  else
    match inodeCacheGet fs n with
    | none => (-5, fs)
    | some (ino, fs) =>
      if inoType.get ino ≠ typeFile ∧ inoType.get ino ≠ typeDirectory then (-22, fs)
      else
        let (t, fs) := fs.txnBegin
        match writeLoop data.length (offset / blockSize % 2 ^ 32) (offset % blockSize) 0 data
            ⟨fs, ino, t⟩ with
        | .error (rc, fs) => (rc, fs)
        | .ok a =>
          let work := writtenInode a.ino offset data.length
          match journalStageInode a.fs.vol a.fs.disk a.txn n work with
          | .error rc => (rc, a.fs)
          | .ok t =>
            let (rc, fs) := a.fs.txnCommit t
            if rc ≠ 0 then (rc, fs)
            else (data.length, (fs.publish n work).writeSuperblock)

/-- The first entry without an inode. -/
def freeDirent (b : Block) : Option ℕ :=
  (List.range direntsPerBlock).find? fun i => (direntInode i).get b = 0

def dirAddEntry (parent : ℕ) (name : List UInt8) (child : ℕ) (t : Txn) :
    Except (ℤ × Fs) (Fs × Txn) :=
  match inodeCacheGet fs parent with
  | none => .error (-5, fs)
  | some (dir, fs) =>
    if inoType.get dir ≠ typeDirectory then .error (-20, fs)
    else
      match rootAlloc ⟨fs, dir, t⟩ (inoDirect 0) kindMetadata with
      | .error fs => .error (-28, fs)
      | .ok (lba, a) =>
        match freeDirent (a.fs.disk lba) with
        | none => .error (-28, a.fs)
        | some slot =>
          match stage a.txn lba kindMetadata (putDirent (a.fs.disk lba) slot child name) with
          | .error rc => .error (rc, a.fs)
          | .ok t =>
            let dir := sealInode (inoSize.put a.ino ((slot + 1) * 32))
            match journalStageInode a.fs.vol a.fs.disk t parent dir with
            | .error rc => .error (rc, a.fs)
            | .ok t => .ok (a.fs.publish parent dir, t)

/-- The kinds of node that can be created. -/
inductive NodeType
  | file
  | directory
deriving DecidableEq

/-- The inode of a new file or, with its block, of a new directory. -/
def freshInode : NodeType → ℕ → Inode
  | .file, _ =>
    let ino := inoMagic.put (zeros inodeSize) inodeMagic
    let ino := inoType.put ino typeFile
    let ino := inoLinkCount.put ino 1
    sealInode (inoMode.put ino 0o644)
  | .directory, b =>
    let ino := inoMagic.put (zeros inodeSize) inodeMagic
    let ino := inoType.put ino typeDirectory
    let ino := inoLinkCount.put ino 2
    let ino := inoMode.put ino 0o755
    let ino := (inoDirect 0).put ino b
    let ino := inoBlocksAllocated.put ino 1
    sealInode (inoSize.put ino 64)

/-- The block of a new directory. -/
def freshDirBlock (self parent : ℕ) : Block :=
  putDirent (putDirent (zeros blockSize) 0 self (nameBytes ".")) 1 parent (nameBytes "..")

/-- The block of a new directory, allocated and staged; a file has none. -/
def createBlock (t : Txn) (type : NodeType) (self parent : ℕ) : Except (ℤ × Fs) (ℕ × Fs × Txn) :=
  match type with
  | .file => .ok (0, fs, t)
  | .directory =>
    match bitmapAllocateBlock fs t with
    | none => .error (-28, fs)
    | some (b, fs, t) =>
      match stage t b kindMetadata (freshDirBlock self parent) with
      | .error rc => .error (rc, fs)
      | .ok t => .ok (b, fs, t)

def grahafsV2Create (parent : ℕ) (name : List UInt8) (type : NodeType) : ℤ × Fs :=
  if name = [] ∨ 28 ≤ name.length then (-22, fs)
  else
    match firstFreeInode fs.vol fs.disk with
    | none => (-28, fs)
    | some n =>
      let (t, fs) := { fs with freeInodes := fs.freeInodes - 1 }.txnBegin
      match createBlock fs t type n parent with
      | .error (rc, fs) => (rc, fs)
      | .ok (b, fs, t) =>
        match journalStageInode fs.vol fs.disk t n (freshInode type b) with
        | .error rc => (rc, fs)
        | .ok t =>
          match dirAddEntry fs parent name n t with
          | .error (rc, fs) => (rc, fs)
          | .ok (fs, t) =>
            let (rc, fs) := fs.txnCommit t
            if rc ≠ 0 then (rc, fs)
            else
              let fs := fs.writeSuperblock
              (0, { fs with journal := { fs.journal with dev := fs.journal.dev.perform .flush } })

/-- `segment_persist_header` for a segment of the table. -/
def persistHeader (s : Segment) : Fs := fs.blockWrite s.firstBlock (segmentBuildHeader s)

/-- Replace a segment in the table and persist its header. -/
def updateSegment (id : ℕ) (s : Segment) : Fs :=
  persistHeader { fs with segments := fs.segments.set id s } s

/-- `segment_allocate_for_write`. Each pass seals a segment, takes a free one or returns,
so that passes are bounded by the length of the table. -/
def segmentAllocateForWrite (bytesNeeded : ℕ) : ℕ → Fs → Except Fs (ℕ × Segment × Fs)
  | 0, fs => .error fs
  | fuel + 1, fs =>
    match fs.activeSegment with
    | some id =>
      match fs.segments[id]? with
      | none => .error fs
      | some s =>
        if s.state = .active ∧ bytesNeeded ≤ s.freeBytesInSegment then
          let s := { s with
            refcount := s.refcount + 1
            freeBytesInSegment := s.freeBytesInSegment - bytesNeeded
            nextFreeBlockOffset := s.nextFreeBlockOffset + bytesNeeded }
          .ok (id, s, updateSegment fs id s)
        else
          segmentAllocateForWrite bytesNeeded fuel
            (updateSegment { fs with activeSegment := none } id { s with state := .sealed })
    | none =>
      match fs.segments.findIdx? fun s => s.state = .free with
      | none => .error fs
      | some id =>
        match fs.segments[id]? with
        | none => .error fs
        | some s =>
          let s := { s with
            state := .active
            refcount := 0
            nextFreeBlockOffset := blockSize
            freeBytesInSegment := (segmentBlocks - 1) * blockSize }
          segmentAllocateForWrite bytesNeeded fuel
            (updateSegment { fs with activeSegment := some id } id s)

/-- The hash of a sample and the clock. -/
structure Env where
  simhashAuto : List UInt8 → ℕ
  timestampNs : ℕ

/-- `v2_emit_version_record`: the segment and the id of the version. -/
def emitVersionRecord (env : Env) (fs : Fs) (fileSize simhash prevVersion clusterId : ℕ) (t : Txn) :
    Except (ℤ × Fs) (ℕ × ℕ × Fs × Txn) :=
  match segmentAllocateForWrite blockSize (2 * fs.segments.length + 2) fs with
  | .error fs => .error (-28, fs)
  | .ok (id, s, fs) =>
    let recBlock := s.firstBlock + (s.nextFreeBlockOffset / blockSize - 1)
    let versionId := fs.nextVersionId
    let fs := { fs with nextVersionId := versionId + 1 }
    match stage t recBlock kindMetadata
        (versionBlock ⟨versionId, env.timestampNs, fileSize, simhash, id, clusterId, prevVersion⟩) with
    | .error rc => .error (rc, fs)
    | .ok t => .ok (id, versionId, fs, t)

/-- The size of the sample close takes. -/
def sampleMax : ℕ := 1024 * 1024

/-- The sampling loop of close over the given logical blocks: holes are left out. -/
def sampleLoop (d : ℕ → Block) (ino : Inode) (bytesToSample : ℕ) : List ℕ → List UInt8 → List UInt8
  | [], sample => sample
  | i :: rest, sample =>
    if sampleMax ≤ sample.length then sample
    else
      let lba := blockIndexToLba d ino i
      if lba = 0 then sampleLoop d ino bytesToSample rest sample
      else
        let copy := min blockSize (bytesToSample - sample.length)
        sampleLoop d ino bytesToSample rest (sample ++ readChunk d lba 0 copy)

/-- The sample of a file. -/
def sampleFile (ino : Inode) : List UInt8 :=
  let bytesToSample := min (inoSize.get ino) sampleMax
  sampleLoop d ino bytesToSample (List.range ((bytesToSample + blockSize - 1) / blockSize)) []

/-- The inode after a version was recorded. -/
def versionedInode (ino : Inode) (versionId segmentId simhash : ℕ) : Inode :=
  let ino := inoVersionChainHeadId.put ino versionId
  let ino := inoVersionChainSegment.put ino segmentId
  let count := inoVersionCount.get ino
  let ino := if count < maxVersions then inoVersionCount.put ino (count + 1) else ino
  let ino := inoSimhash.put ino simhash
  let ino := inoAiFlags.put ino (inoAiFlags.get ino ||| 4)
  let ino := inoAiLastModified.put ino (inoAiLastModified.get ino + 1)
  sealInode ino

/-- Close records a version of this inode: of a file that is not empty. -/
def emitsVersion (ino : Inode) : Bool := inoType.get ino = typeFile && inoSize.get ino ≠ 0

def grahafsV2Close (env : Env) (fs : Fs) (n : ℕ) : Fs :=
  match inodeCacheGet fs n with
  | none => fs
  | some (ino, fs) =>
    if !emitsVersion ino then fs
    else
      let sample := sampleFile fs.disk ino
      let simhash := if sample = [] then 0 else env.simhashAuto sample
      let (t, fs) := fs.txnBegin
      match emitVersionRecord env fs (inoSize.get ino) simhash (inoVersionChainHeadId.get ino)
          (inoClusterId.get ino) t with
      | .error (_, fs) => fs
      | .ok (id, versionId, fs, t) =>
        let work := versionedInode ino versionId id simhash
        match journalStageInode fs.vol fs.disk t n work with
        | .error _ => fs
        | .ok t =>
          let (rc, fs) := fs.txnCommit t
          if rc ≠ 0 then fs else fs.publish n work

inductive FsOp
  | create (parent : ℕ) (name : List UInt8) (type : NodeType)
  | write (node offset : ℕ) (data : List UInt8)
  | close (node : ℕ) (env : Env)

/-- One call, with the value it returns; close returns nothing. -/
def perform : FsOp → ℤ × Fs
  | .create parent name type => grahafsV2Create fs parent name type
  | .write node offset data => grahafsV2Write fs node offset data
  | .close node env => (0, grahafsV2Close env fs node)

def step (op : FsOp) : Fs := (perform fs op).2

end GrahaOS.GrahaFs
