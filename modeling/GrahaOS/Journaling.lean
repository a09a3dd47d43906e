import GrahaOS.BlockDevice
import GrahaOS.DiskFormat

/-!
# The journal

`kernel/fs/journal.c`. A commit writes a begin block, the payloads and a commit block into the
journal area, flushes, writes every payload to its home address and flushes again. It stops at the
first operation that fails. Replay looks for such a record at the start of the area, checks it and
writes its payloads home, and goes on looking behind it.

Memory for staging is represented by its outcome. The append lock makes a transaction one step; a
crash inside it is a prefix of its device operations.
-/

namespace GrahaOS.Journaling

open ByteFields BlockDevice DiskFormat

/-- Where the journal area lies. It has room for the largest transaction. -/
structure Geometry where
  base : ℕ
  size : ℕ
  base_pos : 0 < base
  room : journalTxnMaxBlocks ≤ size
  end_lt : base + size < 2 ^ 64

variable (geo : Geometry)

/-- The address is in the journal area. -/
def Geometry.InArea (lba : ℕ) : Prop := geo.base ≤ lba ∧ lba < geo.base + geo.size

/-- The address is that of a home block: neither the superblock nor in the journal. -/
def Geometry.Home (lba : ℕ) : Prop := lba ≠ 0 ∧ ¬geo.InArea lba

instance (lba : ℕ) : Decidable (geo.InArea lba) :=
  inferInstanceAs (Decidable (_ ∧ _))

instance (lba : ℕ) : Decidable (geo.Home lba) :=
  inferInstanceAs (Decidable (_ ∧ _))

/-- A staged block: `grahafs_v2_journal_block_ref_t` with its payload. -/
structure BlockRef where
  lbaTarget : ℕ
  kind : UInt8
  payload : Block
  lba_lt : lbaTarget < 2 ^ 64

/-- `journal_txn_t`. -/
structure Txn where
  txnId : ℕ
  flags : ℕ
  refs : List BlockRef
  refs_le : refs.length ≤ journalBlockRefsMax

def kindData : UInt8 := 0
def kindMetadata : UInt8 := 1

/-- `journal_txn_begin`, given the id it takes. -/
def journalTxnBegin (txnId : ℕ) : Txn := ⟨txnId, 0, [], Nat.zero_le _⟩

variable (t : Txn)

/-- `journal_txn_add_block`; `heap` is the outcome of its allocation. -/
def journalTxnAddBlock (ref : BlockRef) (heap : Bool) : Except ℤ Txn :=
  if h : journalBlockRefsMax ≤ t.refs.length then .error (-27)
  else if !heap then .error (-3)
  else .ok { t with
    refs := t.refs ++ [ref]
    refs_le := by simpa using Nat.lt_of_not_le h }

/-- Begin, payloads and commit. -/
def Txn.blockCount : ℕ := 2 + t.refs.length

/-- Fill in `refs[i]`. -/
def putRef (b : Block) (i : ℕ) (ref : BlockRef) (journalLba : ℕ) : Block :=
  (refKind i).put ((refJournalLba i).put ((refLbaTarget i).put b ref.lbaTarget) journalLba)
    ref.kind.toNat

/-- Fill in the references from index `i` on, staged in the journal from `lba` on. -/
def putRefs (b : Block) (i lba : ℕ) : List BlockRef → Block
  | [] => b
  | ref :: rest => putRefs (putRef b i ref lba) (i + 1) (lba + 1) rest

/-- The begin block before its references. -/
def beginHeader : Block :=
  let b := jMagic.put (zeros blockSize) journalBegin
  let b := jTxnId.put b t.txnId
  let b := beginFlags.put b t.flags
  let b := beginTimestamp.put b 0
  let b := beginBlockCount.put b t.blockCount
  let b := beginDataBlockCount.put b (t.refs.countP fun r => r.kind = kindData)
  let b := beginMetadataBlockCount.put b (t.refs.countP fun r => r.kind = kindMetadata)
  beginRefCount.put b t.refs.length

/-- The begin block of a transaction placed at `head`. -/
def beginBlock (head : ℕ) : Block := putRefs (beginHeader t) 0 (head + 1) t.refs

/-- The blocks the checksum covers. -/
def record (head : ℕ) : List Block := beginBlock t head :: t.refs.map (·.payload)

def commitBlock (txnId checksum : ℕ) : Block :=
  let b := jMagic.put (zeros blockSize) journalCommit
  let b := jTxnId.put b txnId
  commitChecksum.put b checksum

/-- The payloads, one after the other from `lba` on. -/
def payloadWrites (lba : ℕ) : List BlockRef → List (ℕ × Block)
  | [] => []
  | ref :: rest => (lba, ref.payload) :: payloadWrites (lba + 1) rest

/-- Begin block and payloads. -/
def recordWrites (head : ℕ) : List (ℕ × Block) :=
  (head, beginBlock t head) :: payloadWrites (head + 1) t.refs

def commitWrite (head : ℕ) : ℕ × Block :=
  (head + t.blockCount - 1, commitBlock t.txnId (crc32Blocks (record t head)))

/-- The checkpoint: every payload to its home address. -/
def homeWrites : List (ℕ × Block) := t.refs.map fun ref => (ref.lbaTarget, ref.payload)

def writeOp (w : ℕ × Block) : DevOp Block := .write w.1 w.2

/-- The device operations of a commit, in order. -/
def commitScript (head : ℕ) : List (DevOp Block) :=
  (recordWrites t head).map writeOp ++ writeOp (commitWrite t head) :: .flush ::
    ((homeWrites t).map writeOp ++ [.flush])

/-- `grahafs_v2_journal_state_t` with the device. -/
structure Journal where
  geo : Geometry
  head : ℕ
  tail : ℕ
  nextTxnId : ℕ
  commitsSinceSb : ℕ
  dev : Device Block

/-- `journal_subsystem_init` with the superblock it is given. -/
def journalSubsystemInit (sb : Block) (dev : Device Block) : Journal where
  geo := geo
  head := if sbJournalHead.get sb ≠ 0 then sbJournalHead.get sb else geo.base
  tail := if sbJournalTail.get sb ≠ 0 then sbJournalTail.get sb else geo.base
  nextTxnId := sbLastTxnId.get sb + 1
  commitsSinceSb := 0
  dev := dev

def journalSbPersistInterval : ℕ := 64

variable (j : Journal)

/-- The superblock as `persist_journal_head_to_sb` writes it. -/
def persistedSb (sb : Block) : Block :=
  let sb := sbJournalHead.put sb j.head
  let sb := sbJournalTail.put sb j.tail
  let sb := sbLastTxnId.put sb j.nextTxnId
  sealSb sb

/-- The device operations of `persist_journal_head_to_sb`. -/
def persistScript : List (DevOp Block) :=
  if sbMagic.get (j.dev.view 0) ≠ sbMagicValue then []
  else [.write 0 (persistedSb j (j.dev.view 0))]

/-- Where a transaction is placed: at the head, or at the base if it would not fit. -/
def Journal.place (t : Txn) : ℕ :=
  if j.geo.base + j.geo.size < j.head + t.blockCount then j.geo.base else j.head

/-- The state after a commit that did not fail, before the superblock is persisted. -/
def Journal.advance (dev : Device Block) : Journal :=
  { j with
    dev := dev
    head := j.geo.base
    tail := j.geo.base
    commitsSinceSb :=
      if journalSbPersistInterval ≤ j.commitsSinceSb + 1 then 0 else j.commitsSinceSb + 1 }

/-- Persisting is due at every 64th commit. -/
def Journal.persistDue : Bool := journalSbPersistInterval ≤ j.commitsSinceSb + 1

/-- `journal_txn_commit`. `fault` is the operation that fails, if one does; `sbFails` says
that the superblock cannot be read or written, which is ignored. -/
def journalTxnCommit (t : Txn) (fault : Option Fault) (sbFails : Bool) : ℤ × Journal :=
  if t.refs = [] then (0, j)
  else
    let r := attempt j.dev (commitScript t (j.place t)) fault
    if !r.1 then (-5, { j with dev := r.2 })
    else
      let j' := j.advance r.2
      if j.persistDue && !sbFails then (0, { j' with dev := j'.dev.exec (persistScript j') })
      else (0, j')

/-- A caller's transaction: begun, filled and committed, or begun and given up. -/
inductive JournalOp
  | commit (refs : List BlockRef) (refs_le : refs.length ≤ journalBlockRefsMax)
      (fault : Option Fault) (sbFails : Bool)
  | abort

/-- The transaction that a caller fills with the given blocks. -/
def Journal.filled (refs : List BlockRef) (refs_le : refs.length ≤ journalBlockRefsMax) : Txn :=
  { journalTxnBegin j.nextTxnId with refs := refs, refs_le := refs_le }

/-- One transaction, with the value its commit returns. -/
def transact : JournalOp → ℤ × Journal
  | .commit refs refs_le fault sbFails =>
    journalTxnCommit { j with nextTxnId := j.nextTxnId + 1 } (j.filled refs refs_le) fault sbFails
  | .abort => (0, { j with nextTxnId := j.nextTxnId + 1 })

def step (op : JournalOp) : Journal := (transact j op).2

/-- The journal addresses in a begin block. -/
def stagedAt (buf : Block) : List ℕ :=
  (List.range (beginRefCount.get buf)).map fun i => (refJournalLba i).get buf

/-- The blocks replay checks: the begin block and what it finds where the payloads are. -/
def readRecord (d : ℕ → Block) (buf : Block) : List Block := buf :: (stagedAt buf).map d

/-- Apply `refs[i]` for each `i` of the list, reading and writing in turn. -/
def applyRefs (buf : Block) (d : ℕ → Block) (is : List ℕ) : ℕ → Block :=
  is.foldl (fun d i =>
    Function.update d ((refLbaTarget i).get buf) (d ((refJournalLba i).get buf))) d

/-- The checks replay makes on the record at an address. -/
def recordValid (d : ℕ → Block) (endLba scanLba : ℕ) : Bool :=
  let buf := d scanLba
  let blockCount := beginBlockCount.get buf
  let commitLba := scanLba + blockCount - 1
  let commit := d commitLba
  jMagic.get buf = journalBegin && 2 ≤ blockCount && blockCount ≤ journalTxnMaxBlocks &&
    commitLba < endLba && jMagic.get commit = journalCommit &&
    jTxnId.get commit = jTxnId.get buf &&
    crc32Blocks (readRecord d buf) = commitChecksum.get commit

/-- The scan of `journal_replay`: it stops at the first record that is not valid. -/
def replayLoop (endLba : ℕ) : ℕ → ℕ → (ℕ → Block) → (ℕ → Block)
  | 0, _, d => d
  | budget + 1, scanLba, d =>
    if scanLba < endLba then
      if recordValid d endLba scanLba then
        let buf := d scanLba
        replayLoop endLba budget (scanLba + beginBlockCount.get buf)
          (applyRefs buf d (List.range (beginRefCount.get buf)))
      else d
    else d

/-- `journal_replay` on a device that does not fail, with the superblock found on it. -/
def journalReplay (d : ℕ → Block) : ℕ → Block :=
  let sb := d 0
  let base := sbJournalStart.get sb
  let scanLba := if sbJournalHead.get sb < base then base else sbJournalHead.get sb
  let d := replayLoop (base + sbJournalBlocks.get sb) journalTxnMaxBlocks scanLba d
  Function.update d 0 (sealSb (sbJournalTail.put (sbJournalHead.put sb base) base))

end GrahaOS.Journaling
