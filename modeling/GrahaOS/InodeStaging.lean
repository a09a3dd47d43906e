import GrahaOS.FsStaging

/-!
# Inodes staged in one transaction

A block of the inode table has eight inodes, and `journal_stage_inode` stages whole blocks. The
first inode staged in a block takes a copy of the block from the disk; those after it are written
into that copy, so that a commit, which writes the staged blocks home, brings all of them to the
table.
-/

namespace GrahaOS.InodeStaging

open BlockDevice DiskFormat Journaling VolumeFormat GrahaFs JournalAtomicity FsStaging

/-- A mounted volume between two transactions: replay and every commit leave the head of the
journal at its base. -/
structure Mounted (v : Volume) (j : Journal) : Prop where
  geo : j.geo = v.geometry
  head : j.head = j.geo.base

lemma mounted_step {v : Volume} {j : Journal} (h : Mounted v j) (op : JournalOp) :
    Mounted v (Journaling.step j op) := by
  cases op with
  | abort => exact ⟨h.geo, h.head⟩
  | commit refs refs_le fault sbFails =>
  have hgeo := journalTxnCommit_geo { j with nextTxnId := j.nextTxnId + 1 }
    (j.filled refs refs_le) fault sbFails
  refine ⟨hgeo.trans h.geo, Eq.trans ?_ (congrArg Geometry.base hgeo.symm)⟩
  simp only [Journaling.step, transact, journalTxnCommit]
  split_ifs
  · exact h.head
  · exact h.head
  · rfl
  · rfl

/-- A call of `journal_stage_inode`; `fault` is the error of reading the block or of allocating its
copy, if that fails. -/
structure StageCall where
  inodeNum : ℕ
  ino : Inode
  fault : Option ℤ

/-- The call; a block that is staged is neither read nor copied. -/
def stageCall (v : Volume) (d : ℕ → Block) (t : Txn) (c : StageCall) : Except ℤ Txn :=
  match c.fault with
  | none => journalStageInode v d t c.inodeNum c.ino
  | some rc =>
    if v.inodeLba c.inodeNum ∈ targets t then journalStageInode v d t c.inodeNum c.ino
    else .error rc

/-- The transaction after the calls, and the inodes of those that succeeded, in order. -/
def stageCalls (v : Volume) (d : ℕ → Block) : Txn → List StageCall → Txn × List (ℕ × Inode)
  | t, [] => (t, [])
  | t, c :: calls =>
    match stageCall v d t c with
    | .error _ => stageCalls v d t calls
    | .ok t' =>
      let (t'', inos) := stageCalls v d t' calls
      (t'', (c.inodeNum, c.ino) :: inos)

section Calls

variable {v : Volume} {d : ℕ → Block} {t t' : Txn} {m : ℕ}

lemma stageCall_spec {c : StageCall} (h : stageCall v d t c = .ok t')
    (hc : c.inodeNum < inodeCountMax) (hnodup : (targets t).Nodup) :
    (targets t').Nodup ∧ ∀ m < inodeCountMax,
      v.inodeAt (staged d t') m =
        Function.update (v.inodeAt (staged d t)) c.inodeNum c.ino m := by
  have hstage : journalStageInode v d t c.inodeNum c.ino = .ok t' := by
    rw [stageCall] at h
    split at h
    · exact h
    · split_ifs at h
      exact h
  refine ⟨?_, fun m hm => ?_⟩
  · rcases targets_journalStageInode hstage hc with heq | ⟨hnew, heq⟩
    · rwa [heq]
    · rw [heq]
      exact hnodup.append (List.nodup_singleton _) (by simpa using hnew)
  · rw [staged_journalStageInode hstage hc (List.nodup_iff_count_le_one.mp hnodup _),
      inodeAt_update _ _ hc hm, Function.update_apply]

lemma stageCalls_spec {calls : List StageCall} (hcalls : ∀ c ∈ calls, c.inodeNum < inodeCountMax)
    (hnodup : (targets t).Nodup) (hm : m < inodeCountMax) :
    v.inodeAt (staged d (stageCalls v d t calls).1) m =
      applyWrites (v.inodeAt (staged d t)) (stageCalls v d t calls).2 m := by
  induction calls generalizing t with
  | nil => rfl
  | cons c calls ih =>
  have hrest : ∀ c' ∈ calls, c'.inodeNum < inodeCountMax :=
    fun c' hc' => hcalls c' (List.mem_cons_of_mem c hc')
  rw [stageCalls]
  cases hcall : stageCall v d t c with
  | error rc => exact ih hrest hnodup
  | ok t' =>
    obtain ⟨hnodup', htable⟩ := stageCall_spec hcall (hcalls c List.mem_cons_self) hnodup
    refine (ih hrest hnodup').trans ?_
    rw [applyWrites_cons]
    exact applyWrites_congr fun _ => htable m hm

end Calls

/-- After any calls of `journal_stage_inode` in one transaction and a commit that succeeds, the inode
table is the old one with every staged inode as it was staged last. -/
theorem staged_inodes_reach_the_table {v : Volume} {j : Journal} (hj : Mounted v j) (txnId : ℕ)
    {calls : List StageCall} (hcalls : ∀ c ∈ calls, c.inodeNum < inodeCountMax)
    {fault : Option Fault} {sbFails : Bool}
    (hcommit : (journalTxnCommit j (stageCalls v j.dev.view (journalTxnBegin txnId) calls).1 fault
      sbFails).1 = 0) {m : ℕ} (hm : m < inodeCountMax) :
    v.inodeAt (journalTxnCommit j (stageCalls v j.dev.view (journalTxnBegin txnId) calls).1 fault
        sbFails).2.dev.view m =
      applyWrites (v.inodeAt j.dev.view)
        (stageCalls v j.dev.view (journalTxnBegin txnId) calls).2 m := by
  have hhome := homeEq_commit hj.head hcommit (v.inodeLba m) (by rw [hj.geo]; exact v.home_inode hm)
  exact (inodeAt_congr hhome).trans (stageCalls_spec hcalls List.nodup_nil hm)

lemma smallDisk_room : metadataBlocksFor 51204 + segmentBlocks ≤ 51204 := by decide

lemma smallDisk_total : 51204 + bitsPerBlock < 2 ^ 32 := by decide

def smallDisk : Volume := ⟨51204, smallDisk_room, smallDisk_total⟩

/-- A volume with nothing on it. -/
def emptyJournal : Journal where
  geo := smallDisk.geometry
  head := smallDisk.geometry.base
  tail := smallDisk.geometry.base
  nextTxnId := 1
  commitsSinceSb := 0
  dev := ⟨fun _ => ByteFields.zeros blockSize, []⟩

/-- Two inodes of one block, the first of them staged twice, the second time without memory for
another copy. -/
def twoInodes : List StageCall :=
  [⟨8, freshInode .file 0, none⟩, ⟨9, freshInode .file 0, none⟩,
    ⟨8, freshInode .directory 6, some (-3)⟩]

theorem inodes_of_one_block_are_staged :
    smallDisk.inodeAt (journalTxnCommit emptyJournal
      (stageCalls smallDisk emptyJournal.dev.view (journalTxnBegin 1) twoInodes).1 none
        false).2.dev.view 8 = freshInode .directory 6 := by
  have hrefs : (stageCalls smallDisk emptyJournal.dev.view (journalTxnBegin 1) twoInodes).1.refs ≠
      [] := List.cons_ne_nil _ _
  exact staged_inodes_reach_the_table ⟨rfl, rfl⟩ 1 (by decide)
    (by rw [journalTxnCommit_none hrefs]) (by decide)

end GrahaOS.InodeStaging
