import GrahaOS.Journaling

/-!
# What replay reads from a record

A begin block, read back field by field, gives the transaction it was made from: its id, its length,
and for each reference the home address and the journal address. A commit block gives its id and its
checksum.
-/

namespace GrahaOS.JournalRecords

open ByteFields BlockDevice DiskFormat Journaling List Field

lemma refs_length_lt (t : Txn) : t.refs.length < 256 ^ 4 := by
  have hle := t.refs_le
  simp only [journalBlockRefsMax] at hle
  omega

lemma blockCount_lt (t : Txn) : t.blockCount < 256 ^ 4 := by
  have hle := t.refs_le
  simp only [journalBlockRefsMax] at hle
  simp only [Txn.blockCount]
  omega

variable {t : Txn} {head i : ℕ} {f : Field} {d : ℕ → Block}

lemma get_putRef (h : f.off + f.width ≤ refOff i) (b : Block) (ref : BlockRef) (lba : ℕ) :
    f.get (putRef b i ref lba) = f.get b := by
  rw [putRef, get_put_of_apart, get_put_of_apart, get_put_of_apart]
  · exact .inl h
  · exact .inl (by simp only [refJournalLba]; omega)
  · exact .inl (by simp only [refKind]; omega)

lemma get_putRefs {refs : List BlockRef} : ∀ {i lba : ℕ} {b : Block},
    f.off + f.width ≤ refOff i → f.get (putRefs b i lba refs) = f.get b := by
  induction refs with
  | nil =>
    intro i lba b _
    rfl
  | cons ref rest ih =>
    intro i lba b h
    have hnext : f.off + f.width ≤ refOff (i + 1) := by
      simp only [refOff] at h ⊢
      omega
    rw [putRefs, ih hnext, get_putRef h]

lemma get_beginBlock (h : f.off + f.width ≤ 48) (t : Txn) (head : ℕ) :
    f.get (beginBlock t head) = f.get (beginHeader t) := get_putRefs h

@[simp] lemma jMagic_beginBlock (t : Txn) (head : ℕ) :
    jMagic.get (beginBlock t head) = journalBegin := by
  rw [get_beginBlock (by decide), beginHeader]
  simp (disch := decide) only [get_put_of_apart, get_put_self]

lemma jTxnId_beginBlock (hid : t.txnId < 256 ^ 8) (head : ℕ) :
    jTxnId.get (beginBlock t head) = t.txnId := by
  rw [get_beginBlock (by decide), beginHeader]
  simp (disch := decide) only [get_put_of_apart]
  exact get_put_self _ _ (by decide) hid

@[simp] lemma beginBlockCount_beginBlock (t : Txn) (head : ℕ) :
    beginBlockCount.get (beginBlock t head) = t.blockCount := by
  rw [get_beginBlock (by decide), beginHeader]
  simp (disch := decide) only [get_put_of_apart]
  exact get_put_self _ _ (by decide) (blockCount_lt t)

@[simp] lemma beginRefCount_beginBlock (t : Txn) (head : ℕ) :
    beginRefCount.get (beginBlock t head) = t.refs.length := by
  rw [get_beginBlock (by decide), beginHeader]
  exact get_put_self _ _ (by decide) (refs_length_lt t)

@[simp] lemma jMagic_commitBlock (txnId checksum : ℕ) :
    jMagic.get (commitBlock txnId checksum) = journalCommit := by
  rw [commitBlock]
  simp (disch := decide) only [get_put_of_apart, get_put_self]

lemma jTxnId_commitBlock {txnId : ℕ} (hid : txnId < 256 ^ 8) (checksum : ℕ) :
    jTxnId.get (commitBlock txnId checksum) = txnId := by
  rw [commitBlock]
  simp (disch := decide) only [get_put_of_apart]
  exact get_put_self _ _ (by decide) hid

lemma commitChecksum_commitBlock (txnId : ℕ) {checksum : ℕ} (hcrc : checksum < 256 ^ 4) :
    commitChecksum.get (commitBlock txnId checksum) = checksum := by
  rw [commitBlock]
  exact get_put_self _ _ (by decide) hcrc

lemma refFields_putRef (hi : i < journalBlockRefsMax) (b : Block) (ref : BlockRef) {lba : ℕ}
    (hlba : lba < 2 ^ 64) :
    (refLbaTarget i).get (putRef b i ref lba) = ref.lbaTarget ∧
    (refJournalLba i).get (putRef b i ref lba) = lba := by
  simp only [journalBlockRefsMax] at hi
  have hfit : ∀ k w, k + w ≤ 24 → (⟨refOff i + k, w⟩ : Field).Fits blockSize := by
    intro k w hk
    simp only [Field.Fits, refOff, blockSize]
    omega
  constructor
  · rw [putRef, get_put_of_apart, get_put_of_apart, get_put_self]
    · exact hfit 0 8 (by omega)
    · exact ref.lba_lt
    · exact .inl (by simp only [refLbaTarget, refJournalLba]; omega)
    · exact .inl (by simp only [refLbaTarget, refKind]; omega)
  · rw [putRef, get_put_of_apart, get_put_self]
    · exact hfit 8 8 (by omega)
    · exact hlba
    · exact .inl (by simp only [refJournalLba, refKind]; omega)

lemma refFields_putRefs {refs : List BlockRef} : ∀ {i lba : ℕ} {b : Block},
    i + refs.length ≤ journalBlockRefsMax → lba + refs.length < 2 ^ 64 →
    ∀ k (hk : k < refs.length),
      (refLbaTarget (i + k)).get (putRefs b i lba refs) = refs[k].lbaTarget ∧
      (refJournalLba (i + k)).get (putRefs b i lba refs) = lba + k := by
  induction refs with
  | nil =>
    intro i lba b _ _ k hk
    simp at hk
  | cons ref rest ih =>
  intro i lba b hfit hend k hk
  rw [length_cons] at hfit hend hk
  rw [putRefs]
  cases k with
  | zero =>
    have hself := refFields_putRef (by omega : i < journalBlockRefsMax) b ref
      (by omega : lba < 2 ^ 64)
    have hbefore : ∀ {f : Field}, f.off + f.width ≤ refOff (i + 1) →
        f.get (putRefs (putRef b i ref lba) (i + 1) (lba + 1) rest) =
          f.get (putRef b i ref lba) := fun h => get_putRefs h
    constructor
    · rw [Nat.add_zero, hbefore (by simp only [refLbaTarget, refOff]; omega)]
      exact hself.1
    · rw [Nat.add_zero, hbefore (by simp only [refJournalLba, refOff]; omega)]
      exact hself.2
  | succ k =>
    have hrest := @ih (i + 1) (lba + 1) (putRef b i ref lba) (by omega) (by omega) k (by omega)
    rw [show i + 1 + k = i + (k + 1) by omega, show lba + 1 + k = lba + (k + 1) by omega] at hrest
    exact hrest

variable (hend : head + t.blockCount < 2 ^ 64)
include hend

lemma refFields_beginBlock {k : ℕ} (hk : k < t.refs.length) :
    (refLbaTarget k).get (beginBlock t head) = t.refs[k].lbaTarget ∧
    (refJournalLba k).get (beginBlock t head) = head + 1 + k := by
  have hle := t.refs_le
  simp only [Txn.blockCount] at hend
  have h := @refFields_putRefs t.refs 0 (head + 1) (beginHeader t) (by omega) (by omega) k hk
  rwa [Nat.zero_add] at h

lemma stagedAt_beginBlock :
    stagedAt (beginBlock t head) = (List.range t.refs.length).map (head + 1 + ·) := by
  rw [stagedAt, beginRefCount_beginBlock]
  refine map_congr_left fun k hk => ?_
  exact (refFields_beginBlock hend (mem_range.mp hk)).2

omit hend

/-- The payloads of the transaction are in the journal after `head`. -/
def Staged (d : ℕ → Block) (t : Txn) (head : ℕ) : Prop :=
  ∀ k (hk : k < t.refs.length), d (head + 1 + k) = t.refs[k].payload

include hend

lemma readRecord_eq_iff : readRecord d (beginBlock t head) = record t head ↔ Staged d t head := by
  rw [readRecord, record, stagedAt_beginBlock hend, map_map, cons_inj_right]
  constructor
  · intro h k hk
    have hget := congrArg (fun l => l[k]?) h
    simpa [hk] using hget
  · intro h
    apply ext_getElem
    · simp
    · intro k hk _
      have hlt : k < t.refs.length := by simpa using hk
      simpa using h k hlt

lemma applyRefs_beginBlock (hstaged : Staged d t head)
    (houtside : ∀ ref ∈ t.refs, ref.lbaTarget < head ∨ head + t.blockCount ≤ ref.lbaTarget) :
    applyRefs (beginBlock t head) d (List.range t.refs.length) = applyWrites d (homeWrites t) := by
  have hgen : ∀ n (hn : n ≤ t.refs.length),
      applyRefs (beginBlock t head) d (List.range n) =
        applyWrites d ((homeWrites t).take n) := by
    intro n
    induction n with
    | zero =>
      intro _
      rfl
    | succ n ih =>
    intro hn
    have hlt : n < t.refs.length := hn
    obtain ⟨htarget, hjournal⟩ := refFields_beginBlock hend hlt
    have hlen : n < (homeWrites t).length := by simpa [homeWrites] using hlt
    have hread : applyWrites d ((homeWrites t).take n) (head + 1 + n) = t.refs[n].payload := by
      rw [applyWrites_of_not_mem, hstaged n hlt]
      intro w hw
      obtain ⟨ref, href, rfl⟩ := mem_map.mp (mem_of_mem_take hw)
      have hout := houtside ref href
      simp only [Txn.blockCount] at hout
      intro heq
      simp only at heq
      omega
    have hwrite : (homeWrites t)[n] = (t.refs[n].lbaTarget, t.refs[n].payload) := getElem_map _
    simp only [applyRefs] at ih ⊢
    rw [range_succ, foldl_append, ih (by omega), foldl_cons, foldl_nil]
    rw [htarget, hjournal, hread, take_succ_eq_append_getElem hlen, applyWrites_append, hwrite]
    rfl
  have hall := hgen t.refs.length le_rfl
  rwa [take_of_length_le (by simp [homeWrites])] at hall

end GrahaOS.JournalRecords
