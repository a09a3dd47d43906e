import GrahaOS.JournalReplay
import GrahaOS.Runs

/-!
# Crashes during commits

While a record is being written every image is the image of an earlier point with part of the
record; after the first flush the record is complete on every image and only part of its checkpoint
may be missing; after the second flush every image is sound for the home contents with the
transaction in them.
-/

namespace GrahaOS.JournalCrash

open BlockDevice DiskFormat Journaling JournalRecords JournalReplay List

variable {geo : Geometry} {known : List Txn} {nextId head : ℕ} {home img : ℕ → Block} {t : Txn}
  {kept : List (ℕ × Block)} {w : ℕ × Block}

lemma mem_payloadWrites {refs : List BlockRef} : ∀ {lba : ℕ} {w : ℕ × Block},
    w ∈ payloadWrites lba refs → lba ≤ w.1 ∧ w.1 < lba + refs.length ∧
      ∃ ref ∈ refs, w.2 = ref.payload := by
  induction refs with
  | nil =>
    intro lba w hw
    cases hw
  | cons ref rest ih =>
    intro lba w hw
    rcases mem_cons.mp hw with rfl | hw
    · exact ⟨le_rfl, by simp, ref, mem_cons_self, rfl⟩
    obtain ⟨hle, hlt, ref', href', heq⟩ := ih hw
    refine ⟨by omega, ?_, ref', mem_cons_of_mem ref href', heq⟩
    rw [length_cons]
    omega

/-- The writes of a record, one after the other. -/
def journalWrites (t : Txn) (head : ℕ) : List (ℕ × Block) :=
  recordWrites t head ++ [commitWrite t head]

lemma mem_journalWrites : w ∈ journalWrites t head ↔
    w = (head, beginBlock t head) ∨ w ∈ payloadWrites (head + 1) t.refs ∨ w = commitWrite t head := by
  simp [journalWrites, recordWrites]

variable (hkept : ∀ w ∈ kept, w ∈ journalWrites t head)
include hkept

lemma partial_cases (d : ℕ → Block) (lba : ℕ) : applyWrites d kept lba = d lba ∨
    (lba = head ∧ applyWrites d kept lba = beginBlock t head ∧
      (head, beginBlock t head) ∈ kept) ∨
    (head < lba ∧ lba < head + t.blockCount - 1 ∧
      ∃ ref ∈ t.refs, applyWrites d kept lba = ref.payload) ∨
    (lba = head + t.blockCount - 1 ∧
      applyWrites d kept lba = commitBlock t.txnId (crc32Blocks (record t head)) ∧
      commitWrite t head ∈ kept) := by
  by_cases htouched : ∃ w ∈ kept, w.1 = lba
  · obtain ⟨w, hw, rfl, hvalue⟩ := @applyWrites_mem _ kept lba d htouched
    rw [hvalue]
    rcases mem_journalWrites.mp (hkept w hw) with rfl | hmem | rfl
    · exact .inr (.inl ⟨rfl, rfl, hw⟩)
    · obtain ⟨hle, hlt, hpayload⟩ := mem_payloadWrites hmem
      refine .inr (.inr (.inl ⟨by omega, ?_, hpayload⟩))
      simp only [Txn.blockCount]
      omega
    · exact .inr (.inr (.inr ⟨rfl, rfl, hw⟩))
  · refine .inl (applyWrites_of_not_mem ?_)
    intro w hw heq
    exact htouched ⟨w, hw, heq⟩

omit hkept

lemma journalWrites_inArea (geo : Geometry) (t : Txn) :
    ∀ w ∈ journalWrites t geo.base, geo.InArea w.1 := by
  intro w hw
  have hend := record_end_lt geo t
  simp only [Txn.blockCount] at hend
  rcases mem_journalWrites.mp hw with rfl | hw | rfl
  · simp only [Geometry.InArea]
    omega
  · obtain ⟨hle, hlt, -⟩ := mem_payloadWrites hw
    simp only [Geometry.InArea]
    omega
  · simp only [commitWrite, Txn.blockCount, Geometry.InArea]
    omega

lemma base_inArea (geo : Geometry) : geo.InArea geo.base := by
  have hroom := geo.room
  simp only [journalTxnMaxBlocks] at hroom
  exact ⟨le_rfl, by omega⟩

lemma zero_not_inArea (geo : Geometry) : ¬geo.InArea 0 := by
  have hpos := geo.base_pos
  simp only [Geometry.InArea]
  omega

lemma partial_zero (hkept : ∀ w ∈ kept, w ∈ journalWrites t geo.base) (d : ℕ → Block) :
    applyWrites d kept 0 = d 0 := by
  apply applyWrites_of_not_mem
  intro w hw heq
  exact zero_not_inArea geo (heq ▸ journalWrites_inArea geo t w (hkept w hw))

lemma partial_homeEq (hkept : ∀ w ∈ kept, w ∈ journalWrites t geo.base) (d : ℕ → Block) :
    HomeEq geo (applyWrites d kept) d := by
  intro lba hlba
  apply applyWrites_of_not_mem
  rintro w hw rfl
  exact hlba.2 (journalWrites_inArea geo t w (hkept w hw))

lemma journalBegin_ne_commit : journalBegin ≠ journalCommit := by decide

lemma partial_oneBegin (hone : OneBegin geo img) (hplain : Plain geo t.refs)
    (hkept : ∀ w ∈ kept, w ∈ journalWrites t geo.base) : OneBegin geo (applyWrites img kept) := by
  intro lba harea hne
  rcases partial_cases hkept img lba with heq | ⟨heq, -, -⟩ | ⟨-, -, ref, href, heq⟩ | ⟨-, heq, -⟩
  · rw [heq]
    exact hone lba harea hne
  · exact absurd heq hne
  · rw [heq]
    exact fun hbegin => (hplain ref href).2 (.inl hbegin)
  · rw [heq, jMagic_commitBlock]
    exact journalBegin_ne_commit.symm

lemma partial_commit (hplain : Plain geo t.refs) (hkept : ∀ w ∈ kept, w ∈ journalWrites t geo.base)
    {lba : ℕ} (hcommit : jMagic.get (applyWrites img kept lba) = journalCommit) :
    (applyWrites img kept lba = img lba ∧ jMagic.get (img lba) = journalCommit) ∨
    (applyWrites img kept lba = commitBlock t.txnId (crc32Blocks (record t geo.base)) ∧
      commitWrite t geo.base ∈ kept) := by
  rcases partial_cases hkept img lba with heq | ⟨-, heq, -⟩ | ⟨-, -, ref, href, heq⟩ |
      ⟨-, heq, hmem⟩
  · exact .inl ⟨heq, heq ▸ hcommit⟩
  · rw [heq, jMagic_beginBlock] at hcommit
    exact absurd hcommit journalBegin_ne_commit
  · rw [heq] at hcommit
    exact absurd (.inr hcommit) (hplain ref href).2
  · exact .inr ⟨heq, hmem⟩

lemma eq_begin_of_mem (hw : w ∈ journalWrites t head) (hbase : w.1 = head) :
    w = (head, beginBlock t head) := by
  rcases mem_journalWrites.mp hw with rfl | hw | rfl
  · rfl
  · have hge := (mem_payloadWrites hw).1
    omega
  · simp only [commitWrite, Txn.blockCount] at hbase
    omega

lemma eq_commit_of_mem (hw : w ∈ journalWrites t head) (hlast : w.1 = head + t.blockCount - 1) :
    w = commitWrite t head := by
  simp only [Txn.blockCount] at hlast
  rcases mem_journalWrites.mp hw with rfl | hw | rfl
  · simp only at hlast
    omega
  · have hlt := (mem_payloadWrites hw).2.1
    omega
  · rfl

include hkept

lemma partial_begin (hmem : (head, beginBlock t head) ∈ kept) (d : ℕ → Block) :
    applyWrites d kept head = beginBlock t head := by
  obtain ⟨w, hw, hbase, hvalue⟩ := @applyWrites_mem _ kept head d ⟨_, hmem, rfl⟩
  rw [hvalue, eq_begin_of_mem (hkept w hw) hbase]

lemma partial_last (hmem : commitWrite t head ∈ kept) (d : ℕ → Block)
    : applyWrites d kept (head + t.blockCount - 1) =
      commitBlock t.txnId (crc32Blocks (record t head)) := by
  obtain ⟨w, hw, hlast, hvalue⟩ :=
    @applyWrites_mem _ kept (head + t.blockCount - 1) d ⟨_, hmem, rfl⟩
  rw [hvalue, eq_commit_of_mem (hkept w hw) hlast]
  rfl

omit hkept

variable (h : Sound geo known t.txnId home img)
include h

/-- A sound image stays sound while not both ends of the new record are on it. -/
theorem partial_sound (ht : Committable geo t) (hplain : Plain geo t.refs)
    (hkept : ∀ w ∈ kept, w ∈ journalWrites t geo.base)
    (hends : (geo.base, beginBlock t geo.base) ∈ kept → commitWrite t geo.base ∉ kept) :
    Sound geo (t :: known) (t.txnId + 1) home (applyWrites img kept) := by
  have hnew : jTxnId.get (commitBlock t.txnId (crc32Blocks (record t geo.base))) = t.txnId :=
    jTxnId_commitBlock ht.id_lt _
  refine ⟨?_, partial_oneBegin h.oneBegin hplain hkept, ?_, ?_,
    (partial_homeEq hkept img).trans h.homeEq⟩
  · rw [partial_zero hkept]
    exact h.sb
  · intro lba harea hcommit
    rcases partial_commit hplain hkept hcommit with ⟨heq, hold⟩ | ⟨heq, -⟩
    · rw [heq]
      exact (h.commits lba harea hold).trans (Nat.lt_succ_self _)
    · rw [heq, hnew]
      exact Nat.lt_succ_self _
  · intro hbegin
    by_cases hwritten : (geo.base, beginBlock t geo.base) ∈ kept
    · refine ⟨t, mem_cons_self, Nat.lt_succ_self _, ht, partial_begin hkept hwritten img, ?_⟩
      intro lba harea hcommit hid
      rcases partial_commit hplain hkept hcommit with ⟨heq, hold⟩ | ⟨-, hmem⟩
      · have hlt := h.commits lba harea hold
        rw [heq] at hid
        omega
      · exact absurd hmem (hends hwritten)
    · have hsame : applyWrites img kept geo.base = img geo.base := by
        apply applyWrites_of_not_mem
        intro w hw hbase
        exact hwritten (eq_begin_of_mem (hkept w hw) hbase ▸ hw)
      rw [hsame] at hbegin
      obtain ⟨t₀, hknown, hlt, ht₀, hfirst, hcommits⟩ := h.first hbegin
      refine ⟨t₀, mem_cons_of_mem t hknown, hlt.trans (Nat.lt_succ_self _), ht₀,
        hsame.trans hfirst, ?_⟩
      intro lba harea hcommit hid
      rcases partial_commit hplain hkept hcommit with ⟨heq, hold⟩ | ⟨heq, -⟩
      · rw [heq] at hid ⊢
        exact hcommits lba harea hold hid
      · rw [heq, hnew] at hid
        omega

/-- Replay of a torn record does nothing or applies all of it. -/
theorem replay_torn (ht : Committable geo t) (hplain : Plain geo t.refs)
    (hkept : ∀ w ∈ kept, w ∈ journalWrites t geo.base)
    (hcrc : CrcTrusted geo (t :: known) (applyWrites img kept)) :
    HomeEq geo (journalReplay (applyWrites img kept)) home ∨
    HomeEq geo (journalReplay (applyWrites img kept)) (applyWrites home (homeWrites t)) := by
  by_cases hends : (geo.base, beginBlock t geo.base) ∈ kept ∧ commitWrite t geo.base ∈ kept
  · have hhome := (partial_homeEq hkept img).trans h.homeEq
    have hsb : SbOk geo (applyWrites img kept 0) := by
      rw [partial_zero hkept]
      exact h.sb
    cases hvalid : recordValid (applyWrites img kept) (geo.base + geo.size) geo.base with
    | false => exact .inl ((replay_invalid hsb hvalid).trans hhome)
    | true =>
    have hfirst := partial_begin hkept hends.1 img
    obtain ⟨-, -, -, -, -, hsum⟩ := recordValid_checks hvalid
    have hcount : beginBlockCount.get (applyWrites img kept geo.base) = t.blockCount := by
      rw [hfirst, beginBlockCount_beginBlock]
    rw [hcount, partial_last hkept hends.2,
      commitChecksum_commitBlock t.txnId (crc32Blocks_lt _)] at hsum
    have hrecord := hcrc t mem_cons_self hfirst hsum
    rw [hfirst] at hrecord
    have hstaged := (readRecord_eq_iff (record_end_lt_word geo t)).mp hrecord
    have hone := partial_oneBegin h.oneBegin hplain hkept
    exact .inr ((replay_valid hsb hone ht hvalid hfirst hstaged).trans (hhome.applyWrites _))
  · left
    exact replay_sound (partial_sound h ht hplain hkept fun hbegin hcommit =>
      hends ⟨hbegin, hcommit⟩) hcrc

omit h

lemma applyWrites_payloadWrites {refs : List BlockRef} : ∀ {lba : ℕ} {d : ℕ → Block} (k : ℕ)
    (hk : k < refs.length), applyWrites d (payloadWrites lba refs) (lba + k) = refs[k].payload := by
  induction refs with
  | nil =>
    intro lba d k hk
    simp at hk
  | cons ref rest ih =>
  intro lba d k hk
  rw [payloadWrites, applyWrites_cons]
  cases k with
  | zero =>
    rw [applyWrites_of_not_mem]
    · simp
    · intro w hw heq
      have hge := (mem_payloadWrites hw).1
      omega
  | succ k =>
    have hlt : k < rest.length := by simpa using hk
    rw [show lba + (k + 1) = lba + 1 + k by omega, ih k hlt]
    rfl

lemma complete_all (t : Txn) (head : ℕ) (d : ℕ → Block) :
    Complete (applyWrites d (journalWrites t head)) t head := by
  refine ⟨partial_begin (fun _ h => h) (mem_journalWrites.mpr (.inl rfl)) d, ?_,
    partial_last (fun _ h => h) (by simp [journalWrites]) d⟩
  intro k hk
  have hne : head + 1 + k ≠ (commitWrite t head).1 := by
    simp only [commitWrite, Txn.blockCount]
    omega
  rw [journalWrites, applyWrites_append, applyWrites_cons, applyWrites_nil,
    Function.update_of_ne hne, recordWrites, applyWrites_cons]
  exact applyWrites_payloadWrites k hk

lemma Complete.of_agree {d d' : ℕ → Block} (h : Complete d t head)
    (hagree : ∀ lba, head ≤ lba → lba < head + t.blockCount → d' lba = d lba) :
    Complete d' t head := by
  have hcount : t.blockCount = 2 + t.refs.length := rfl
  refine ⟨?_, ?_, ?_⟩
  · rw [hagree head le_rfl (by omega)]
    exact h.first
  · intro k hk
    rw [hagree (head + 1 + k) (by omega) (by omega)]
    exact h.staged k hk
  · rw [hagree (head + t.blockCount - 1) (by omega) (by omega)]
    exact h.last

/-- The disk once the record is durable. -/
def logged (t : Txn) (head : ℕ) (d : ℕ → Block) : ℕ → Block := applyWrites d (journalWrites t head)

/-- Replay during the checkpoint completes it. -/
theorem replay_checkpoint {done : List (ℕ × Block)} (h : Sound geo known nextId home img)
    (ht : Committable geo t) (hplain : Plain geo t.refs) (hdone : ∀ w ∈ done, w ∈ homeWrites t) :
    HomeEq geo (journalReplay (applyWrites (logged t geo.base img) done))
      (applyWrites home (homeWrites t)) := by
  have harea : ∀ lba, geo.InArea lba →
      applyWrites (logged t geo.base img) done lba = logged t geo.base img lba := by
    intro lba hin
    exact applyWrites_of_not_mem fun w hw heq =>
      homeWrites_not_inArea ht w (hdone w hw) (heq ▸ hin)
  have hzero : applyWrites (logged t geo.base img) done 0 = img 0 := by
    rw [applyWrites_of_not_mem, logged, partial_zero fun _ hw => hw]
    intro w hw heq
    obtain ⟨ref, href, rfl⟩ := mem_map.mp (hdone w hw)
    exact (ht.targets ref href).1 heq
  have hsb : SbOk geo (applyWrites (logged t geo.base img) done 0) := hzero ▸ h.sb
  have hone : OneBegin geo (applyWrites (logged t geo.base img) done) := by
    intro lba hin hne
    rw [harea lba hin]
    exact partial_oneBegin h.oneBegin hplain (fun _ hw => hw) lba hin hne
  have hcomplete : Complete (applyWrites (logged t geo.base img) done) t geo.base := by
    refine Complete.of_agree (complete_all t geo.base img) fun lba hge hlt => harea lba ⟨hge, ?_⟩
    have hend := record_end_lt geo t
    omega
  have hreplay := replay_complete hsb hone ht hcomplete
  rw [applyWrites_absorb hdone] at hreplay
  exact hreplay.trans (((partial_homeEq (fun _ hw => hw) img).trans h.homeEq).applyWrites _)

include h

/-- After the checkpoint the image is sound for the new home contents. -/
theorem sound_checkpointed (ht : Committable geo t) (hplain : Plain geo t.refs) :
    Sound geo (t :: known) (t.txnId + 1) (applyWrites home (homeWrites t))
      (applyWrites (logged t geo.base img) (homeWrites t)) := by
  have hall : ∀ w ∈ journalWrites t geo.base, w ∈ journalWrites t geo.base := fun _ hw => hw
  have harea : ∀ lba, geo.InArea lba →
      applyWrites (logged t geo.base img) (homeWrites t) lba = logged t geo.base img lba := by
    intro lba hin
    exact applyWrites_of_not_mem fun w hw heq => homeWrites_not_inArea ht w hw (heq ▸ hin)
  have hnew : jTxnId.get (commitBlock t.txnId (crc32Blocks (record t geo.base))) = t.txnId :=
    jTxnId_commitBlock ht.id_lt _
  refine ⟨?_, ?_, ?_, ?_, ?_⟩
  · rw [applyWrites_of_not_mem, logged, partial_zero hall]
    · exact h.sb
    · intro w hw heq
      obtain ⟨ref, href, rfl⟩ := mem_map.mp hw
      exact (ht.targets ref href).1 heq
  · intro lba hin hne
    rw [harea lba hin]
    exact partial_oneBegin h.oneBegin hplain hall lba hin hne
  · intro lba hin hcommit
    rw [harea lba hin] at hcommit ⊢
    rcases partial_commit hplain hall hcommit with ⟨heq, hold⟩ | ⟨heq, -⟩
    · rw [logged, heq]
      exact (h.commits lba hin hold).trans (Nat.lt_succ_self _)
    · rw [logged, heq, hnew]
      exact Nat.lt_succ_self _
  · intro _
    refine ⟨t, mem_cons_self, Nat.lt_succ_self _, ht, ?_, ?_⟩
    · rw [harea _ (base_inArea geo)]
      exact (complete_all t geo.base img).first
    intro lba hin hcommit hid
    rw [harea lba hin] at hcommit hid ⊢
    rcases partial_commit hplain hall hcommit with ⟨heq, hold⟩ | ⟨heq, -⟩
    · have hlt := h.commits lba hin hold
      rw [logged, heq] at hid
      omega
    · refine ⟨?_, ?_⟩
      · rw [logged, heq, commitChecksum_commitBlock t.txnId (crc32Blocks_lt _)]
      · rw [Applied, applyWrites_absorb fun _ hw => hw]
        exact HomeEq.refl geo _
  · exact ((partial_homeEq hall img).trans h.homeEq).applyWrites _

end GrahaOS.JournalCrash
