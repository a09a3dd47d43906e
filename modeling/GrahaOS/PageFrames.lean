import GrahaOS.Runs

/-!
# The physical page allocator

`arch/x86_64/mm/pmm.c`: a bitmap with one bit for each physical frame, set while the frame is in
use, and a byte for each frame, the number of references to it. Pages are passed by address, so the
address 0 is both frame 0 and the null pointer: an allocation that picks frame 0 looks to its caller
like a failed one.

The count saturates at 255. `pmm_page_ref` then returns as if it had taken a reference, and the
frees that give all references back bring the count to zero too early.
-/

namespace GrahaOS.PageFrames

open Runs Function List

def pageSize : ℕ := 4096

/-- The state of `pmm.c`: `bitmap`, `pp_refcounts`, `total_pages`, `used_pages`,
`last_used_index`, and the fault injection counter `g_debug_pmm_fail_nth`. -/
structure Pmm where
  bitmap : ℕ → BitVec 8
  refcounts : ℕ → ℕ
  totalPages : ℕ
  usedPages : BitVec 64
  failNth : ℤ
  lastUsedIndex : ℕ
  lastUsedIndex_le : lastUsedIndex ≤ totalPages

variable (bitmap : ℕ → BitVec 8)

def bitmapSetBit (page : ℕ) : ℕ → BitVec 8 :=
  Function.update bitmap (page / 8) (bitmap (page / 8) ||| 1#8 <<< (page % 8))

def bitmapClearBit (page : ℕ) : ℕ → BitVec 8 :=
  Function.update bitmap (page / 8) (bitmap (page / 8) &&& ~~~(1#8 <<< (page % 8)))

def bitmapTestBit (page : ℕ) : Bool :=
  bitmap (page / 8) &&& 1#8 <<< (page % 8) != 0#8

lemma getLsbD_mask (page bit : ℕ) : (1#8 <<< (page % 8)).getLsbD bit = decide (page % 8 = bit) := by
  rw [← BitVec.twoPow_eq, BitVec.getLsbD_twoPow,
    decide_eq_true (Nat.mod_lt page (by decide : 8 > 0)), Bool.true_and]

theorem bitmapTestBit_eq (page : ℕ) :
    bitmapTestBit bitmap page = (bitmap (page / 8)).getLsbD (page % 8) := by
  have hmask : 1#8 <<< (page % 8) ≠ 0#8 := by
    intro h
    have hbit := getLsbD_mask page (page % 8)
    simp [h] at hbit
  rw [bitmapTestBit, ← BitVec.twoPow_eq, BitVec.and_twoPow, BitVec.twoPow_eq]
  cases (bitmap (page / 8)).getLsbD (page % 8) <;> simp [hmask]

variable {page num pages i : ℕ} {p q r p' pmm : Pmm} {l l' : List ℕ}

lemma page_eq_iff {page' : ℕ} (hbyte : page' / 8 = page / 8) :
    page % 8 = page' % 8 ↔ page' = page := by
  omega

@[simp] theorem bitmapTestBit_setBit (bitmap : ℕ → BitVec 8) (page page' : ℕ) :
    bitmapTestBit (bitmapSetBit bitmap page) page' =
      (decide (page' = page) || bitmapTestBit bitmap page') := by
  simp only [bitmapTestBit_eq, bitmapSetBit]
  by_cases hbyte : page' / 8 = page / 8
  · rw [hbyte, update_self, BitVec.getLsbD_or, getLsbD_mask, Bool.or_comm]
    simp only [page_eq_iff hbyte]
  · have hne : page' ≠ page := fun h => hbyte (h ▸ rfl)
    rw [update_of_ne hbyte, decide_eq_false hne, Bool.false_or]

@[simp] theorem bitmapTestBit_clearBit (bitmap : ℕ → BitVec 8) (page page' : ℕ) :
    bitmapTestBit (bitmapClearBit bitmap page) page' =
      (!decide (page' = page) && bitmapTestBit bitmap page') := by
  have hbit : page' % 8 < 8 := Nat.mod_lt _ (by decide)
  simp only [bitmapTestBit_eq, bitmapClearBit]
  by_cases hbyte : page' / 8 = page / 8
  · rw [hbyte, update_self, BitVec.getLsbD_and, BitVec.getLsbD_not, getLsbD_mask,
      decide_eq_true hbit, Bool.true_and, Bool.and_comm]
    simp only [page_eq_iff hbyte]
  · have hne : page' ≠ page := fun h => hbyte (h ▸ rfl)
    rw [update_of_ne hbyte, decide_eq_false hne, Bool.not_false, Bool.true_and]

variable (p)

/-- The frame's bit is set. -/
def Pmm.used (frame : ℕ) : Bool := bitmapTestBit p.bitmap frame

/-- The frame is marked and gets its first reference. -/
def Pmm.mark (frame : ℕ) : Pmm :=
  { p with
    bitmap := bitmapSetBit p.bitmap frame
    refcounts := Function.update p.refcounts frame 1 }

/-- The fault injection at the head of both allocators: the counter goes down, and the call
that brings it to zero fails. -/
def injectFault : Bool × Pmm :=
  if 0 < p.failNth then (p.failNth - 1 = 0, { p with failNth := p.failNth - 1 })
  else (false, p)

/-- The first clear bit among the pages `first`, …, `first + count - 1`. -/
def firstClear (first count : ℕ) : Option ℕ :=
  (List.range' first count).find? fun i => !p.used i

/-- The search of `pmm_alloc_page`: from the last used index to the end, then from the
beginning. -/
def freeFrame : Option ℕ :=
  (firstClear p p.lastUsedIndex (p.totalPages - p.lastUsedIndex)).or
    (firstClear p 0 p.lastUsedIndex)

variable {p}

lemma firstClear_spec {first count : ℕ} (h : firstClear p first count = some i) :
    first ≤ i ∧ i < first + count ∧ p.used i = false := by
  have hmem := mem_range'_1.mp (mem_of_find?_eq_some h)
  have hclear := List.find?_some h
  exact ⟨hmem.1, hmem.2, by simpa using hclear⟩

lemma freeFrame_spec (h : freeFrame p = some i) : i < p.totalPages ∧ p.used i = false := by
  have hle := p.lastUsedIndex_le
  rcases Option.or_eq_some_iff.mp h with h | ⟨_, h⟩
  · obtain ⟨hlo, hhi, hclear⟩ := firstClear_spec h
    exact ⟨by omega, hclear⟩
  · obtain ⟨hlo, hhi, hclear⟩ := firstClear_spec h
    exact ⟨by omega, hclear⟩

/-- `pmm_alloc_page`. The address is 0 when there is no free page. -/
def pmmAllocPage (p : Pmm) : ℕ × Pmm :=
  let (fault, p) := injectFault p
  if fault then (0, p) else
  match h : freeFrame p with
  | none => (0, p)
  | some i =>
    (i * pageSize,
      { p.mark i with
        usedPages := p.usedPages + 1
        lastUsedIndex := i + 1
        lastUsedIndex_le := (freeFrame_spec h).1 })

/-- The scan of `pmm_alloc_pages` over the last `left` pages: `consecutive` pages before them
are clear. The result is the first page of a clear run of `num` pages. -/
def scanRun (p : Pmm) (num : ℕ) : ℕ → ℕ → Option ℕ
  | 0, _ => none
  | left + 1, consecutive =>
    let i := p.totalPages - (left + 1)
    let consecutive := if p.used i then 0 else consecutive + 1
    if consecutive = num then some (i + 1 - num) else scanRun p num left consecutive

variable (p)

/-- `num` pages marked from `start` on. -/
def markRun (start num : ℕ) : Pmm :=
  (List.range' start num).foldl Pmm.mark p

def pmmAllocPages (num : ℕ) : ℕ × Pmm :=
  if num = 0 then (0, p) else
  if num = 1 then pmmAllocPage p else
  let (fault, p) := injectFault p
  if fault then (0, p) else
  match scanRun p num p.totalPages 0 with
  | none => (0, p)
  | some start =>
    (start * pageSize,
      { markRun p start num with usedPages := p.usedPages + BitVec.ofNat 64 num })

/-- The part that `pmm_free_page` and `pmm_free_pages` do for one frame: the count goes down,
and the bit is cleared when it is zero. -/
def dropRef (frame : ℕ) : Pmm :=
  if frame < p.totalPages ∧ p.used frame then
    if p.refcounts frame - 1 = 0 then
      { p with
        refcounts := Function.update p.refcounts frame 0
        bitmap := bitmapClearBit p.bitmap frame
        usedPages := p.usedPages - 1 }
    else { p with refcounts := Function.update p.refcounts frame (p.refcounts frame - 1) }
  else p

/-- The last reference to the frame is given back by `dropRef`. -/
def lastRef (frame : ℕ) : Bool :=
  frame < p.totalPages && p.used frame && p.refcounts frame - 1 = 0

/-- `pmm_free_page`; `pmm_page_unref` is the same function. -/
def pmmFreePage (page : ℕ) : Pmm :=
  if page = 0 then p else
  let frame := page / pageSize
  let p' := dropRef p frame
  if h : lastRef p frame ∧ frame < p'.lastUsedIndex then
    { p' with
      lastUsedIndex := frame
      lastUsedIndex_le := h.2.le.trans p'.lastUsedIndex_le }
  else p'

def pmmFreePages (pages num : ℕ) : Pmm :=
  if pages = 0 ∨ num = 0 then p else
  let start := pages / pageSize
  let p' := (List.range' start num).foldl dropRef p
  if h : start < p'.lastUsedIndex then
    { p' with
      lastUsedIndex := start
      lastUsedIndex_le := h.le.trans p'.lastUsedIndex_le }
  else p'

def pmmPageRef (page : ℕ) : Pmm :=
  if page = 0 then p else
  let frame := page / pageSize
  if frame < p.totalPages ∧ p.used frame ∧ p.refcounts frame < 255 then
    { p with refcounts := Function.update p.refcounts frame (p.refcounts frame + 1) }
  else p

variable {p}

/-- A frame in use keeps its bit and its count. -/
structure Keeps (p p' : Pmm) : Prop where
  total : p'.totalPages = p.totalPages
  used : ∀ f, p.used f → p'.used f
  refcounts : ∀ f, p.used f → p'.refcounts f = p.refcounts f

theorem Keeps.refl (p : Pmm) : Keeps p p := ⟨rfl, fun _ h => h, fun _ _ => rfl⟩

theorem Keeps.trans (h : Keeps p q) (h' : Keeps q r) : Keeps p r where
  total := h'.total.trans h.total
  used := fun f hf => h'.used f (h.used f hf)
  refcounts := fun f hf => (h'.refcounts f (h.used f hf)).trans (h.refcounts f hf)

/-- An allocator call has returned the address: the `num` frames from there on were free and
now have one reference, and frames in use are as before. -/
structure Grants (p : Pmm) (num addr : ℕ) (p' : Pmm) : Prop where
  keeps : Keeps p p'
  aligned : addr = addr / pageSize * pageSize
  granted : addr ≠ 0 → ∀ f, addr / pageSize ≤ f → f < addr / pageSize + num →
    f < p.totalPages ∧ p.used f = false ∧ p'.used f ∧ p'.refcounts f = 1

variable (p)

@[simp] theorem used_mark (frame f : ℕ) :
    (p.mark frame).used f = (decide (f = frame) || p.used f) := by
  simp [Pmm.used, Pmm.mark]

@[simp] theorem refcounts_mark (frame f : ℕ) :
    (p.mark frame).refcounts f = if f = frame then 1 else p.refcounts f := by
  simp [Pmm.mark, update_apply]

lemma markRun_spec (start num : ℕ) : (markRun p start num).totalPages = p.totalPages ∧ ∀ f,
      (markRun p start num).used f = (decide (f ∈ List.range' start num) || p.used f) ∧
      (markRun p start num).refcounts f =
        if f ∈ List.range' start num then 1 else p.refcounts f := by
  rw [markRun]
  generalize List.range' start num = l
  induction l generalizing p with
  | nil => simp
  | cons a l ih =>
    obtain ⟨htotal, hframes⟩ := ih (p.mark a)
    rw [foldl_cons]
    refine ⟨htotal, fun f => ?_⟩
    rw [(hframes f).1, (hframes f).2, used_mark, refcounts_mark]
    by_cases hl : f ∈ l <;> by_cases ha : f = a <;> simp [hl, ha]

lemma keeps_injectFault : Keeps p (injectFault p).2 ∧ (injectFault p).2.used = p.used := by
  rw [injectFault]
  split_ifs
  · exact ⟨⟨rfl, fun _ h => h, fun _ _ => rfl⟩, rfl⟩
  · exact ⟨Keeps.refl p, rfl⟩

variable {p}

lemma grants_zero (h : Keeps p p') (num : ℕ) : Grants p num 0 p' where
  keeps := h
  aligned := by simp
  granted := fun h0 => absurd rfl h0

lemma grants_markRun {start : ℕ} (hpq : Keeps p q) (hused : q.used = p.used)
    (hfree : ∀ f, start ≤ f → f < start + num → f < p.totalPages ∧ p.used f = false)
    (hbits : p'.used = (markRun q start num).used)
    (hcounts : p'.refcounts = (markRun q start num).refcounts)
    (htotal : p'.totalPages = q.totalPages) : Grants p num (start * pageSize) p' := by
  have hdiv : start * pageSize / pageSize = start := Nat.mul_div_cancel _ (by decide)
  have hmarked := (markRun_spec q start num).2
  constructor
  · -- a frame in use is not among the marked ones
    have hout : ∀ f, p.used f → f ∉ List.range' start num := by
      intro f hf hmem
      have hr := mem_range'_1.mp hmem
      simp [(hfree f hr.1 hr.2).2] at hf
    refine ⟨htotal.trans hpq.total, fun f hf => ?_, fun f hf => ?_⟩
    · rw [hbits, (hmarked f).1, hused, hf, Bool.or_true]
    · rw [hcounts, (hmarked f).2, if_neg (hout f hf), hpq.refcounts f hf]
  · rw [hdiv]
  · intro _ f hlo hhi
    rw [hdiv] at hlo hhi
    have hmem : f ∈ List.range' start num := mem_range'_1.mpr ⟨hlo, hhi⟩
    refine ⟨(hfree f hlo hhi).1, (hfree f hlo hhi).2, ?_, ?_⟩
    · rw [hbits, (hmarked f).1, decide_eq_true hmem, Bool.true_or]
    · rw [hcounts, (hmarked f).2, if_pos hmem]

theorem pmmAllocPage_spec (p : Pmm) : Grants p 1 (pmmAllocPage p).1 (pmmAllocPage p).2 := by
  obtain ⟨hkeep, hused⟩ := keeps_injectFault p
  rw [pmmAllocPage]
  generalize injectFault p = r at hkeep hused ⊢
  obtain ⟨fault, q⟩ := r
  dsimp only at hkeep hused ⊢
  by_cases hfault : fault
  · rw [if_pos hfault]
    exact grants_zero hkeep 1
  rw [if_neg hfault]
  split
  · exact grants_zero hkeep 1
  rename_i i hi
  have hspec := freeFrame_spec hi
  rw [hused, hkeep.total] at hspec
  refine grants_markRun hkeep hused (fun f hlo hhi => ?_) rfl rfl rfl
  obtain rfl : f = i := by omega
  exact hspec

/-- A run found by the scan is clear: its last pages by the scan, the first ones because they
were counted before. -/
lemma scanRun_spec {start : ℕ} (hnum : 0 < num) :
    ∀ {left consecutive : ℕ}, left ≤ p.totalPages → consecutive ≤ p.totalPages - left →
      (∀ f, p.totalPages - left - consecutive ≤ f → f < p.totalPages - left → p.used f = false) →
      scanRun p num left consecutive = some start →
      ∀ f, start ≤ f → f < start + num → f < p.totalPages ∧ p.used f = false := by
  intro left
  induction left with
  | zero => intro consecutive _ _ _ h; cases h
  | succ left ih =>
  intro consecutive hleft hcons hclear h
  rw [scanRun] at h
  set i := p.totalPages - (left + 1) with hi
  have hnext : p.totalPages - left = i + 1 := by omega
  cases hbit : p.used i with
  | true =>
    rw [hbit, if_pos rfl, if_neg (by omega)] at h
    refine ih (by omega) (Nat.zero_le _) (fun f hlo hhi => ?_) h
    omega
  | false =>
  -- the page extends the run by one
  have hclear' : ∀ f, i + 1 - (consecutive + 1) ≤ f → f < i + 1 → p.used f = false := by
    intro f hlo hhi
    rcases Nat.lt_succ_iff_lt_or_eq.mp hhi with hlt | rfl
    · exact hclear f (by omega) hlt
    · exact hbit
  simp only [hbit, Bool.false_eq_true, if_false] at h
  by_cases hfull : consecutive + 1 = num
  · rw [if_pos hfull, Option.some.injEq] at h
    intro f hlo hhi
    exact ⟨by omega, hclear' f (by omega) (by omega)⟩
  · rw [if_neg hfull] at h
    exact ih (by omega) (by omega) (by rw [hnext]; exact hclear') h

theorem pmmAllocPages_spec (p : Pmm) (num : ℕ) :
    Grants p num (pmmAllocPages p num).1 (pmmAllocPages p num).2 := by
  obtain ⟨hkeep, hused⟩ := keeps_injectFault p
  rw [pmmAllocPages]
  by_cases h0 : num = 0
  · rw [if_pos h0]
    exact grants_zero (Keeps.refl p) num
  rw [if_neg h0]
  by_cases h1 : num = 1
  · rw [if_pos h1, h1]
    exact pmmAllocPage_spec p
  rw [if_neg h1]
  generalize injectFault p = r at hkeep hused ⊢
  obtain ⟨fault, q⟩ := r
  dsimp only at hkeep hused ⊢
  by_cases hfault : fault
  · rw [if_pos hfault]
    exact grants_zero hkeep num
  rw [if_neg hfault]
  split
  · exact grants_zero hkeep num
  rename_i start hstart
  have hrun := scanRun_spec (by omega) le_rfl (Nat.zero_le _) (fun f _ hf => by omega) hstart
  rw [hused, hkeep.total] at hrun
  exact grants_markRun hkeep hused hrun rfl rfl (markRun_spec ..).1

/-- A free frame besides frame 0 is found. -/
theorem pmmAllocPage_ne_zero (frame : ℕ) (hfail : p.failNth ≤ 0) (hzero : p.used 0)
    (hframe : frame < p.totalPages) (hfree : p.used frame = false) : (pmmAllocPage p).1 ≠ 0 := by
  have hinject : injectFault p = (false, p) := if_neg (by omega)
  rw [pmmAllocPage, hinject]
  dsimp only
  rw [if_neg Bool.false_ne_true]
  split
  · rename_i hnone
    obtain ⟨hlast, hfirst⟩ := Option.or_eq_none_iff.mp hnone
    rcases lt_or_ge frame p.lastUsedIndex with hlt | hge
    · have := List.find?_eq_none.mp hfirst frame (mem_range'_1.mpr (by omega))
      simp [hfree] at this
    · have := List.find?_eq_none.mp hlast frame (mem_range'_1.mpr (by omega))
      simp [hfree] at this
  · rename_i i hi
    have hne : i ≠ 0 := by
      rintro rfl
      have := (freeFrame_spec hi).2
      rw [hzero] at this
      cases this
    simpa [pageSize] using hne

/-- Each frame of the list has lost a reference, and is free if that was the last one. -/
structure Drops (p p' : Pmm) (frames : List ℕ) : Prop where
  total : p'.totalPages = p.totalPages
  refcounts : ∀ f, p'.refcounts f =
    if f ∈ frames ∧ f < p.totalPages ∧ p.used f then p.refcounts f - 1 else p.refcounts f
  used : ∀ f, p'.used f =
    if f ∈ frames ∧ f < p.totalPages ∧ p.refcounts f - 1 = 0 then false else p.used f

variable (p)

lemma dropRef_drops (frame : ℕ) : Drops p (dropRef p frame) [frame] := by
  refine ⟨?_, fun f => ?_, fun f => ?_⟩ <;> unfold dropRef
  · split_ifs <;> rfl
  · by_cases hf : f = frame
    · subst hf
      split_ifs <;> simp_all
    · simp only [mem_singleton, hf, false_and, if_false]
      split_ifs <;> simp [update_of_ne hf]
  · by_cases hf : f = frame
    · subst hf
      split_ifs <;> simp_all [Pmm.used]
    · simp only [mem_singleton, hf, false_and, if_false]
      split_ifs <;> simp [Pmm.used, hf]

lemma foldl_dropRef_drops (hl : l.Nodup) : Drops p (l.foldl dropRef p) l := by
  induction l generalizing p with
  | nil => exact ⟨rfl, by simp, by simp⟩
  | cons a l ih =>
  obtain ⟨ha, hl⟩ := nodup_cons.mp hl
  have hfirst := dropRef_drops p a
  have hrest := ih (dropRef p a) hl
  refine ⟨hrest.total.trans hfirst.total, fun f => ?_, fun f => ?_⟩
  · rw [foldl_cons, hrest.refcounts, hfirst.total, hfirst.refcounts, hfirst.used]
    by_cases hf : f = a
    · subst hf
      simp [ha]
    · simp [hf]
  · rw [foldl_cons, hrest.used, hfirst.total, hfirst.refcounts, hfirst.used]
    by_cases hf : f = a
    · subst hf
      simp [ha]
    · simp [hf]

theorem pmmFreePage_drops (hpage : page ≠ 0) : Drops p (pmmFreePage p page) [page / pageSize] := by
  obtain ⟨htotal, hrefcounts, hused⟩ := dropRef_drops p (page / pageSize)
  rw [pmmFreePage, if_neg hpage]
  dsimp only
  split_ifs
  · exact ⟨htotal, hrefcounts, hused⟩
  · exact ⟨htotal, hrefcounts, hused⟩

@[simp] theorem failNth_pmmFreePage (page : ℕ) : (pmmFreePage p page).failNth = p.failNth := by
  unfold pmmFreePage dropRef
  dsimp only
  split_ifs <;> rfl

theorem pmmFreePages_drops (hpages : pages ≠ 0) (num : ℕ) :
    Drops p (pmmFreePages p pages num) (List.range' (pages / pageSize) num) := by
  obtain ⟨htotal, hrefcounts, hused⟩ :=
    foldl_dropRef_drops p (nodup_range')
  rw [pmmFreePages]
  by_cases hnum : num = 0
  · exact ⟨by simp [hnum], by simp [hnum], by simp [hnum]⟩
  rw [if_neg (by tauto)]
  dsimp only
  split_ifs
  · exact ⟨htotal, hrefcounts, hused⟩
  · exact ⟨htotal, hrefcounts, hused⟩

@[simp] theorem totalPages_pmmPageRef (page : ℕ) :
    (pmmPageRef p page).totalPages = p.totalPages := by
  unfold pmmPageRef
  dsimp only
  split_ifs <;> rfl

@[simp] theorem failNth_pmmPageRef (page : ℕ) : (pmmPageRef p page).failNth = p.failNth := by
  unfold pmmPageRef
  dsimp only
  split_ifs <;> rfl

@[simp] theorem used_pmmPageRef (page : ℕ) : (pmmPageRef p page).used = p.used := by
  unfold pmmPageRef
  dsimp only
  split_ifs <;> rfl

theorem refcounts_pmmPageRef (hpage : page ≠ 0) (f : ℕ) : (pmmPageRef p page).refcounts f =
      if f = page / pageSize ∧ f < p.totalPages ∧ p.used f ∧ p.refcounts f < 255 then
        p.refcounts f + 1 else p.refcounts f := by
  rw [pmmPageRef, if_neg hpage]
  dsimp only
  by_cases hf : f = page / pageSize
  · subst hf
    split_ifs <;> simp_all
  · simp only [hf, false_and, if_false]
    split_ifs <;> simp [update_of_ne hf]

variable {p}

/-- Every frame of the list, as often as it is in it, has got a reference. -/
structure Referenced (p p' : Pmm) (frames : List ℕ) : Prop where
  total : p'.totalPages = p.totalPages
  used : p'.used = p.used
  count : ∀ f, f < p.totalPages → p.used f → p.refcounts f + frames.count f ≤ 255 →
    p'.refcounts f = p.refcounts f + frames.count f

/-- Every frame of the list, as often as it is in it, has lost a reference. -/
structure Released (p p' : Pmm) (frames : List ℕ) : Prop where
  total : p'.totalPages = p.totalPages
  other : ∀ f ∉ frames, p'.used f = p.used f ∧ p'.refcounts f = p.refcounts f
  dropped : ∀ f ∈ frames, f < p.totalPages → p.used f → frames.count f ≤ p.refcounts f →
    p'.refcounts f = p.refcounts f - frames.count f ∧
      p'.used f = decide (frames.count f < p.refcounts f)

theorem Referenced.nil (p : Pmm) : Referenced p p [] := ⟨rfl, rfl, fun _ _ _ _ => rfl⟩

theorem Referenced.trans (h : Referenced p q l) (h' : Referenced q r l') :
    Referenced p r (l ++ l') where
  total := h'.total.trans h.total
  used := h'.used.trans h.used
  count := fun f hlt hused hle => by
    rw [count_append] at hle ⊢
    have hq := h.count f hlt hused (by omega)
    rw [h'.count f (by rw [h.total]; exact hlt) (by rw [h.used]; exact hused) (by omega), hq]
    omega

theorem pmmPageRef_referenced (p : Pmm) (hpage : page ≠ 0) :
    Referenced p (pmmPageRef p page) [page / pageSize] where
  total := totalPages_pmmPageRef ..
  used := used_pmmPageRef ..
  count := fun f hlt hused hle => by
    rw [refcounts_pmmPageRef _ hpage]
    by_cases hf : f = page / pageSize
    · have hone : [page / pageSize].count f = 1 := by simp [hf]
      rw [hone] at hle ⊢
      rw [if_pos ⟨hf, hlt, hused, by omega⟩]
    · have hzero : [page / pageSize].count f = 0 := count_eq_zero.mpr (by simpa using hf)
      rw [hzero, if_neg (fun h => hf h.1)]
      rfl

theorem Released.nil (p : Pmm) : Released p p [] :=
  ⟨rfl, fun _ _ => ⟨rfl, rfl⟩, fun _ h => absurd h not_mem_nil⟩

theorem Released.trans (h : Released p q l) (h' : Released q r l') : Released p r (l ++ l') where
  total := h'.total.trans h.total
  other := fun f hf => by
    rw [mem_append, not_or] at hf
    obtain ⟨hu, hr⟩ := h.other f hf.1
    obtain ⟨hu', hr'⟩ := h'.other f hf.2
    exact ⟨hu'.trans hu, hr'.trans hr⟩
  dropped := fun f hf hlt hused hle => by
    rw [count_append] at hle ⊢
    by_cases hl : f ∈ l
    · obtain ⟨hr, hu⟩ := h.dropped f hl hlt hused (by omega)
      by_cases hl' : f ∈ l'
      · -- a frame that loses more references later is still in use
        have hpos := count_pos_iff.mpr hl'
        obtain ⟨hr', hu'⟩ := h'.dropped f hl' (by rw [h.total]; exact hlt)
          (by rw [hu, decide_eq_true_eq]; omega) (by omega)
        rw [hr', hu', hr]
        exact ⟨by omega, decide_eq_decide.mpr (by omega)⟩
      · obtain ⟨hu', hr'⟩ := h'.other f hl'
        rw [hr', hu', hr, hu, count_eq_zero.mpr hl']
        exact ⟨rfl, rfl⟩
    · obtain ⟨hu, hr⟩ := h.other f hl
      have hl' : f ∈ l' := (mem_append.mp hf).resolve_left hl
      rw [count_eq_zero.mpr hl, Nat.zero_add] at hle ⊢
      rw [← hr] at hle ⊢
      exact h'.dropped f hl' (by rw [h.total]; exact hlt) (by rw [hu]; exact hused) hle

lemma Drops.released (h : Drops p p' l) (hnodup : l.Nodup) : Released p p' l where
  total := h.total
  other := fun f hf => by simp [h.refcounts, h.used, hf]
  dropped := fun f hf hlt hused hle => by
    rw [count_eq_one_of_mem hnodup hf] at hle ⊢
    rw [h.refcounts, if_pos ⟨hf, hlt, hused⟩, h.used, hused]
    refine ⟨rfl, ?_⟩
    by_cases hlast : p.refcounts f - 1 = 0
    · rw [if_pos ⟨hf, hlt, hlast⟩, eq_comm, decide_eq_false_iff_not]
      omega
    · rw [if_neg (fun h => hlast h.2.2), eq_comm, decide_eq_true_eq]
      omega

theorem pmmFreePage_released (p : Pmm) (hpage : page ≠ 0) :
    Released p (pmmFreePage p page) [page / pageSize] :=
  (pmmFreePage_drops p hpage).released (nodup_singleton _)

theorem pmmFreePages_released (p : Pmm) (hpages : pages ≠ 0) (num : ℕ) :
    Released p (pmmFreePages p pages num) (List.range' (pages / pageSize) num) :=
  (pmmFreePages_drops p hpages num).released nodup_range'

/-- The allocator, and for each frame the number of references that its callers have taken,
by an allocation or by `pmm_page_ref`, and not given back. -/
structure Ledger where
  pmm : Pmm
  held : ℕ → ℕ

/-- The frames of the pages that a call names; none for the null pointer. -/
def framesAt (page num : ℕ) : List ℕ :=
  if page = 0 then [] else List.range' (page / pageSize) num

theorem mem_framesAt {f : ℕ} :
    f ∈ framesAt page num ↔
      page ≠ 0 ∧ page / pageSize ≤ f ∧ f < page / pageSize + num := by
  rw [framesAt]
  split_ifs with h
  · simp [h]
  · simp [h, mem_range'_1]

/-- One reference more on each frame of the list. -/
def taken (held : ℕ → ℕ) (frames : List ℕ) (f : ℕ) : ℕ := held f + if f ∈ frames then 1 else 0

/-- One reference less on each frame of the list. -/
def given (held : ℕ → ℕ) (frames : List ℕ) (f : ℕ) : ℕ := held f - if f ∈ frames then 1 else 0

inductive PmmOp where
  | allocPage
  | allocPages (num : ℕ)
  | pageRef (page : ℕ)
  | freePage (page : ℕ)
  | freePages (pages num : ℕ)

def step (s : Ledger) : PmmOp → Ledger
  | .allocPage =>
    let (page, pmm) := pmmAllocPage s.pmm
    ⟨pmm, taken s.held (framesAt page 1)⟩
  | .allocPages num =>
    let (page, pmm) := pmmAllocPages s.pmm num
    ⟨pmm, taken s.held (framesAt page num)⟩
  | .pageRef page => ⟨pmmPageRef s.pmm page, taken s.held (framesAt page 1)⟩
  | .freePage page => ⟨pmmFreePage s.pmm page, given s.held (framesAt page 1)⟩
  | .freePages pages num => ⟨pmmFreePages s.pmm pages num, given s.held (framesAt pages num)⟩

/-- References are taken on, and given back for, frames that the caller holds. -/
def Owned (s : Ledger) : PmmOp → Prop
  | .allocPage | .allocPages _ => True
  | .pageRef page | .freePage page => ∀ f ∈ framesAt page 1, 0 < s.held f
  | .freePages pages num => ∀ f ∈ framesAt pages num, 0 < s.held f

/-- No reference is taken on a frame whose count is at its maximum. -/
def Countable (s : Ledger) : PmmOp → Prop
  | .pageRef page => ∀ f ∈ framesAt page 1, s.pmm.refcounts f < 255
  | _ => True

/-- A frame that a caller holds is in use, and its count covers the references. -/
def Covered (s : Ledger) : Prop :=
  ∀ f, 0 < s.held f → f < s.pmm.totalPages ∧ s.pmm.used f ∧ s.held f ≤ s.pmm.refcounts f

variable {s : Ledger}

lemma covered_grants (h : Covered s) (hg : Grants s.pmm num page pmm) :
    Covered ⟨pmm, taken s.held (framesAt page num)⟩ := by
  intro f hf
  dsimp only [taken] at hf ⊢
  by_cases hmem : f ∈ framesAt page num
  · obtain ⟨hpage, hlo, hhi⟩ := mem_framesAt.mp hmem
    obtain ⟨htotal, hfree, hused, hcount⟩ := hg.granted hpage f hlo hhi
    -- nobody held the frame, since it was free
    have hzero : s.held f = 0 := by
      by_contra hne
      have := (h f (Nat.pos_of_ne_zero hne)).2.1
      rw [hfree] at this
      cases this
    rw [if_pos hmem, hzero, hg.keeps.total, hcount]
    exact ⟨htotal, hused, le_rfl⟩
  · rw [if_neg hmem, Nat.add_zero] at hf ⊢
    obtain ⟨htotal, hused, hle⟩ := h f hf
    rw [hg.keeps.total, hg.keeps.refcounts f hused]
    exact ⟨htotal, hg.keeps.used f hused, hle⟩

lemma covered_pageRef (h : Covered s) (hown : ∀ f ∈ framesAt page 1, 0 < s.held f)
    (hcount : ∀ f ∈ framesAt page 1, s.pmm.refcounts f < 255) :
    Covered ⟨pmmPageRef s.pmm page, taken s.held (framesAt page 1)⟩ := by
  intro f hf
  dsimp only [taken] at hf ⊢
  rw [totalPages_pmmPageRef, used_pmmPageRef]
  by_cases hmem : f ∈ framesAt page 1
  · obtain ⟨hpage, hlo, hhi⟩ := mem_framesAt.mp hmem
    obtain ⟨htotal, hused, hle⟩ := h f (hown f hmem)
    have hcond : f = page / pageSize ∧ f < s.pmm.totalPages ∧ s.pmm.used f ∧
        s.pmm.refcounts f < 255 := ⟨by omega, htotal, hused, hcount f hmem⟩
    rw [if_pos hmem, refcounts_pmmPageRef _ hpage, if_pos hcond]
    exact ⟨htotal, hused, by omega⟩
  · rw [if_neg hmem, Nat.add_zero] at hf ⊢
    obtain ⟨htotal, hused, hle⟩ := h f hf
    refine ⟨htotal, hused, hle.trans ?_⟩
    by_cases hpage : page = 0
    · rw [pmmPageRef, if_pos hpage]
    · rw [refcounts_pmmPageRef _ hpage]
      split_ifs <;> omega

lemma covered_given {frames : List ℕ} (h : Covered s) (hnodup : frames.Nodup)
    (hown : ∀ f ∈ frames, 0 < s.held f) (hrel : Released s.pmm pmm frames) :
    Covered ⟨pmm, given s.held frames⟩ := by
  intro f hf
  dsimp only [given] at hf ⊢
  obtain ⟨hlt, hused, hle⟩ := h f (by omega)
  rw [hrel.total]
  by_cases hmem : f ∈ frames
  · have hpos := hown f hmem
    rw [if_pos hmem] at hf ⊢
    have hone := count_eq_one_of_mem hnodup hmem
    obtain ⟨hcount, hbit⟩ := hrel.dropped f hmem hlt hused (by omega)
    rw [hcount, hbit, hone, decide_eq_true_eq]
    exact ⟨hlt, by omega, by omega⟩
  · obtain ⟨hbit, hcount⟩ := hrel.other f hmem
    rw [if_neg hmem, hbit, hcount]
    exact ⟨hlt, hused, by omega⟩

lemma nodup_framesAt (page num : ℕ) : (framesAt page num).Nodup := by
  rw [framesAt]
  split_ifs
  · exact nodup_nil
  · exact nodup_range'

lemma released_framesAt (hnull : page = 0 → p' = p)
    (h : page ≠ 0 → Released p p' (List.range' (page / pageSize) num)) :
    Released p p' (framesAt page num) := by
  rw [framesAt]
  split_ifs with hpage
  · rw [hnull hpage]
    exact Released.nil p
  · exact h hpage

lemma covered_step {op : PmmOp} (h : Covered s) (hown : Owned s op) (hcount : Countable s op) :
    Covered (step s op) := by
  cases op with
  | allocPage => exact covered_grants h (pmmAllocPage_spec s.pmm)
  | allocPages num => exact covered_grants h (pmmAllocPages_spec s.pmm num)
  | pageRef page => exact covered_pageRef h hown hcount
  | freePage page =>
    exact covered_given h (nodup_framesAt ..) hown
      (released_framesAt (fun hpage => if_pos hpage) (pmmFreePage_released s.pmm))
  | freePages pages num =>
    exact covered_given h (nodup_framesAt ..) hown (released_framesAt
      (fun hpages => if_pos (.inl hpages)) fun hpages => pmmFreePages_released _ hpages num)

lemma Covered.not_held (h : Covered s) (hg : Grants s.pmm num page pmm) :
    ∀ f ∈ framesAt page num, s.held f = 0 := by
  intro f hmem
  obtain ⟨hpage, hlo, hhi⟩ := mem_framesAt.mp hmem
  by_contra hne
  have hused := (h f (Nat.pos_of_ne_zero hne)).2.1
  rw [(hg.granted hpage f hlo hhi).2.1] at hused
  cases hused

/-- The ledger before the first call. -/
def start (p : Pmm) : Ledger := ⟨p, fun _ => 0⟩

/-- In every run in which callers give back what they hold and take no reference beyond the
maximum of the count, an allocation returns no frame with a reference still held. -/
theorem frame_is_free_when_granted (p : Pmm) (ops : List PmmOp)
    (hrun : Guarded step (fun s op => Owned s op ∧ Countable s op) (start p) ops) :
    (∀ f ∈ framesAt (pmmAllocPage (run step (start p) ops).pmm).1 1,
      (run step (start p) ops).held f = 0) ∧
    ∀ num, ∀ f ∈ framesAt (pmmAllocPages (run step (start p) ops).pmm num).1 num,
      (run step (start p) ops).held f = 0 := by
  have hcov : Covered (run step (start p) ops) := by
    refine invariant_run Covered (fun s op hs hop => covered_step hs hop.1 hop.2) ?_ hrun
    intro f hf
    exact absurd hf (lt_irrefl 0)
  exact ⟨hcov.not_held (pmmAllocPage_spec _), fun num => hcov.not_held (pmmAllocPages_spec _ num)⟩

/-- Two frames, of which frame 0 is reserved. -/
def twoFrames : Pmm where
  bitmap := fun _ => 1#8
  refcounts := fun _ => 0
  totalPages := 2
  usedPages := 1
  failNth := 0
  lastUsedIndex := 0
  lastUsedIndex_le := by decide

theorem freed_frame_is_granted_again :
    (∀ f ∈ framesAt (pmmAllocPage (run step (start twoFrames)
        [.allocPage, .pageRef 4096, .freePage 4096, .freePage 4096]).pmm).1 1,
      (run step (start twoFrames)
        [.allocPage, .pageRef 4096, .freePage 4096, .freePage 4096]).held f = 0) ∧
    ∀ num, ∀ f ∈ framesAt (pmmAllocPages (run step (start twoFrames)
        [.allocPage, .pageRef 4096, .freePage 4096, .freePage 4096]).pmm num).1 num,
      (run step (start twoFrames)
        [.allocPage, .pageRef 4096, .freePage 4096, .freePage 4096]).held f = 0 :=
  frame_is_free_when_granted twoFrames _
    (by simp only [guarded_cons, guarded_nil, Owned, Countable]; decide)

/-- Two frames in use, of which frame 1 has the count and is held so often. -/
structure Shared (s : Ledger) (count held : ℕ) : Prop where
  total : s.pmm.totalPages = 2
  failNth : s.pmm.failNth = 0
  used : s.pmm.used 0 ∧ s.pmm.used 1
  count : s.pmm.refcounts 1 = count
  held : s.held 1 = held

section Saturation

variable {s : Ledger} {count held : ℕ}

variable (h : Shared s count held)
include h

lemma Shared.owned (hheld : 0 < held) : ∀ f ∈ framesAt 4096 1, 0 < s.held f := by
  intro f hf
  obtain rfl := mem_singleton.mp hf
  exact h.held ▸ hheld

/-- A reference more: the count stops at 255. -/
lemma Shared.pageRef (hmax : count ≤ 255) :
    Shared (step s (.pageRef 4096)) (min 255 (count + 1)) (held + 1) where
  total := (totalPages_pmmPageRef ..).trans h.total
  failNth := (failNth_pmmPageRef ..).trans h.failNth
  used := by
    rw [step, used_pmmPageRef]
    exact h.used
  count := by
    rw [step, refcounts_pmmPageRef _ (by decide), h.count, h.total]
    simp only [pageSize, h.used.2, true_and, eq_self]
    split_ifs <;> omega
  held := by simp [step, taken, framesAt, pageSize, h.held]

/-- A reference less, which is not the last one. -/
lemma Shared.freePage (hlast : 1 < count) :
    Shared (step s (.freePage 4096)) (count - 1) (held - 1) := by
  have hdrops := pmmFreePage_drops s.pmm (show 4096 ≠ 0 by decide)
  refine ⟨hdrops.total.trans h.total, (failNth_pmmFreePage ..).trans h.failNth, ?_, ?_, ?_⟩
  · rw [step, hdrops.used, hdrops.used, h.count]
    simp [pageSize, h.used, show count - 1 ≠ 0 by omega]
  · rw [step, hdrops.refcounts]
    simp [pageSize, h.total, h.used.2, h.count]
  · simp [step, given, framesAt, pageSize, h.held]

end Saturation

/-- The allocator of two frames, 256 references to the frame that is granted, of which 255
are given back. -/
def saturatingOps : List PmmOp :=
  .allocPage :: (List.replicate 255 (.pageRef 4096) ++ List.replicate 255 (.freePage 4096))

/-- The count stops at 255, so the frame is granted again while one of its 256 references is
held. -/
theorem saturated_frame_is_granted_while_held :
    Guarded step Owned (start twoFrames) saturatingOps ∧
      ∃ f ∈ framesAt (pmmAllocPage (run step (start twoFrames) saturatingOps).pmm).1 1,
        0 < (run step (start twoFrames) saturatingOps).held f := by
  have hgranted : Shared (step (start twoFrames) .allocPage) 1 1 :=
    ⟨by decide, by decide, by decide, by decide, by decide⟩
  obtain ⟨hrefs, hmax⟩ := @guarded_replicate _ _ step Owned _ (.pageRef 4096)
    (fun n s => Shared s (min 255 (n + 1)) (n + 1)) 255 (fun n s _ h => by
      have hnext : min 255 (min 255 (n + 1) + 1) = min 255 (n + 1 + 1) := by omega
      exact ⟨h.owned n.succ_pos, hnext ▸ h.pageRef (min_le_left ..)⟩) hgranted
  obtain ⟨hfrees, hlast⟩ := @guarded_replicate _ _ step Owned _ (.freePage 4096)
    (fun n s => Shared s (255 - n) (256 - n)) 254
    (fun n s hn h => ⟨h.owned (by omega), h.freePage (by omega)⟩) hmax
  have hsplit : List.replicate 255 (PmmOp.freePage 4096) =
      List.replicate 254 (.freePage 4096) ++ [.freePage 4096] := List.replicate_succ'
  rw [saturatingOps, hsplit, run_cons, run_append, run_append]
  refine ⟨⟨trivial, ?_⟩, ?_⟩
  · rw [guarded_append, guarded_append]
    exact ⟨hrefs, hfrees, hlast.owned (by decide), trivial⟩
  generalize run step _ (List.replicate 254 (PmmOp.freePage 4096)) = s at hlast ⊢
  -- frame 1 is the only free frame
  have hdrops := pmmFreePage_drops s.pmm (show 4096 ≠ 0 by decide)
  have htotal : (pmmFreePage s.pmm 4096).totalPages = 2 := hdrops.total.trans hlast.total
  have hzero : (pmmFreePage s.pmm 4096).used 0 := by
    rw [hdrops.used, hlast.used.1]
    simp [pageSize]
  have hfree : (pmmFreePage s.pmm 4096).used 1 = false := by
    rw [hdrops.used, hlast.count, hlast.total]
    simp [pageSize]
  have hfail : (pmmFreePage s.pmm 4096).failNth ≤ 0 :=
    ((failNth_pmmFreePage ..).trans hlast.failNth).le
  have hspec := pmmAllocPage_spec (pmmFreePage s.pmm 4096)
  have hne := pmmAllocPage_ne_zero 1 hfail hzero (by omega) hfree
  obtain ⟨hlt, -⟩ := hspec.granted hne _ le_rfl (Nat.lt_succ_self _)
  have haddr := hspec.aligned
  refine ⟨1, ?_, by simp [step, given, framesAt, pageSize, hlast.held]⟩
  rw [run_cons, run_nil, step, mem_framesAt]
  dsimp only
  generalize (pmmAllocPage (pmmFreePage s.pmm 4096)).1 / pageSize = frame at *
  rw [pageSize] at haddr
  omega

end GrahaOS.PageFrames
