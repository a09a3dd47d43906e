import Mathlib.Tactic

/-!
# The kernel heap

`kmalloc`, `krealloc` and `kfree` of `kernel/mm/kheap.c`. A block has a header with a 16-bit field
for the size that was asked for, which stops at 65535; `krealloc` reads the old size from there.
With a new size of zero it frees the block and returns the null pointer.

The slab caches and the page allocator are represented by the memory that they hand out: blocks are
numbered in the order of their allocation and do not overlap. Statistics are left out.
-/

namespace GrahaOS.KernelHeap

open Function

def kheapHeaderSize : ℕ := 16

def kheapBucketSizes : List ℕ := [16, 32, 64, 128, 256, 512, 1024, 2048]

def kheapSpillBucket : ℕ := 255

def uint16Max : ℕ := 65535

/-- The largest request that `kmalloc` accepts. -/
def kmallocMax : ℕ := 16 * 1024 * 1024

/-- `kheap_header_t`; the page count is in its padding. -/
structure Header where
  bucketIndex : ℕ
  subsys : UInt8
  size : ℕ
  pages : ℕ

/-- A live block: its magic number is right, and its header has what fits of the size that was
asked for. -/
structure Block where
  size : ℕ
  header : Header
  bytes : ℕ → UInt8
  size_eq : header.size = if uint16Max < size then uint16Max else size

/-- The heap with its live blocks and `g_debug_kmalloc_fail_nth`. -/
structure Heap where
  inited : Bool
  failNth : ℤ
  blocks : ℕ → Option Block
  next : ℕ
  fresh : ∀ p, next ≤ p → blocks p = none

def kheapBucketForSize (size : ℕ) : ℕ :=
  (kheapBucketSizes.findIdx? fun s => size + kheapHeaderSize ≤ s).getD kheapSpillBucket

/-- The header that `kmalloc` writes, or `kheap_spill_alloc` for whole pages. -/
def newHeader (size : ℕ) (subsys : UInt8) : Header where
  bucketIndex := kheapBucketForSize size
  subsys := subsys
  size := if uint16Max < size then uint16Max else size
  pages :=
    if kheapBucketForSize size = kheapSpillBucket then (size + kheapHeaderSize + 4095) / 4096 else 0

/-- A new block. -/
def Heap.add (h : Heap) (b : Block) : Heap :=
  { h with
    blocks := Function.update h.blocks h.next (some b)
    next := h.next + 1
    fresh := fun p hp => by
      rw [Function.update_of_ne (Nat.ne_of_gt hp)]
      exact h.fresh p (Nat.le_of_succ_le hp) }

/-- `kmalloc`; `memory` is what the allocator below it hands out. -/
def kmalloc (h : Heap) (size : ℕ) (subsys : UInt8) (memory : Option (ℕ → UInt8)) :
    Option ℕ × Heap :=
  if !h.inited then (none, h)
  else
    let fault : Bool := h.failNth = 1
    let h := if 0 < h.failNth then { h with failNth := h.failNth - 1 } else h
    if fault then (none, h)
    else
      let size := if size = 0 then 1 else size
      if kmallocMax < size then (none, h)
      else
        match memory with
        | none => (none, h)
        | some bytes => (some h.next, h.add ⟨size, newHeader size subsys, bytes, rfl⟩)

/-- One block changes. -/
def Heap.set (h : Heap) (p : ℕ) (f : Option Block → Option Block) (hf : f none = none) : Heap :=
  { h with
    blocks := Function.update h.blocks p (f (h.blocks p))
    fresh := fun q hq => by
      by_cases hqp : q = p
      · rw [hqp, Function.update_self, h.fresh p (hqp ▸ hq), hf]
      · rw [Function.update_of_ne hqp]
        exact h.fresh q hq }

/-- `kfree`, or nothing when it panics: the magic number of a block that was freed is zero. -/
def kfree (h : Heap) (p : ℕ) : Option Heap :=
  (h.blocks p).map fun _ => h.set p (fun _ => none) rfl

/-- The loop that copies bytes, up to the given index. -/
def copyBytes (src dst : ℕ → UInt8) : ℕ → ℕ → UInt8
  | 0 => dst
  | i + 1 => Function.update (copyBytes src dst i) i (src i)

/-- `krealloc`, or nothing when it panics. -/
def krealloc (h : Heap) (p : Option ℕ) (newSize : ℕ) (subsys : UInt8)
    (memory : Option (ℕ → UInt8)) : Option (Option ℕ × Heap) :=
  match p with
  | none => some (kmalloc h newSize subsys memory)
  | some p =>
    if newSize = 0 then (kfree h p).map fun h => (none, h)
    else
      (h.blocks p).bind fun b =>
        match kmalloc h newSize subsys memory with
        | (none, h) => some (none, h)
        | (some np, h) =>
          let copy := if b.header.size < newSize then b.header.size else newSize
          let copied := Option.map fun new : Block =>
            { new with bytes := copyBytes b.bytes new.bytes copy }
          (kfree (h.set np copied rfl) p).map fun h => (some np, h)

/-- The null pointer with the old block as it was, or a block with the bytes of the old one as far
as both reach. -/
def Kept (p : ℕ) (b : Block) (newSize : ℕ) : Option (Option ℕ × Heap) → Prop
  | none => False
  | some (none, h) => h.blocks p = some b
  | some (some np, h) =>
    ∃ b', h.blocks np = some b' ∧ ∀ i < min b.size newSize, b'.bytes i = b.bytes i

/-- `kmalloc` gets as far as asking for memory. -/
def serves (h : Heap) (size : ℕ) : Bool := h.inited && h.failNth ≠ 1 && size ≤ kmallocMax

section Reallocation

variable {h : Heap} {p newSize : ℕ} {b : Block} {subsys : UInt8} {memory : Option (ℕ → UInt8)}

lemma copyBytes_apply (src dst : ℕ → UInt8) (count i : ℕ) :
    copyBytes src dst count i = if i < count then src i else dst i := by
  induction count with
  | zero => rfl
  | succ count ih =>
    rw [copyBytes, update_apply, ih]
    by_cases hi : i = count
    · rw [if_pos hi, if_pos (hi ▸ Nat.lt_succ_self count), hi]
    · rw [if_neg hi]
      exact if_congr (by omega) rfl rfl

/-- A request gets a new block, or leaves the blocks alone. -/
lemma kmalloc_cases (h : Heap) (subsys : UInt8) (memory : Option (ℕ → UInt8))
    (hsize : newSize ≠ 0) :
    ((serves h newSize = false ∨ memory = none) ∧ ∃ h' : Heap, h'.blocks = h.blocks ∧
      kmalloc h newSize subsys memory = (none, h')) ∨
    ∃ bytes, ∃ h' : Heap, serves h newSize = true ∧ memory = some bytes ∧ h'.blocks = h.blocks ∧
      kmalloc h newSize subsys memory =
        (some h'.next, h'.add ⟨newSize, newHeader newSize subsys, bytes, rfl⟩) := by
  obtain ⟨h', hblocks, hh'⟩ : ∃ h' : Heap, h'.blocks = h.blocks ∧
      (if 0 < h.failNth then { h with failNth := h.failNth - 1 } else h) = h' :=
    ⟨_, by split_ifs <;> rfl, rfl⟩
  simp only [kmalloc, serves, if_neg hsize, hh']
  by_cases hinit : h.inited
  · by_cases hfault : h.failNth = 1
    · exact .inl ⟨by simp [hfault], h', hblocks, by simp [hinit, hfault]⟩
    by_cases hbig : kmallocMax < newSize
    · exact .inl ⟨by simp [hbig], h', hblocks, by simp [hinit, hfault, hbig]⟩
    · cases memory with
      | none => exact .inl ⟨.inr rfl, h', hblocks, by simp [hinit, hfault, hbig]⟩
      | some bytes =>
        refine .inr ⟨bytes, h', ?_, rfl, hblocks, ?_⟩
        · simp [hinit, hfault, not_lt.mp hbig]
        · simp [hinit, hfault, hbig]
  · exact .inl ⟨by simp [hinit], h, rfl, by simp [hinit]⟩

/-- A block that moves has the bytes that were copied, and then what was in the memory. -/
lemma kept_of_moved {bytes : ℕ → UInt8} {g : Heap} (hb : h.blocks p = some b) (hsize : newSize ≠ 0)
    (hblocks : g.blocks = h.blocks)
    (hmalloc : kmalloc h newSize subsys memory =
      (some g.next, g.add ⟨newSize, newHeader newSize subsys, bytes, rfl⟩)) :
    Kept p b newSize (krealloc h (some p) newSize subsys memory) ↔
      ∀ i, uint16Max ≤ i → i < min b.size newSize → bytes i = b.bytes i := by
  have hne : p ≠ g.next := by
    rintro rfl
    rw [← hblocks, g.fresh _ le_rfl] at hb
    cases hb
  have hold : ∀ new copied hcopied, ((g.add new).set g.next copied hcopied).blocks p = some b := by
    intro new copied hcopied
    simp [Heap.set, Heap.add, hne, hblocks, hb]
  simp only [krealloc, if_neg hsize, hb, Option.bind_some, hmalloc, kfree, hold, Option.map_some, Kept]
  simp only [Heap.set, Heap.add, update_of_ne hne.symm, update_self,
    Option.map_some, Option.some.injEq, exists_eq_left', copyBytes_apply]
  have hfield := b.size_eq
  refine forall_congr' fun i => ?_
  split_ifs at hfield ⊢ <;> simp <;> omega

/-- `krealloc` of a live block keeps its bytes just when the new size is not zero, and either there
is no memory for the new block, or what lies beyond the first 65535 bytes was in that memory. -/
theorem krealloc_keeps_bytes_iff (hb : h.blocks p = some b) :
    Kept p b newSize (krealloc h (some p) newSize subsys memory) ↔
      newSize ≠ 0 ∧ (serves h newSize = true → ∀ bytes, memory = some bytes →
        ∀ i, uint16Max ≤ i → i < min b.size newSize → bytes i = b.bytes i) := by
  by_cases hsize : newSize = 0
  · simp [krealloc, hsize, kfree, hb, Kept, Heap.set]
  rcases kmalloc_cases h subsys memory hsize with
    ⟨hnone, h', hblocks, hmalloc⟩ | ⟨bytes, h', hserves, rfl, hblocks, hmalloc⟩
  · have hkept : Kept p b newSize (krealloc h (some p) newSize subsys memory) := by
      simp only [krealloc, if_neg hsize, hb, Option.bind_some, hmalloc]
      exact (congrFun hblocks p).trans hb
    refine iff_of_true hkept ⟨hsize, fun hserves bytes hbytes => ?_⟩
    rcases hnone with hnone | hnone
    · rw [hserves] at hnone
      cases hnone
    · rw [hbytes] at hnone
      cases hnone
  · rw [kept_of_moved hb hsize hblocks hmalloc]
    exact ⟨fun hall => ⟨hsize, fun _ bytes' hbytes => Option.some.inj hbytes ▸ hall⟩,
      fun hall => hall.2 hserves bytes rfl⟩

end Reallocation

def filledBlock (size : ℕ) : Block := ⟨size, newHeader size 0, fun _ => 1, rfl⟩

/-- A heap with one block, full of ones. -/
def oneBlock (size : ℕ) : Heap :=
  Heap.add ⟨true, 0, fun _ => none, 0, fun _ _ => rfl⟩ (filledBlock size)

/-- A page's worth of bytes goes to a larger block. -/
theorem small_block_keeps_bytes :
    Kept 0 (filledBlock 4096) 8192 (krealloc (oneBlock 4096) (some 0) 8192 0 (some fun _ => 0)) := by
  refine (krealloc_keeps_bytes_iff rfl).mpr ⟨by decide, fun _ bytes _ i hi hlt => ?_⟩
  have hmin : min (filledBlock 4096).size 8192 = 4096 := rfl
  rw [uint16Max] at hi
  omega

/-- Of a block with 70000 bytes, byte 65535 is lost. -/
theorem large_block_loses_bytes :
    ¬ Kept 0 (filledBlock 70000) 80000
      (krealloc (oneBlock 70000) (some 0) 80000 0 (some fun _ => 0)) := by
  rw [kept_of_moved rfl (by decide) rfl rfl]
  intro hkept
  exact absurd (hkept 65535 le_rfl (by decide)) (by decide)

end GrahaOS.KernelHeap
