import GrahaOS.VmObjects
import GrahaOS.Token
import Mathlib.Data.UInt

/-!
# Bytes between files and objects

`OP_READ_VMO` and `OP_WRITE_VMO` move bytes page by page between a file and an object. The offset
and the length come from user space. Their sum is compared modulo 2^64 with the size of the object,
and the number of a page is cut to 32 bits.
-/

namespace GrahaOS.VmoTransfers

open PageFrames VmObjects Token

/-- A call of the file system for a number of bytes at an offset. It moves at most as many, and the
end of a file is an offset as well. -/
structure FileIo where
  call : ℕ → ℕ → Except ℤ ℕ
  le : ∀ {off count n}, call off count = .ok n → n ≤ count
  inside : ∀ {off count n}, call off count = .ok n → 0 < n → off + n < 2 ^ 64

/-- The calls that a `vfs_node_t` offers. -/
structure Node where
  read : Option FileIo
  write : Option FileIo

/-- What an operation returns, and the bytes that it has moved, each with its offset in the file and
in the object. -/
abbrev Moved := ℤ × List (ℕ × ℕ)

/-- The loop over the pages, with the sum of the bytes moved before. -/
def moveLoop (io : FileIo) (o : Vmo) (fileOff off remaining : ℕ) (total : ℤ) : Moved :=
  if remaining = 0 then (total, [])
  else
    let pageIdx := off / pageSize % 2 ^ 32
    let pageOff := off % pageSize
    let chunk := min (pageSize - pageOff) remaining
    if o.pages.length ≤ pageIdx ∨ o.pages.getD pageIdx 0 = 0 then (total, [])
    else match io.call fileOff chunk with
      | .error e => (e, [])
      | .ok n =>
        let moved := (List.range n).map fun k => (fileOff + k, pageSize * pageIdx + pageOff + k)
        -- a short transfer, or none at all, is the last one
        if n < chunk then (total + n, moved)
        else
          let rest := moveLoop io o ((fileOff + chunk) % 2 ^ 64) ((off + chunk) % 2 ^ 64)
            (remaining - chunk) (total + n)
          (rest.1, moved ++ rest.2)
termination_by remaining
decreasing_by
  have := Nat.mod_lt off (show 0 < pageSize by decide)
  omega

/-- `read_into_vmo` and `write_from_vmo`, which differ in the call of the file system only. -/
def moveBytes (io : Option FileIo) (fileOff : UInt64) (o : Vmo) (off len : UInt64) : Moved :=
  match io with
  | none => (CapError.einval.code, [])
  | some io =>
    if o.sizeBytes < (off + len).toNat then (CapError.einval.code, [])
    else moveLoop io o fileOff.toNat off.toNat len.toNat 0

def readIntoVmo (node : Node) (srcOffset : UInt64) (dst : Vmo) (dstOffset len : UInt64) : Moved :=
  moveBytes node.read srcOffset dst dstOffset len

def writeFromVmo (node : Node) (dstOffset : UInt64) (src : Vmo) (srcOffset len : UInt64) : Moved :=
  moveBytes node.write dstOffset src srcOffset len

/-- A byte of the object in its range, with the byte of the file in the same place. -/
def InRange (fileOff : UInt64) (o : Vmo) (off len : UInt64) (b : ℕ × ℕ) : Prop :=
  b.2 < o.sizeBytes ∧ ∃ j < len.toNat, b = (fileOff.toNat + j, off.toNat + j)

variable {io : FileIo} {o : Vmo} {b : ℕ × ℕ}

/-- Every byte is one of the object. It is the right one if the first page is, since the loop stops
at the last page, before a number has to be cut. -/
lemma mem_moveLoop (hpages : o.pages.length < 2 ^ 32) (remaining : ℕ) :
    ∀ {fileOff off total}, b ∈ (moveLoop io o fileOff off remaining total).2 →
      b.2 < pageSize * o.pages.length ∧
        (off < 2 ^ 44 → ∃ j < remaining, b = (fileOff + j, off + j)) := by
  induction remaining using Nat.strong_induction_on with
  | _ remaining ih =>
  intro fileOff off total hb
  rw [moveLoop] at hb
  split_ifs at hb with hzero
  · cases hb
  dsimp only at hb
  generalize hidx : off / pageSize % 2 ^ 32 = pageIdx at hb
  generalize hchunk : min (pageSize - off % pageSize) remaining = chunk at hb
  split_ifs at hb with hpage
  · cases hb
  rw [not_or, not_le] at hpage
  cases hcall : io.call fileOff chunk with
  | error e =>
    rw [hcall] at hb
    cases hb
  | ok n =>
  have hn := io.le hcall
  -- the bytes of this page
  have hhere : b ∈ (List.range n).map (fun k =>
        (fileOff + k, pageSize * pageIdx + off % pageSize + k)) →
      b.2 < pageSize * o.pages.length ∧
        (off < 2 ^ 44 → ∃ j < remaining, b = (fileOff + j, off + j)) := by
    intro hmem
    obtain ⟨k, hk, rfl⟩ := List.mem_map.mp hmem
    have hkn := List.mem_range.mp hk
    simp only [pageSize] at *
    refine ⟨by omega, fun hoff => ⟨k, by omega, ?_⟩⟩
    rw [show 4096 * pageIdx + off % 4096 = off by omega]
  rw [hcall] at hb
  dsimp only at hb
  split_ifs at hb with hshort
  · exact hhere hb
  rcases List.mem_append.mp hb with hmem | hmem
  · exact hhere hmem
  have hfile := io.inside hcall
  simp only [pageSize] at *
  obtain ⟨hinside, hrest⟩ := ih _ (by omega) hmem
  refine ⟨hinside, fun hoff => ?_⟩
  have hwrap : (fileOff + chunk) % 2 ^ 64 = fileOff + chunk := Nat.mod_eq_of_lt (by omega)
  have hwrap' : (off + chunk) % 2 ^ 64 = off + chunk := Nat.mod_eq_of_lt (by omega)
  rw [hwrap, hwrap'] at hrest
  obtain ⟨j, hj, rfl⟩ := hrest (by omega)
  exact ⟨chunk + j, by omega, by rw [Nat.add_assoc, Nat.add_assoc]⟩

lemma moveBytes_in_range_iff (hsize : o.sizeBytes = pageSize * o.pages.length)
    (hpages : o.pages.length < 2 ^ 32) (io : Option FileIo) (fileOff off len : UInt64) :
    (∀ b ∈ (moveBytes io fileOff o off len).2, InRange fileOff o off len b) ↔
      off.toNat < 2 ^ 44 ∨ (moveBytes io fileOff o off len).2 = [] := by
  cases io with
  | none => simp [moveBytes]
  | some io =>
  rw [moveBytes]
  split_ifs
  · simp
  constructor
  · intro hall
    by_contra hnot
    rw [not_or, not_lt] at hnot
    obtain ⟨b, hb⟩ := List.exists_mem_of_ne_nil _ hnot.2
    obtain ⟨hinside, j, -, rfl⟩ := hall b hb
    simp only [pageSize] at hsize
    omega
  · rintro (hoff | hnone) b hb
    · obtain ⟨hinside, hrange⟩ := mem_moveLoop hpages _ hb
      exact ⟨hsize ▸ hinside, hrange hoff⟩
    · rw [hnone] at hb
      cases hb

lemma page_inside {off count n : ℕ} (hn : 0 < n)
    (h : (.ok (min count (pageSize - off)) : Except ℤ ℕ) = .ok n) : off + n < 2 ^ 64 := by
  cases h
  simp only [pageSize] at hn ⊢
  omega

/-- A file of one page. -/
def pageFile : FileIo where
  call off count := .ok (min count (pageSize - off))
  le := by
    rintro off count n ⟨⟩
    exact min_le_left _ _
  inside h hn := page_inside hn h

def onePage : Vmo := ⟨⟨true, false, false, false, false⟩, pageSize, 1, none, [pageSize]⟩

/-- Read the file into the object. -/
def readPage (off len : UInt64) : Moved := readIntoVmo ⟨some pageFile, none⟩ 0 onePage off len

lemma first_byte_moved {off len : UInt64} (hidx : off.toNat / pageSize % 2 ^ 32 = 0)
    (hpage : off.toNat % pageSize = 0) (hlen : pageSize ≤ len.toNat)
    (hsum : (off + len).toNat ≤ pageSize) : (0, 0) ∈ (readPage off len).2 := by
  have hloop : readPage off len = moveLoop pageFile onePage 0 off.toNat len.toNat 0 :=
    if_neg (not_lt.mpr hsum)
  rw [hloop, moveLoop, if_neg (by simp only [pageSize] at hlen; omega)]
  simp only [hidx, hpage, Nat.sub_zero, min_eq_left hlen]
  exact List.mem_append_left _ (List.mem_map.mpr ⟨0, List.mem_range.mpr (by decide), rfl⟩)

end GrahaOS.VmoTransfers
