import Mathlib.Tactic

/-!
# Files as byte arrays

What a file is to its user: a size, and a byte at every position below it. A position that
was never written holds zero. Writing behind the end extends the file, writing nothing
does not, and reading returns what there is of the range.
-/

namespace GrahaOS.ByteFiles

/-- A file: its size and its bytes, zero behind the end. -/
@[ext] structure ByteFile where
  size : ℕ
  bytes : ℕ → UInt8
  zero_beyond : ∀ pos, size ≤ pos → bytes pos = 0

namespace ByteFile

def empty : ByteFile := ⟨0, fun _ => 0, fun _ _ => rfl⟩

/-- Write the data from an offset on. -/
def write (f : ByteFile) (offset : ℕ) (data : List UInt8) : ByteFile where
  size := if data = [] then f.size else max f.size (offset + data.length)
  bytes := fun pos => if offset ≤ pos ∧ pos < offset + data.length then data.getD (pos - offset) 0
    else f.bytes pos
  zero_beyond := by
    intro pos hpos
    have hlen : data = [] → data.length = 0 := fun hdata => by rw [hdata]; rfl
    split_ifs at hpos with hdata
    · rw [if_neg (by have := hlen hdata; omega)]
      exact f.zero_beyond pos hpos
    · rw [if_neg (by omega)]
      exact f.zero_beyond pos (by omega)

/-- The bytes of a range, as far as the file goes. -/
def read (f : ByteFile) (offset count : ℕ) : List UInt8 :=
  (List.range (min count (f.size - offset))).map fun k => f.bytes (offset + k)

@[simp] theorem write_nil (f : ByteFile) (offset : ℕ) : f.write offset [] = f := by
  apply ByteFile.ext
  · simp [write]
  · funext pos
    simp [write]

theorem size_write {data : List UInt8} (hdata : data ≠ []) (f : ByteFile) (offset : ℕ) :
    (f.write offset data).size = max f.size (offset + data.length) := if_neg hdata

theorem bytes_write (f : ByteFile) (offset : ℕ) (data : List UInt8) (pos : ℕ) :
    (f.write offset data).bytes pos =
      if offset ≤ pos ∧ pos < offset + data.length then data.getD (pos - offset) 0
      else f.bytes pos := rfl

end ByteFile

end GrahaOS.ByteFiles
