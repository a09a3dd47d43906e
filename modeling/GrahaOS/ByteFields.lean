import Mathlib.Tactic
import Mathlib.Algebra.Order.Ring.Nat

/-!
# Fixed-size byte arrays with little-endian fields

On-disk structures are arrays of bytes whose fields lie at fixed offsets. `getLE` and `putLE` read
and write an unsigned little-endian field; `slice` and `splice` a whole sub-array. The laws are
those of a memory. Reading outside the array gives zeros and writing outside it does nothing.
-/

namespace GrahaOS.ByteFields

/-- An array of `n` bytes. -/
abbrev Bytes (n : ℕ) := Fin n → UInt8

variable {n m off k w v : ℕ}

variable (b : Bytes n)

/-- The byte at an offset. -/
def byte (k : ℕ) : UInt8 := if h : k < n then b ⟨k, h⟩ else 0

/-- The unsigned field of `w` bytes at an offset. -/
def getLE (b : Bytes n) (off : ℕ) : ℕ → ℕ
  | 0 => 0
  | w + 1 => (byte b off).toNat + 256 * getLE b (off + 1) w

/-- Write the field of `w` bytes at an offset. -/
def putLE (off w v : ℕ) : Bytes n := fun k =>
  if off ≤ k ∧ k < off + w then UInt8.ofNat (v / 256 ^ ((k : ℕ) - off)) else b k

/-- The sub-array of `m` bytes at an offset. -/
def slice (m : ℕ) (b : Bytes n) (off : ℕ) : Bytes m := fun k => byte b (off + k)

/-- Overwrite the bytes from an offset with a smaller array. -/
def splice (off : ℕ) (src : Bytes m) : Bytes n := fun k =>
  if off ≤ k ∧ k < off + m then byte src (k - off) else b k

/-- All bytes zero. -/
def zeros (n : ℕ) : Bytes n := fun _ => 0

lemma byte_of_lt (h : k < n) : byte b k = b ⟨k, h⟩ := dif_pos h

@[ext] lemma bytes_ext {a b : Bytes n} (h : ∀ k < n, byte a k = byte b k) : a = b := by
  funext k
  have hk := h k k.isLt
  rwa [byte_of_lt, byte_of_lt] at hk

@[simp] lemma byte_zeros (k : ℕ) : byte (zeros n) k = 0 := by
  unfold byte zeros
  split_ifs <;> rfl

lemma byte_putLE (hk : k < n) :
    byte (putLE b off w v) k =
      if off ≤ k ∧ k < off + w then UInt8.ofNat (v / 256 ^ (k - off)) else byte b k := by
  rw [byte_of_lt _ hk, byte_of_lt _ hk, putLE]

lemma byte_putLE_of_outside (hk : k < off ∨ off + w ≤ k) : byte (putLE b off w v) k = byte b k := by
  by_cases hn : k < n
  · rw [byte_putLE b hn, if_neg (by omega)]
  · simp [byte, hn]

lemma byte_slice (hk : k < m) : byte (slice m b off) k = byte b (off + k) := by
  rw [byte_of_lt _ hk, slice]

lemma byte_splice (src : Bytes m) (hk : k < n) :
    byte (splice b off src) k = if off ≤ k ∧ k < off + m then byte src (k - off) else byte b k := by
  rw [byte_of_lt _ hk, byte_of_lt b hk, splice]

lemma byte_splice_of_outside (src : Bytes m) (hk : k < off ∨ off + m ≤ k) :
    byte (splice b off src) k = byte b k := by
  by_cases hn : k < n
  · rw [byte_splice b src hn, if_neg (by omega)]
  · simp [byte, hn]

lemma getLE_congr {a : Bytes n} {b : Bytes m} : ∀ {off off' : ℕ},
    (∀ i < w, byte a (off + i) = byte b (off' + i)) → getLE a off w = getLE b off' w := by
  induction w with
  | zero =>
    intro off off' _
    rfl
  | succ w ih =>
  intro off off' h
  have hhead : byte a off = byte b off' := by simpa using h 0 (Nat.succ_pos w)
  have htail : getLE a (off + 1) w = getLE b (off' + 1) w := by
    apply ih
    intro i hi
    have hnext := h (i + 1) (by omega)
    rwa [Nat.add_comm i 1, ← Nat.add_assoc, ← Nat.add_assoc] at hnext
  rw [getLE, getLE, hhead, htail]

@[simp] lemma getLE_zeros (off w : ℕ) : getLE (zeros n) off w = 0 := by
  induction w generalizing off with
  | zero => rfl
  | succ w ih => simp [getLE, ih]

lemma getLE_lt (off w : ℕ) : getLE b off w < 256 ^ w := by
  induction w generalizing off with
  | zero => simp [getLE]
  | succ w ih =>
    have hbyte := (byte b off).toNat_lt
    have hrest := ih (off + 1)
    rw [getLE, pow_succ]
    omega

/-- The field that was written, wherever in it reading starts. -/
lemma getLE_putLE_from (hfit : off + w ≤ n) :
    ∀ {u i : ℕ}, i + u = w →
      getLE (putLE b off w v) (off + i) u = v / 256 ^ i % 256 ^ u := by
  intro u
  induction u with
  | zero =>
    intro i _
    simp [getLE, Nat.mod_one]
  | succ u ih =>
  intro i hi
  have hbyte : byte (putLE b off w v) (off + i) = UInt8.ofNat (v / 256 ^ i) := by
    rw [byte_putLE b (by omega), if_pos (by omega), Nat.add_sub_cancel_left]
  have hrest := @ih (i + 1) (by omega)
  rw [← Nat.add_assoc] at hrest
  rw [getLE, hbyte, hrest, pow_succ 256 i, ← Nat.div_div_eq_div_mul, pow_succ' 256 u]
  have hmod : (UInt8.ofNat (v / 256 ^ i)).toNat = v / 256 ^ i % 256 := by
    rw [UInt8.toNat_ofNat']
  rw [hmod, Nat.mod_mul]

/-- A field read back. -/
theorem getLE_putLE_self (hfit : off + w ≤ n) (hv : v < 256 ^ w) :
    getLE (putLE b off w v) off w = v := by
  have h := @getLE_putLE_from n off w v b hfit w 0 (Nat.zero_add w)
  rw [Nat.add_zero, pow_zero, Nat.div_one, Nat.mod_eq_of_lt hv] at h
  exact h

lemma slice_zeros (off : ℕ) : slice m (zeros n) off = zeros m := by
  funext k
  exact byte_zeros _

theorem slice_splice_self (src : Bytes m) (h : off + m ≤ n) :
    slice m (splice b off src) off = src := by
  apply bytes_ext
  intro k hk
  rw [byte_slice _ hk, byte_splice b src (by omega), if_pos (by omega), Nat.add_sub_cancel_left]

theorem slice_splice_of_disjoint (src : Bytes m) {off' l : ℕ}
    (h : off' + l ≤ off ∨ off + m ≤ off') : slice l (splice b off src) off' = slice l b off' := by
  apply bytes_ext
  intro k hk
  rw [byte_slice _ hk, byte_slice _ hk]
  exact byte_splice_of_outside b src (by omega)

/-- A field of a structure: its offset and its width in bytes. -/
structure Field where
  off : ℕ
  width : ℕ
deriving DecidableEq

namespace Field

variable (f : Field)

def get (b : Bytes n) : ℕ := getLE b f.off f.width

def put (b : Bytes n) (v : ℕ) : Bytes n := putLE b f.off f.width v

/-- The field lies inside an array of `n` bytes. -/
def Fits (n : ℕ) : Prop := f.off + f.width ≤ n

/-- The two fields have no byte in common. -/
def Apart (f g : Field) : Prop := f.off + f.width ≤ g.off ∨ g.off + g.width ≤ f.off

instance (n : ℕ) : Decidable (f.Fits n) := inferInstanceAs (Decidable (_ ≤ _))

instance (f g : Field) : Decidable (f.Apart g) := inferInstanceAs (Decidable (_ ∨ _))

lemma get_lt (b : Bytes n) : f.get b < 256 ^ f.width := getLE_lt b f.off f.width

@[simp] lemma get_zeros : f.get (zeros n) = 0 := getLE_zeros f.off f.width

theorem get_put_self (b : Bytes n) (hfit : f.Fits n) (hv : v < 256 ^ f.width) :
    f.get (f.put b v) = v := getLE_putLE_self b hfit hv

theorem get_put_of_apart {f g : Field} (h : f.Apart g) (b : Bytes n) (v : ℕ) :
    f.get (g.put b v) = f.get b := by
  apply getLE_congr
  intro i hi
  rcases h with h | h <;> exact byte_putLE_of_outside b (by omega)

/-- A field outside the bytes that are overwritten. -/
theorem get_splice_of_outside {f : Field} (b : Bytes n) (src : Bytes m)
    (h : f.off + f.width ≤ off ∨ off + m ≤ f.off) : f.get (splice b off src) = f.get b := by
  apply getLE_congr
  intro i hi
  exact byte_splice_of_outside b src (by omega)

end Field

end GrahaOS.ByteFields
