import Mathlib.Tactic

/-!
# Counters that run freely

A ring with two counters that only ever grow, kept modulo `m`: the number of entries in the ring is
the difference modulo `m`, and the entry with number `k` is in slot `k` modulo the size of the ring.
-/

namespace GrahaOS.FreeRunning

/-- The difference of two counters. -/
def distance (m a b : ℕ) : ℕ := (a + (m - b % m)) % m

theorem distance_mod {m a b : ℕ} (hle : b ≤ a) (hlt : a - b < m) :
    distance m (a % m) (b % m) = a - b := by
  have hm : 0 < m := (Nat.zero_le _).trans_lt hlt
  have hb : b % m < m := Nat.mod_lt b hm
  -- the sum of the counters is the difference, up to multiples of `m`
  have hsum : a + (m - b % m) = (a - b) + m * (b / m + 1) := by
    have hdiv := Nat.div_add_mod b m
    rw [Nat.mul_add, Nat.mul_one]
    omega
  rw [distance, Nat.mod_mod, Nat.mod_add_mod, hsum, Nat.add_mul_mod_self_left, Nat.mod_eq_of_lt hlt]

/-- Entries that are less than a ring apart have different slots. -/
theorem slot_ne {size k p : ℕ} (hlt : k < p) (hnear : p - k < size) : p % size ≠ k % size := by
  intro heq
  have hdvd : size ∣ p - k := (Nat.modEq_iff_dvd' hlt.le).mp heq.symm
  exact absurd (Nat.le_of_dvd (by omega) hdvd) (by omega)

/-- The slot of an entry can be read off its counter. -/
theorem slot_mod {m size : ℕ} (hdvd : size ∣ m) (k : ℕ) : k % m % size = k % size :=
  Nat.mod_mod_of_dvd k hdvd

end GrahaOS.FreeRunning
