import Mathlib.Order.Basic
import Mathlib.Logic.Function.Basic
import Mathlib.Tactic

/-!
# Insertion sort and binary search in an array

An array is a function of the index, together with a length. `sortInplace` is the insertion sort
that moves the greater cells up before it writes the key, and `binarySearch` looks for a value
between two indices that may cross.
-/

namespace GrahaOS.ArraySearch

open Function

variable {α : Type*} [LinearOrder α] {arr : ℕ → α}

/-- The cells below `j` that are greater than the key move up by one; the result has the index
that they leave free. -/
def shiftUp (key : α) : ℕ → (ℕ → α) → ℕ × (ℕ → α)
  | 0, arr => (0, arr)
  | j + 1, arr =>
    if key < arr j then shiftUp key j (Function.update arr (j + 1) (arr j)) else (j + 1, arr)

variable (arr)

/-- One turn of the outer loop: the cell `i` is inserted into the cells below it. -/
def insertCell (i : ℕ) : ℕ → α :=
  let r := shiftUp (arr i) i arr
  Function.update r.2 r.1 (arr i)

def sortInplace (n : ℕ) : ℕ → α := (List.range' 1 (n - 1)).foldl insertCell arr

variable {arr}

/-- What the inner loop leaves: the cells below the free one stay, those from there to `j` have
moved. -/
structure Shifted (key : α) (j : ℕ) (arr : ℕ → α) (free : ℕ) (arr' : ℕ → α) : Prop where
  le : free ≤ j
  stays : ∀ k, k < free ∨ j < k → arr' k = arr k
  moves : ∀ k, free ≤ k → k < j → arr' (k + 1) = arr k ∧ key < arr k
  below : ∀ k, k + 1 = free → arr k ≤ key

lemma shifted_shiftUp (key : α) (j : ℕ) (arr : ℕ → α) :
    Shifted key j arr (shiftUp key j arr).1 (shiftUp key j arr).2 := by
  induction j generalizing arr with
  | zero =>
    exact ⟨le_rfl, fun _ _ => rfl, fun k _ hk => absurd hk k.not_lt_zero, fun k hk => nomatch hk⟩
  | succ j ih =>
  rw [shiftUp]
  by_cases hgt : key < arr j
  · rw [if_pos hgt]
    have hs := ih (update arr (j + 1) (arr j))
    have hle := hs.le
    -- below `j + 1` the updated array is the given one
    refine ⟨hle.trans j.le_succ, fun k hk => ?_, fun k hfree hk => ?_, fun k hk => ?_⟩
    · rw [hs.stays k (by omega), update_of_ne (by omega)]
    · rcases Nat.lt_succ_iff_lt_or_eq.mp hk with hk | rfl
      · have hmoves := hs.moves k hfree hk
        rwa [update_of_ne (by omega)] at hmoves
      · rw [hs.stays _ (.inr k.lt_succ_self), update_self]
        exact ⟨rfl, hgt⟩
    · have hbelow := hs.below k hk
      rwa [update_of_ne (by omega)] at hbelow
  · rw [if_neg hgt]
    refine ⟨le_rfl, fun _ _ => rfl, fun k hfree hk => absurd hk (by omega), fun k hk => ?_⟩
    obtain rfl : k = j := by omega
    exact not_lt.mp hgt

variable (arr)

/-- The cells below `n` are in ascending order. -/
def SortedTo (n : ℕ) : Prop := ∀ a b, a ≤ b → b < n → arr a ≤ arr b

lemma insertCell_eq (i : ℕ) :
    ∃ free ≤ i, (∀ k, free ≤ k → k < i → arr i < arr k) ∧ (∀ k, k + 1 = free → arr k ≤ arr i) ∧
      ∀ k, insertCell arr i k =
        if k < free ∨ i < k then arr k else if k = free then arr i else arr (k - 1) := by
  have hs := shifted_shiftUp (arr i) i arr
  refine ⟨_, hs.le, fun k hfree hk => (hs.moves k hfree hk).2, hs.below, fun k => ?_⟩
  unfold insertCell
  have hle := hs.le
  by_cases hk : k = (shiftUp (arr i) i arr).1
  · rw [hk, update_self, if_neg (by omega), if_pos rfl]
  rw [update_of_ne hk]
  split_ifs with hstays
  · exact hs.stays k hstays
  · obtain ⟨k, rfl⟩ : ∃ m, k = m + 1 := ⟨k - 1, by omega⟩
    exact (hs.moves k (by omega) (by omega)).1

variable {arr}

lemma sortedTo_insertCell {i : ℕ} (hsorted : SortedTo arr i) :
    SortedTo (insertCell arr i) (i + 1) := by
  obtain ⟨free, hle, habove, hbelow, heq⟩ := insertCell_eq arr i
  have hless : ∀ k, k < free → arr k ≤ arr i := fun k hk =>
    (hsorted k (free - 1) (by omega) (by omega)).trans (hbelow _ (by omega))
  intro a b hab hb
  rw [heq, heq]
  grind [SortedTo]

lemma mem_insertCell {i n : ℕ} (hi : i < n) (x : α) :
    (∃ k < n, insertCell arr i k = x) ↔ ∃ k < n, arr k = x := by
  obtain ⟨free, hle, -, -, heq⟩ := insertCell_eq arr i
  constructor
  · rintro ⟨k, hk, rfl⟩
    rw [heq]
    split_ifs
    · exact ⟨k, hk, rfl⟩
    · exact ⟨i, hi, rfl⟩
    · exact ⟨k - 1, by omega, rfl⟩
  · rintro ⟨k, hk, rfl⟩
    by_cases hstays : k < free ∨ i < k
    · exact ⟨k, hk, by rw [heq, if_pos hstays]⟩
    · rcases eq_or_ne k i with rfl | hne
      · exact ⟨free, by omega, by rw [heq, if_neg (by omega), if_pos rfl]⟩
      · exact ⟨k + 1, by omega, by rw [heq, if_neg (by omega), if_neg (by omega)]; rfl⟩

variable (arr)

lemma sorting (m : ℕ) : SortedTo ((List.range' 1 m).foldl insertCell arr) (m + 1) ∧
      ∀ n, m < n → ∀ x,
        (∃ k < n, (List.range' 1 m).foldl insertCell arr k = x) ↔ ∃ k < n, arr k = x := by
  induction m with
  | zero =>
    refine ⟨fun a b hab hb => ?_, fun _ _ _ => Iff.rfl⟩
    obtain rfl : a = b := by omega
    exact le_rfl
  | succ m ih =>
    rw [List.range'_1_concat, List.foldl_append, Nat.add_comm 1 m]
    exact ⟨sortedTo_insertCell ih.1, fun n hn x => (mem_insertCell hn x).trans
      (ih.2 n (by omega) x)⟩

lemma sortedTo_sortInplace (n : ℕ) : SortedTo (sortInplace arr n) n :=
  fun a b hab hb => (sorting arr (n - 1)).1 a b hab (by omega)

lemma mem_sortInplace (n : ℕ) (x : α) : (∃ k < n, sortInplace arr n k = x) ↔
    ∃ k < n, arr k = x := by
  rcases n.eq_zero_or_pos with rfl | hn
  · simp
  · exact (sorting arr (n - 1)).2 n (by omega) x

variable {arr}

/-- Whether a cell from `lo` to `hi` has the value; `hi` may lie one below `lo`, and so below
zero. -/
def binarySearch (arr : ℕ → α) (x : α) (lo hi : ℤ) : Bool :=
  if lo ≤ hi then
    let mid := lo + (hi - lo) / 2
    let v := arr mid.toNat
    if v = x then true
    else if v < x then binarySearch arr x (mid + 1) hi
    else binarySearch arr x lo (mid - 1)
  else false
termination_by (hi + 1 - lo).toNat

/-- The search is right about an array of which only the cells from `lo` to `hi` can have the
value. -/
lemma binarySearch_iff {n : ℕ} (hsorted : SortedTo arr n) {x : α} {lo hi : ℤ} (hlo : 0 ≤ lo)
    (hhi : hi < n) (hin : ∀ k < n, arr k = x → lo ≤ k ∧ k ≤ hi) :
    binarySearch arr x lo hi = true ↔ ∃ k < n, arr k = x := by
  fun_induction binarySearch arr x lo hi with
  | case1 lo hi hle mid v hv => exact iff_of_true rfl ⟨mid.toNat, by omega, hv⟩
  | case2 lo hi hle mid v hv hless ih =>
    refine ih (by omega) hhi fun k hk hx => ⟨?_, (hin k hk hx).2⟩
    by_contra hge
    exact (hsorted k mid.toNat (by omega) (by omega)).not_gt (hx ▸ hless)
  | case3 lo hi hle mid v hv hless ih =>
    refine ih hlo (by omega) fun k hk hx => ⟨(hin k hk hx).1, ?_⟩
    by_contra hge
    have hmono := hsorted mid.toNat k (by omega) hk
    exact hless (lt_of_le_of_ne (hx ▸ hmono) hv)
  | case4 lo hi hlt =>
    simp only [Bool.false_eq_true, false_iff, not_exists, not_and]
    exact fun k hk hx => hlt ((hin k hk hx).1.trans (hin k hk hx).2)

variable (arr)

/-- Sorting and then searching the whole array finds exactly its values. -/
theorem binarySearch_sortInplace (n : ℕ) (x : α) :
    binarySearch (sortInplace arr n) x 0 (n - 1) = true ↔ ∃ k < n, arr k = x := by
  rw [binarySearch_iff (sortedTo_sortInplace arr n) le_rfl (by omega)
    fun k hk _ => ⟨by omega, by omega⟩]
  exact mem_sortInplace arr n x

end GrahaOS.ArraySearch
