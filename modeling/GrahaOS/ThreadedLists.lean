import Mathlib.Data.List.Range
import Mathlib.Logic.Function.Basic
import Mathlib.Tactic

/-!
# Lists threaded through an array

A list of array positions is kept in the array itself: each position of the list has a link to the
next one and the last link is a mark that is no position. `Threaded` relates such links to the list
they spell.
-/

namespace GrahaOS.ThreadedLists

/-- Following the links from `cur` visits the listed positions in order and ends at the
mark `stop`. -/
def Threaded (next : ℕ → ℕ) (stop : ℕ) : ℕ → List ℕ → Prop
  | cur, [] => cur = stop
  | cur, i :: is => cur = i ∧ i ≠ stop ∧ Threaded next stop (next i) is

namespace Threaded

variable {next next' : ℕ → ℕ} {stop cur : ℕ} {l : List ℕ}

variable (h : Threaded next stop cur l)
include h

/-- Only the links of the listed positions matter. -/
lemma congr (hsame : ∀ i ∈ l, next' i = next i) : Threaded next' stop cur l := by
  induction l generalizing cur with
  | nil => exact h
  | cons i is ih =>
    obtain ⟨hcur, hne, hrest⟩ := h
    refine ⟨hcur, hne, ?_⟩
    rw [hsame i List.mem_cons_self]
    exact ih hrest fun j hj => hsame j (List.mem_cons_of_mem i hj)

/-- A position outside the list is linked in front of it. -/
lemma push {i : ℕ} (hi : i ≠ stop) (hfresh : i ∉ l) (hnext : next' i = cur)
    (hsame : ∀ j ≠ i, next' j = next j) :
    Threaded next' stop i (i :: l) := by
  refine ⟨rfl, hi, ?_⟩
  rw [hnext]
  refine h.congr fun j hj => hsame j ?_
  rintro rfl
  exact hfresh hj

/-- A list that does not end at once has a first position. -/
lemma exists_cons (hcur : cur ≠ stop) :
    ∃ rest, l = cur :: rest ∧ Threaded next stop (next cur) rest := by
  cases l with
  | nil => exact absurd h hcur
  | cons i is =>
    obtain ⟨rfl, -, hrest⟩ := h
    exact ⟨is, rfl, hrest⟩

lemma ne_stop (hl : l ≠ []) : cur ≠ stop := by
  cases l with
  | nil => exact absurd rfl hl
  | cons i is => exact h.1 ▸ h.2.1

omit h

lemma eq_nil (h : Threaded next stop stop l) : l = [] := by
  cases l with
  | nil => rfl
  | cons i is => exact absurd h.1.symm h.2.1

end Threaded

end GrahaOS.ThreadedLists
