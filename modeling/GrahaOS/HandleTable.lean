import GrahaOS.CapRegistry
import Mathlib.Algebra.BigOperators.Group.Finset.Piecewise
import Mathlib.Algebra.Order.Group.Multiset

/-!
# Handle tables

`kernel/cap/handle_table.c`. A task's handles are an array of entries that starts with 16 slots and
doubles up to 1024; free entries are threaded on a list through their `next_free` fields. The
references of a table are the object indices of its entries, with multiplicity, and each operation
is described by what it does to them.
-/

namespace GrahaOS.HandleTable

open Token CapRegistry Function Finset
open scoped BigOperators

lemma sum_update_add {ι M : Type*} [DecidableEq ι] [AddCommMonoid M] {s : Finset ι} {i : ι}
    (hi : i ∈ s) (f : ι → M) (b : M) :
    ∑ x ∈ s, update f i b x + f i = b + ∑ x ∈ s, f x := by
  rw [sum_update_of_mem hi, add_assoc, sdiff_singleton_eq_erase, sum_erase_add s f hi]

def capHandleInitialCapacity : ℕ := 16
def capHandleMax : ℕ := 1024

def slotNone : ℕ := 0xFFFFFFFF

/-- `cap_handle_entry_t`. -/
structure HandleEntry where
  objectIdx : ℕ
  localGeneration : BitVec 32
  tokenFlags : BitVec 8
  nextFree : ℕ
deriving DecidableEq

/-- `cap_handle_table_t`. -/
structure Table where
  entries : ℕ → HandleEntry
  capacity : ℕ
  count : ℕ
  nextFree : ℕ

/-- `rebuild_free_list_in_range` over the `n` slots from `start`, from the last down. -/
def rebuildFreeListInRange (entries : ℕ → HandleEntry) (start : ℕ) :
    ℕ → ℕ → (ℕ → HandleEntry) × ℕ
  | 0, head => (entries, head)
  | n + 1, head =>
    rebuildFreeListInRange (Function.update entries (start + n) ⟨idxNone, 1#32, 0#8, head⟩)
      start n (start + n)

/-- `cap_handle_table_init` with enough memory. -/
def capHandleTableInit : Table :=
  let r := rebuildFreeListInRange (fun _ => ⟨idxNone, 0#32, 0#8, slotNone⟩) 0
    capHandleInitialCapacity slotNone
  ⟨r.1, capHandleInitialCapacity, 0, r.2⟩

variable (t : Table)

/-- `cap_handle_grow`; `heap` is the outcome of its allocation. -/
def capHandleGrow (heap : Bool) : Except CapError Table :=
  if capHandleMax ≤ t.capacity then .error .enomem
  else if !heap then .error .enomem
  else
    let newCap := min (t.capacity * 2) capHandleMax
    let r := rebuildFreeListInRange t.entries t.capacity (newCap - t.capacity) t.nextFree
    .ok { t with entries := r.1, capacity := newCap, nextFree := r.2 }

/-- The free slot is taken off the list and given to the object. -/
def takeSlot (objectIdx : ℕ) (tokenFlags : BitVec 8) : Table :=
  let e := t.entries t.nextFree
  { t with
    entries := Function.update t.entries t.nextFree
      { e with objectIdx := objectIdx, tokenFlags := tokenFlags, nextFree := slotNone }
    nextFree := e.nextFree
    count := t.count + 1 }

/-- `cap_handle_insert`: its return value, the slot it reports and the table. The local
generation is returned as an `int`, so that a large one reads as an error. -/
def capHandleInsert (objectIdx : ℕ) (tokenFlags : BitVec 8) (heap : Bool) : ℤ × ℕ × Table :=
  if objectIdx = idxNone then (CapError.einval.code, 0, t)
  else
    match (if t.nextFree = slotNone then capHandleGrow t heap else .ok t) with
    | .error e => (e.code, 0, t)
    | .ok t' => ((t'.entries t'.nextFree).localGeneration.toInt, t'.nextFree,
        takeSlot t' objectIdx tokenFlags)

def capHandleLookup (slot : ℕ) : Option HandleEntry :=
  if t.capacity ≤ slot then none
  else if (t.entries slot).objectIdx = idxNone then none
  else some (t.entries slot)

def capHandleRemove (slot : ℕ) : ℤ × Table :=
  if t.capacity ≤ slot then (CapError.einval.code, t)
  else
    let e := t.entries slot
    if e.objectIdx = idxNone then (CapError.einval.code, t)
    else (0, { t with
      entries := Function.update t.entries slot
        ⟨idxNone, e.localGeneration + 1#32, 0#8, t.nextFree⟩
      nextFree := slot
      count := t.count - 1 })

/-- What an entry refers to. -/
def held (e : HandleEntry) : Multiset ℕ := if e.objectIdx = idxNone then 0 else {e.objectIdx}

/-- The object references of a table. -/
def refs : Multiset ℕ := ∑ slot ∈ Finset.range t.capacity, held (t.entries slot)

lemma held_le (e : HandleEntry) : held e ≤ {e.objectIdx} := by
  unfold held
  split_ifs
  · exact Multiset.zero_le _
  · exact le_rfl

variable {t : Table}

lemma refs_update {slot : ℕ} (hslot : slot < t.capacity) (e : HandleEntry) (count nextFree : ℕ) :
    refs ⟨update t.entries slot e, t.capacity, count, nextFree⟩ + held (t.entries slot) =
      held e + refs t := by
  unfold refs
  simp only [apply_update fun _ => held]
  exact sum_update_add (mem_range.mpr hslot) (fun s => held (t.entries s)) (held e)

lemma refs_update_outside {slot : ℕ} (hslot : ¬slot < t.capacity) (e : HandleEntry)
    (count nextFree : ℕ) :
    refs ⟨update t.entries slot e, t.capacity, count, nextFree⟩ = refs t := by
  unfold refs
  refine sum_congr rfl fun s hs => ?_
  have hne : s ≠ slot := by
    rintro rfl
    exact hslot (mem_range.mp hs)
  simp [hne]

lemma rebuildFreeListInRange_entries (start n : ℕ) : ∀ (entries : ℕ → HandleEntry) (head i : ℕ),
    (start ≤ i → i < start + n →
      held ((rebuildFreeListInRange entries start n head).1 i) = 0) ∧
    (i < start ∨ start + n ≤ i →
      (rebuildFreeListInRange entries start n head).1 i = entries i) := by
  induction n with
  | zero =>
    intro entries head i
    constructor
    · intro hle hlt
      omega
    · intro _
      rfl
  | succ n ih =>
    intro entries head i
    rw [rebuildFreeListInRange]
    obtain ⟨hfree, hrest⟩ := ih
      (update entries (start + n) ⟨idxNone, 1#32, 0#8, head⟩) (start + n) i
    constructor
    · intro hle hlt
      by_cases hlast : i = start + n
      · rw [hrest (.inr hlast.ge), hlast, update_self]
        simp [held]
      · exact hfree hle (by omega)
    · intro hout
      have hne : i ≠ start + n := by omega
      rw [hrest (by omega), update_of_ne hne]

lemma refs_grow {t' : Table} {heap : Bool} (h : capHandleGrow t heap = .ok t') :
    refs t' = refs t := by
  unfold capHandleGrow at h
  split_ifs at h with hmax hheap
  have hcap : t.capacity ≤ min (t.capacity * 2) capHandleMax := by omega
  cases h
  unfold refs
  obtain ⟨extra, hextra⟩ := Nat.exists_eq_add_of_le hcap
  rw [hextra, Nat.add_sub_cancel_left, sum_range_add]
  have hold : ∀ s ∈ Finset.range t.capacity,
      held ((rebuildFreeListInRange t.entries t.capacity extra t.nextFree).1 s) =
        held (t.entries s) := by
    intro s hs
    have hlt := mem_range.mp hs
    rw [(rebuildFreeListInRange_entries _ _ _ _ s).2 (.inl hlt)]
  have hnew : ∀ s ∈ Finset.range extra,
      held ((rebuildFreeListInRange t.entries t.capacity extra t.nextFree).1
        (t.capacity + s)) = 0 := by
    intro s hs
    have hlt := mem_range.mp hs
    exact (rebuildFreeListInRange_entries _ _ _ _ _).1 (by omega) (by omega)
  rw [sum_congr rfl hold, sum_congr rfl hnew, sum_const_zero, add_zero]

lemma refs_takeSlot_le (t : Table) (objectIdx : ℕ) (tokenFlags : BitVec 8) :
    refs (takeSlot t objectIdx tokenFlags) ≤ {objectIdx} + refs t := by
  by_cases hslot : t.nextFree < t.capacity
  · have hupdate := refs_update hslot
      { t.entries t.nextFree with
        objectIdx := objectIdx, tokenFlags := tokenFlags, nextFree := slotNone }
      (t.count + 1) (t.entries t.nextFree).nextFree
    calc refs (takeSlot t objectIdx tokenFlags)
        ≤ refs (takeSlot t objectIdx tokenFlags) + held (t.entries t.nextFree) :=
          Multiset.le_add_right _ _
      _ = _ := hupdate
      _ ≤ {objectIdx} + refs t := by
          gcongr
          exact held_le _
  · have houtside := refs_update_outside hslot
      { t.entries t.nextFree with
        objectIdx := objectIdx, tokenFlags := tokenFlags, nextFree := slotNone }
      (t.count + 1) (t.entries t.nextFree).nextFree
    calc refs (takeSlot t objectIdx tokenFlags) = refs t := houtside
      _ ≤ {objectIdx} + refs t := Multiset.le_add_left _ _

/-- Whatever an insertion returns, it adds at most the object it was given. -/
theorem refs_insert_le (t : Table) (objectIdx : ℕ) (tokenFlags : BitVec 8) (heap : Bool) :
    refs (capHandleInsert t objectIdx tokenFlags heap).2.2 ≤ {objectIdx} + refs t := by
  unfold capHandleInsert
  split_ifs with hnone hfull
  · exact Multiset.le_add_left _ _
  · cases hgrow : capHandleGrow t heap with
    | error e => exact Multiset.le_add_left _ _
    | ok t' =>
      have hle := refs_takeSlot_le t' objectIdx tokenFlags
      rw [refs_grow hgrow] at hle
      exact hle
  · exact refs_takeSlot_le t objectIdx tokenFlags

/-- Removing an entry gives up what it referred to. -/
theorem refs_remove {slot : ℕ} {e : HandleEntry} (h : capHandleLookup t slot = some e) :
    refs (capHandleRemove t slot).2 + {e.objectIdx} = refs t := by
  unfold capHandleLookup at h
  split_ifs at h with hslot hfree
  cases h
  have hupdate := refs_update (Nat.lt_of_not_le hslot)
    ⟨idxNone, (t.entries slot).localGeneration + 1#32, 0#8, t.nextFree⟩ (t.count - 1) slot
  unfold capHandleRemove
  rw [if_neg hslot]
  simp only [hfree, if_false]
  simpa [held, hfree] using hupdate

theorem refs_remove_le (t : Table) (slot : ℕ) : refs (capHandleRemove t slot).2 ≤ refs t := by
  cases hlookup : capHandleLookup t slot with
  | none =>
    unfold capHandleLookup at hlookup
    unfold capHandleRemove
    split_ifs at hlookup with hslot hfree
    · simp [hslot]
    · simp [hslot, hfree]
  | some e =>
    rw [← refs_remove hlookup]
    exact Multiset.le_add_right _ _

lemma mem_refs {objectIdx : ℕ} :
    objectIdx ∈ refs t ↔ ∃ slot < t.capacity, ∃ e, capHandleLookup t slot = some e ∧
      e.objectIdx = objectIdx := by
  unfold refs
  rw [Multiset.mem_sum]
  constructor
  · rintro ⟨slot, hslot, hmem⟩
    have hlt := mem_range.mp hslot
    unfold held at hmem
    split_ifs at hmem with hfree
    · simp at hmem
    · refine ⟨slot, hlt, t.entries slot, ?_, (Multiset.mem_singleton.mp hmem).symm⟩
      simp [capHandleLookup, hlt, hfree]
  · rintro ⟨slot, hlt, e, hlookup, rfl⟩
    refine ⟨slot, mem_range.mpr hlt, ?_⟩
    unfold capHandleLookup at hlookup
    split_ifs at hlookup with hslot hfree
    cases hlookup
    simp [held, hfree]

end GrahaOS.HandleTable
