import GrahaOS.HandleTable
import GrahaOS.Runs
import GrahaOS.ThreadedLists

/-!
# The slots of a handle table

`kernel/cap/handle_table.c` over whole runs, while allocations may fail at any point. A table whose
initialisation failed has no slots; growing it doubles nothing, and since `kmalloc(0)` returns
memory the insertion goes on to take a slot that is not there. Every run without such an insertion
keeps the table in order.
-/

namespace GrahaOS.HandleSlots

open Token CapRegistry HandleTable ThreadedLists Runs List

/-- A table without entries. -/
def noTable : Table := ⟨fun _ => ⟨idxNone, 0#32, 0#8, slotNone⟩, 0, 0, slotNone⟩

/-- `cap_handle_table_init`; `heap` is the outcome of its allocation. -/
def initTable (heap : Bool) : ℤ × Table :=
  if heap then (0, capHandleTableInit) else (CapError.enomem.code, noTable)

variable (t : Table)

def capHandleTableFree : Table := { t with capacity := 0, count := 0, nextFree := slotNone }

inductive TableOp
  | init (heap : Bool)
  | insert (objectIdx : ℕ) (tokenFlags : BitVec 8) (heap : Bool)
  | remove (slot : ℕ)
  | lookup (slot : ℕ)
  | free

def step : TableOp → Table
  | .init heap => (initTable heap).2
  | .insert objectIdx tokenFlags heap => (capHandleInsert t objectIdx tokenFlags heap).2.2
  | .remove slot => (capHandleRemove t slot).2
  | .lookup _ => t
  | .free => capHandleTableFree t

/-- An insertion that allocates nothing, or goes into a table that has slots. -/
def HasSlots : TableOp → Prop
  | .insert objectIdx _ heap => t.capacity ≠ 0 ∨ heap = false ∨ objectIdx = idxNone
  | _ => True

instance hasSlotsDecidable : ∀ op, Decidable (HasSlots t op)
  | .insert _ _ _ => inferInstanceAs (Decidable (_ ∨ _ ∨ _))
  | .init _ | .remove _ | .lookup _ | .free => .isTrue trivial

/-- The slot belongs to the table and refers to nothing. -/
def Unused (i : ℕ) : Prop := i < t.capacity ∧ (t.entries i).objectIdx = idxNone

/-- The slots in use. -/
def used : Finset ℕ :=
  (Finset.range t.capacity).filter fun i => (t.entries i).objectIdx ≠ idxNone

variable {t : Table} {i objectIdx : ℕ} {heap : Bool} {tokenFlags : BitVec 8}

lemma mem_used : i ∈ used t ↔ i < t.capacity ∧ (t.entries i).objectIdx ≠ idxNone := by
  rw [used, Finset.mem_filter, Finset.mem_range]

/-- The free list ends, visits no slot twice and visits exactly the unused slots; the count
is the number of the used ones; the capacity is 0 or a power of two from 16 to 1024. -/
structure InOrder (t : Table) : Prop where
  capacity : t.capacity = 0 ∨ ∃ k, 4 ≤ k ∧ k ≤ 10 ∧ t.capacity = 2 ^ k
  free : ∃ l : List ℕ, Threaded (fun i => (t.entries i).nextFree) slotNone t.nextFree l ∧
    l.Nodup ∧ ∀ i, i ∈ l ↔ Unused t i
  count : t.count = (used t).card

/-- An insertion that succeeds returns a slot of the table that was not in use, enters the
object there and leaves every other slot as it was. -/
def TakesUnused (t : Table) (objectIdx : ℕ) (tokenFlags : BitVec 8) (heap : Bool) : Prop :=
  let r := capHandleInsert t objectIdx tokenFlags heap
  0 ≤ r.1 → capHandleLookup t r.2.1 = none ∧ r.2.1 < r.2.2.capacity ∧
    (capHandleLookup r.2.2 r.2.1).map HandleEntry.objectIdx = some objectIdx ∧
    ∀ slot ≠ r.2.1, capHandleLookup r.2.2 slot = capHandleLookup t slot

variable (h : InOrder t)
include h

lemma InOrder.capacity_le : t.capacity ≤ capHandleMax := by
  rcases h.capacity with hzero | ⟨k, -, hk, hcap⟩
  · rw [hzero]
    exact Nat.zero_le _
  · rw [hcap]
    exact Nat.pow_le_pow_right (by decide) hk

lemma InOrder.ne_slotNone (hi : i < t.capacity) : i ≠ slotNone := by
  have hle := h.capacity_le
  have hmax : capHandleMax < slotNone := by decide
  omega

omit h

/-- Rebuilding a range puts its slots, in order, in front of the free list. -/
lemma rebuildFreeListInRange_threaded (start n : ℕ) : ∀ (entries : ℕ → HandleEntry) (head : ℕ)
    (l : List ℕ), start + n ≤ slotNone → (∀ i ∈ l, i < start ∨ start + n ≤ i) →
    Threaded (fun i => (entries i).nextFree) slotNone head l →
    Threaded (fun i => ((rebuildFreeListInRange entries start n head).1 i).nextFree) slotNone
      (rebuildFreeListInRange entries start n head).2 (List.range' start n ++ l) := by
  induction n with
  | zero =>
    intro entries head l _ _ h
    exact h
  | succ n ih =>
  intro entries head l hbound hout h
  have hfresh : start + n ∉ l := by
    intro hmem
    have := hout _ hmem
    omega
  have hpush : Threaded (fun i => (Function.update entries (start + n)
      ⟨idxNone, 1#32, 0#8, head⟩ i).nextFree) slotNone (start + n) ((start + n) :: l) := by
    refine h.push (by omega) hfresh (by simp) fun j hj => ?_
    simp [hj]
  rw [List.range'_1_concat, append_assoc]
  refine ih _ _ _ (by omega) ?_ hpush
  intro i hi
  rcases mem_cons.mp hi with rfl | hi
  · exact .inr le_rfl
  · have := hout i hi
    omega

lemma rebuildFreeListInRange_objectIdx {start n : ℕ} (entries : ℕ → HandleEntry) (head : ℕ)
    (hlo : start ≤ i) (hhi : i < start + n) :
    ((rebuildFreeListInRange entries start n head).1 i).objectIdx = idxNone := by
  have hfree := (rebuildFreeListInRange_entries start n entries head i).1 hlo hhi
  unfold held at hfree
  split_ifs at hfree with hnone
  · exact hnone
  · exact absurd hfree (Multiset.singleton_ne_zero _)

lemma inOrder_noTable (entries : ℕ → HandleEntry) : InOrder ⟨entries, 0, 0, slotNone⟩ where
  capacity := .inl rfl
  free := ⟨[], rfl, nodup_nil, fun i => by simp [Unused]⟩
  count := by simp [used]

lemma inOrder_init (heap : Bool) : InOrder (initTable heap).2 := by
  cases heap with
  | false => exact inOrder_noTable _
  | true =>
  have hthreaded := rebuildFreeListInRange_threaded 0 capHandleInitialCapacity
    (fun _ => ⟨idxNone, 0#32, 0#8, slotNone⟩) slotNone [] (by decide) (by simp) rfl
  have hfree : ∀ i < capHandleInitialCapacity,
      ((initTable true).2.entries i).objectIdx = idxNone := by
    intro i hi
    exact rebuildFreeListInRange_objectIdx _ _ (Nat.zero_le i) (by rwa [Nat.zero_add])
  refine ⟨.inr ⟨4, by decide, by decide, rfl⟩, ⟨_, hthreaded, ?_, ?_⟩, ?_⟩
  · rw [append_nil]
    exact nodup_range'
  · intro i
    rw [append_nil, mem_range'_1, Nat.zero_add]
    exact ⟨fun hi => ⟨hi.2, hfree i hi.2⟩, fun hi => ⟨Nat.zero_le i, hi.1⟩⟩
  · refine (Finset.card_eq_zero.mpr (Finset.eq_empty_of_forall_notMem ?_)).symm
    intro i hi
    exact (mem_used.mp hi).2 (hfree i (mem_used.mp hi).1)

lemma inOrder_takeSlot (h : InOrder t) (hfree : t.nextFree ≠ slotNone)
    (hobject : objectIdx ≠ idxNone) (tokenFlags : BitVec 8) :
    Unused t t.nextFree ∧ InOrder (takeSlot t objectIdx tokenFlags) := by
  obtain ⟨l, hthreaded, hnodup, hmem⟩ := h.free
  obtain ⟨rest, rfl, hrest⟩ := hthreaded.exists_cons hfree
  have hunused : Unused t t.nextFree := (hmem _).mp mem_cons_self
  obtain ⟨hfresh, hnodup'⟩ := nodup_cons.mp hnodup
  refine ⟨hunused, h.capacity, ⟨rest, ?_, hnodup', ?_⟩, ?_⟩
  · refine hrest.congr fun i hi => ?_
    have hne : i ≠ t.nextFree := by
      rintro rfl
      exact hfresh hi
    simp [takeSlot, hne]
  · intro i
    by_cases hi : i = t.nextFree
    · subst hi
      simp [takeSlot, Unused, hobject, hfresh]
    · have hcons := hmem i
      simp only [mem_cons, hi, false_or] at hcons
      rw [hcons]
      simp [takeSlot, Unused, hi]
  · have hused : used (takeSlot t objectIdx tokenFlags) = insert t.nextFree (used t) := by
      ext i
      rw [Finset.mem_insert, mem_used, mem_used]
      by_cases hi : i = t.nextFree
      · subst hi
        simp [takeSlot, hobject, hunused.1]
      · simp [takeSlot, hi]
    have hnot : t.nextFree ∉ used t := fun hin => (mem_used.mp hin).2 hunused.2
    rw [hused, Finset.card_insert_of_notMem hnot, ← h.count]
    rfl

/-- A table with as many free slots again. -/
def doubled (t : Table) : Table :=
  let r := rebuildFreeListInRange t.entries t.capacity t.capacity t.nextFree
  { t with entries := r.1, capacity := t.capacity + t.capacity, nextFree := r.2 }

lemma capHandleGrow_eq {t' : Table} (h : InOrder t) (hcap : t.capacity ≠ 0)
    (hgrow : capHandleGrow t heap = .ok t') :
    t' = doubled t ∧ ∃ k, 4 ≤ k ∧ k ≤ 10 ∧ t.capacity + t.capacity = 2 ^ k := by
  unfold capHandleGrow at hgrow
  split_ifs at hgrow with hmax hheap
  obtain ⟨k, hk, hk', hpow⟩ := h.capacity.resolve_left hcap
  have hmaxPow : capHandleMax = 2 ^ 10 := rfl
  have hlt : k < 10 := by
    by_contra hge
    obtain rfl : k = 10 := by omega
    exact hmax (hmaxPow ▸ hpow ▸ le_rfl)
  have hdouble : t.capacity + t.capacity = 2 ^ (k + 1) := by
    rw [hpow, pow_succ]
    omega
  have hle : t.capacity + t.capacity ≤ capHandleMax := by
    rw [hdouble, hmaxPow]
    exact Nat.pow_le_pow_right Nat.two_pos hlt
  have hmin : min (t.capacity * 2) capHandleMax = t.capacity + t.capacity := by omega
  simp only [hmin, Nat.add_sub_cancel] at hgrow
  exact ⟨(Except.ok.inj hgrow).symm, k + 1, by omega, hlt, hdouble⟩

lemma doubled_old (hi : i < t.capacity) : (doubled t).entries i = t.entries i :=
  (rebuildFreeListInRange_entries _ _ _ _ i).2 (.inl hi)

lemma doubled_new (hlo : t.capacity ≤ i) (hhi : i < t.capacity + t.capacity) :
    ((doubled t).entries i).objectIdx = idxNone :=
  rebuildFreeListInRange_objectIdx _ _ hlo hhi

lemma capHandleLookup_doubled (t : Table) (slot : ℕ) :
    capHandleLookup (doubled t) slot = capHandleLookup t slot := by
  have hcap : (doubled t).capacity = t.capacity + t.capacity := rfl
  unfold capHandleLookup
  rw [hcap]
  rcases Nat.lt_or_ge slot t.capacity with hlt | hge
  · have hin : ¬t.capacity + t.capacity ≤ slot := by omega
    rw [if_neg hin, if_neg (Nat.not_le.mpr hlt), doubled_old hlt]
  · rw [if_pos hge]
    rcases Nat.lt_or_ge slot (t.capacity + t.capacity) with hin | hout
    · rw [if_neg (Nat.not_le.mpr hin), if_pos (doubled_new hge hin)]
    · rw [if_pos hout]

lemma used_doubled (t : Table) : used (doubled t) = used t := by
  have hcap : (doubled t).capacity = t.capacity + t.capacity := rfl
  ext i
  rw [mem_used, mem_used, hcap]
  rcases Nat.lt_or_ge i t.capacity with hlt | hge
  · rw [doubled_old hlt]
    exact ⟨fun hin => ⟨hlt, hin.2⟩, fun hin => ⟨by omega, hin.2⟩⟩
  · exact ⟨fun hin => absurd (doubled_new hge hin.1) hin.2, fun hin => absurd hin.1 (by omega)⟩

lemma inOrder_doubled (h : InOrder t) (hcap : t.capacity ≠ 0) (hempty : t.nextFree = slotNone)
    (hpow : ∃ k, 4 ≤ k ∧ k ≤ 10 ∧ t.capacity + t.capacity = 2 ^ k) :
    InOrder (doubled t) ∧ (doubled t).nextFree ≠ slotNone := by
  obtain ⟨l, hthreaded, -, hmem⟩ := h.free
  have hnil : l = [] := (hempty ▸ hthreaded).eq_nil
  subst hnil
  have hbound : t.capacity + t.capacity ≤ slotNone := by
    have hle := h.capacity_le
    have hmax : capHandleMax + capHandleMax ≤ slotNone := by decide
    omega
  have hnew := rebuildFreeListInRange_threaded t.capacity t.capacity t.entries t.nextFree [] hbound
    (by simp) hthreaded
  rw [append_nil] at hnew
  refine ⟨⟨.inr hpow, ⟨_, hnew, nodup_range', ?_⟩, ?_⟩, ?_⟩
  · intro i
    rw [mem_range'_1]
    constructor
    · rintro ⟨hlo, hhi⟩
      exact ⟨hhi, doubled_new hlo hhi⟩
    · rintro ⟨hhi, hfree⟩
      refine ⟨?_, hhi⟩
      by_contra hlo
      rw [doubled_old (by omega)] at hfree
      exact not_mem_nil ((hmem i).mpr ⟨by omega, hfree⟩)
  · rw [used_doubled]
    exact h.count
  · exact hnew.ne_stop (by simpa using hcap)

lemma code_neg (e : CapError) : e.code < 0 := by
  cases e <;> decide

include h

variable (hslots : HasSlots t (.insert objectIdx tokenFlags heap))
include hslots

/-- What an insertion does: nothing, or it takes the first free slot of the table or of the
doubled table. -/
lemma capHandleInsert_cases : ((capHandleInsert t objectIdx tokenFlags heap).1 < 0 ∧
      (capHandleInsert t objectIdx tokenFlags heap).2.2 = t) ∨
    ∃ t', InOrder t' ∧ t'.nextFree ≠ slotNone ∧ objectIdx ≠ idxNone ∧
      (∀ slot, capHandleLookup t' slot = capHandleLookup t slot) ∧
      (capHandleInsert t objectIdx tokenFlags heap).2 =
        (t'.nextFree, takeSlot t' objectIdx tokenFlags) := by
  unfold capHandleInsert
  by_cases hobject : objectIdx = idxNone
  · rw [if_pos hobject]
    exact .inl ⟨code_neg .einval, rfl⟩
  rw [if_neg hobject]
  by_cases hempty : t.nextFree = slotNone
  · rw [if_pos hempty]
    cases hgrow : capHandleGrow t heap with
    | error e => exact .inl ⟨code_neg e, rfl⟩
    | ok t' =>
    have hcap : t.capacity ≠ 0 := by
      rcases hslots with hcap | hheap | hnone
      · exact hcap
      · simp [capHandleGrow, hheap] at hgrow
      · exact absurd hnone hobject
    obtain ⟨rfl, hpow⟩ := capHandleGrow_eq h hcap hgrow
    obtain ⟨horder, hfree⟩ := inOrder_doubled h hcap hempty hpow
    exact .inr ⟨_, horder, hfree, hobject, capHandleLookup_doubled t, rfl⟩
  · rw [if_neg hempty]
    exact .inr ⟨t, h, hempty, hobject, fun _ => rfl, rfl⟩

lemma inOrder_insert : InOrder (capHandleInsert t objectIdx tokenFlags heap).2.2 := by
  rcases capHandleInsert_cases h hslots with ⟨-, hsame⟩ | ⟨t', horder, hfree, hobject, -, htaken⟩
  · rw [hsame]
    exact h
  · rw [htaken]
    exact (inOrder_takeSlot horder hfree hobject tokenFlags).2

lemma takesUnused_insert : TakesUnused t objectIdx tokenFlags heap := by
  unfold TakesUnused
  intro r hsuccess
  rcases capHandleInsert_cases h hslots with
    ⟨hfailed, -⟩ | ⟨t', horder, hfree, hobject, hlookup, htaken⟩
  · exact absurd hsuccess (not_le.mpr hfailed)
  obtain ⟨hunused, -⟩ := inOrder_takeSlot horder hfree hobject tokenFlags
  have hr : r.2 = (t'.nextFree, takeSlot t' objectIdx tokenFlags) := htaken
  rw [hr]
  refine ⟨?_, hunused.1, ?_, ?_⟩
  · rw [← hlookup]
    simp [capHandleLookup, hunused.2]
  · simp [capHandleLookup, takeSlot, hunused.1, hobject]
  · intro slot hslot
    rw [← hlookup]
    simp [capHandleLookup, takeSlot, hslot]

omit hslots

lemma inOrder_remove (slot : ℕ) : InOrder (capHandleRemove t slot).2 := by
  unfold capHandleRemove
  by_cases hrange : t.capacity ≤ slot
  · rw [if_pos hrange]
    exact h
  rw [if_neg hrange]
  by_cases hfree : (t.entries slot).objectIdx = idxNone
  · simp only [hfree, if_true]
    exact h
  simp only [hfree, if_false]
  have hlt : slot < t.capacity := Nat.lt_of_not_le hrange
  obtain ⟨l, hthreaded, hnodup, hmem⟩ := h.free
  have hfresh : slot ∉ l := fun hin => hfree ((hmem slot).mp hin).2
  refine ⟨h.capacity, ⟨slot :: l, ?_, nodup_cons.mpr ⟨hfresh, hnodup⟩, ?_⟩, ?_⟩
  · refine hthreaded.push (h.ne_slotNone hlt) hfresh (by simp) fun j hj => ?_
    simp [hj]
  · intro i
    by_cases hi : i = slot
    · subst hi
      simp [Unused, hlt]
    · rw [mem_cons, hmem i]
      simp [Unused, hi]
  · have hused : used ⟨Function.update t.entries slot
        ⟨idxNone, (t.entries slot).localGeneration + 1#32, 0#8, t.nextFree⟩, t.capacity,
        t.count - 1, slot⟩ = (used t).erase slot := by
      ext i
      rw [Finset.mem_erase, mem_used, mem_used]
      by_cases hi : i = slot
      · subst hi
        simp
      · simp [hi]
    rw [hused, Finset.card_erase_of_mem (mem_used.mpr ⟨hlt, hfree⟩), ← h.count]

omit h

lemma inOrder_step (t : Table) (op : TableOp) (h : InOrder t) (hop : HasSlots t op) :
    InOrder (step t op) := by
  cases op with
  | init heap => exact inOrder_init heap
  | insert objectIdx tokenFlags heap => exact inOrder_insert h hop
  | remove slot => exact inOrder_remove h slot
  | lookup slot => exact h
  | free => exact inOrder_noTable _

/-- Every run of operations on a table, whose first initialisation and other allocations
may fail, leaves it in order and lets the next insertion take an unused slot, provided no
insertion gets memory while the table has no slots. -/
theorem handle_table_stays_in_order {heap : Bool} {ops : List TableOp}
    (hops : Guarded step HasSlots (initTable heap).2 ops) :
    InOrder (run step (initTable heap).2 ops) ∧
      ∀ objectIdx tokenFlags heap',
        HasSlots (run step (initTable heap).2 ops) (.insert objectIdx tokenFlags heap') →
          TakesUnused (run step (initTable heap).2 ops) objectIdx tokenFlags heap' := by
  have horder := invariant_run InOrder inOrder_step (inOrder_init heap) hops
  exact ⟨horder, fun _ _ _ hslots => takesUnused_insert horder hslots⟩

/-- A table that is filled up, grows, gives one slot back and takes it again. -/
def seventeen : List TableOp :=
  List.replicate 17 (.insert 5 0#8 true) ++ [.remove 3, .insert 6 0#8 false]

theorem seventeen_in_order :
    Guarded step HasSlots (initTable true).2 seventeen ∧
      InOrder (run step (initTable true).2 seventeen) ∧
      (run step (initTable true).2 seventeen).capacity = 32 := by
  have hguard : Guarded step HasSlots (initTable true).2 seventeen := by decide
  exact ⟨hguard, (handle_table_stays_in_order hguard).1, by decide⟩

/-- An insertion into a table whose initialisation failed reports success, with a slot
outside the table, and the count is off from then on. -/
theorem insert_without_slots :
    (initTable false).1 < 0 ∧
      (capHandleInsert (initTable false).2 5 0#8 true).1 = 0 ∧
      (capHandleInsert (initTable false).2 5 0#8 true).2.1 = slotNone ∧
      (step (initTable false).2 (.insert 5 0#8 true)).capacity = 0 ∧
      (step (initTable false).2 (.insert 5 0#8 true)).count = 1 ∧
      ¬InOrder (step (initTable false).2 (.insert 5 0#8 true)) := by
  refine ⟨by decide, by decide, by decide, by decide, by decide, fun h => ?_⟩
  exact absurd h.count (by decide)

end GrahaOS.HandleSlots
