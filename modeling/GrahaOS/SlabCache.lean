import Mathlib.Data.List.Nodup
import Mathlib.Tactic

/-!
# Slab caches

`kernel/mm/slab.c` as its users see it. The per-CPU magazines and the free lists of the slabs are
one list of returned addresses; which of them an allocation gets is an input of the call. A returned
address is not checked against the list: freeing an object twice puts it there twice. The memory of
an object is zeroed when it is allocated and kept when it is freed.
-/

namespace GrahaOS.SlabCache

open Function

variable {α : Type*} {addr : ℕ}

/-- `kmem_cache_t`. Addresses from `carved` on have never been handed out; 0 is the null
pointer. -/
structure Cache (α : Type*) where
  mem : ℕ → α
  free : List ℕ
  carved : ℕ

/-- A cache after `kmem_cache_create`. -/
def kmemCacheCreate (zero : α) : Cache α := ⟨fun _ => zero, [], 1⟩

variable (c : Cache α)

def Cache.write (addr : ℕ) (value : α) : Cache α :=
  { c with mem := Function.update c.mem addr value }

/-- `kmem_cache_alloc`. `pick` is the position of the address in the list of returned
ones; a position past its end carves a new object, and `none` is a cache that cannot
grow. -/
def kmemCacheAlloc (zero : α) : Option ℕ → Option (ℕ × Cache α)
  | none => none
  | some pick =>
    match c.free[pick]? with
    | some addr => some (addr, { c.write addr zero with free := c.free.eraseIdx pick })
    | none => some (c.carved, { c.write c.carved zero with carved := c.carved + 1 })

def kmemCacheFree (addr : ℕ) : Cache α := { c with free := addr :: c.free }

/-- The object is allocated. -/
def Live (addr : ℕ) : Prop := 0 < addr ∧ addr < c.carved ∧ addr ∉ c.free

instance liveDecidable (addr : ℕ) : Decidable (Live c addr) :=
  inferInstanceAs (Decidable (0 < addr ∧ addr < c.carved ∧ addr ∉ c.free))

/-- Every returned address was handed out and is in the list once. -/
structure Sound (c : Cache α) : Prop where
  nodup : c.free.Nodup
  carved_pos : 0 < c.carved
  returned : ∀ addr ∈ c.free, 0 < addr ∧ addr < c.carved

theorem sound_create (zero : α) : Sound (kmemCacheCreate zero) :=
  ⟨List.nodup_nil, Nat.one_pos, fun _ h => absurd h List.not_mem_nil⟩

@[simp] theorem live_write (addr a : ℕ) (value : α) :
    Live (c.write addr value) a ↔ Live c a := Iff.rfl

@[simp] theorem mem_write_self (addr : ℕ) (value : α) :
    (c.write addr value).mem addr = value := update_self ..

theorem mem_write_of_ne {a : ℕ} (h : a ≠ addr) (value : α) :
    (c.write addr value).mem a = c.mem a := update_of_ne h ..

variable {c : Cache α}

theorem Sound.write (hc : Sound c) (addr : ℕ) (value : α) :
    Sound (c.write addr value) := ⟨hc.nodup, hc.carved_pos, hc.returned⟩

@[simp] theorem mem_kmemCacheFree (c : Cache α) (addr : ℕ) : (kmemCacheFree c addr).mem = c.mem := rfl

/-- What a successful allocation has done. -/
structure Allocated (c c' : Cache α) (zero : α) (addr : ℕ) : Prop where
  sound : Sound c'
  pos : 0 < addr
  fresh : ¬Live c addr
  live : ∀ a, Live c' a ↔ a = addr ∨ Live c a
  mem : c'.mem = Function.update c.mem addr zero

theorem kmemCacheAlloc_spec {c' : Cache α} {zero : α} {pick : Option ℕ} (hc : Sound c)
    (h : kmemCacheAlloc c zero pick = some (addr, c')) : Allocated c c' zero addr := by
  cases pick with
  | none => cases h
  | some pick =>
  simp only [kmemCacheAlloc] at h
  cases hget : c.free[pick]? with
  | some a =>
    simp only [hget, Option.some.injEq, Prod.mk.injEq] at h
    obtain ⟨rfl, rfl⟩ := h
    have hmem : a ∈ c.free := List.mem_of_getElem? hget
    have hrest : ∀ x, x ∈ c.free.eraseIdx pick ↔ x ≠ a ∧ x ∈ c.free := by
      intro x
      obtain ⟨hlt, hval⟩ := List.getElem?_eq_some_iff.mp hget
      rw [← hc.nodup.erase_getElem pick hlt, hval, hc.nodup.mem_erase_iff]
    refine ⟨⟨hc.nodup.sublist (List.eraseIdx_sublist ..), hc.carved_pos, ?_⟩,
      (hc.returned a hmem).1, fun hlive => hlive.2.2 hmem, ?_, rfl⟩
    · intro x hx
      exact hc.returned x ((hrest x).mp hx).2
    · intro x
      simp only [Live, Cache.write, hrest]
      by_cases hx : x = a
      · subst hx
        simp [hc.returned x hmem]
      · simp [hx]
  | none =>
    simp only [hget, Option.some.injEq, Prod.mk.injEq] at h
    obtain ⟨rfl, rfl⟩ := h
    refine ⟨⟨hc.nodup, Nat.succ_pos _, ?_⟩, hc.carved_pos, fun hlive => ?_, ?_, rfl⟩
    · intro x hx
      exact ⟨(hc.returned x hx).1, Nat.lt_succ_of_lt (hc.returned x hx).2⟩
    · exact lt_irrefl _ hlive.2.1
    intro x
    have hcarved : c.carved ∉ c.free := fun hx => lt_irrefl _ (hc.returned _ hx).2
    simp only [Live, Cache.write]
    by_cases hx : x = c.carved
    · subst hx
      simp [hc.carved_pos, hcarved]
    constructor
    · rintro ⟨hpos, hlt, hfree⟩
      exact .inr ⟨hpos, by omega, hfree⟩
    · rintro (heq | ⟨hpos, hlt, hfree⟩)
      · exact absurd heq hx
      · exact ⟨hpos, by omega, hfree⟩

/-- Freeing an allocated object keeps the cache sound. -/
theorem Sound.free (hc : Sound c) (hlive : Live c addr) : Sound (kmemCacheFree c addr) := by
  refine ⟨List.nodup_cons.mpr ⟨hlive.2.2, hc.nodup⟩, hc.carved_pos, ?_⟩
  intro x hx
  rcases List.mem_cons.mp hx with rfl | hx
  · exact ⟨hlive.1, hlive.2.1⟩
  · exact hc.returned x hx

theorem live_free (addr a : ℕ) : Live (kmemCacheFree c addr) a ↔ Live c a ∧ a ≠ addr := by
  simp only [Live, kmemCacheFree, List.mem_cons, not_or]
  tauto

/-- The second cache is the first with the objects of `A` allocated besides. -/
structure Extends (c c' : Cache α) (A : Finset ℕ) : Prop where
  sound : Sound c'
  fresh : ∀ a ∈ A, ¬Live c a
  live : ∀ x, Live c' x ↔ Live c x ∨ x ∈ A
  mem : ∀ x, Live c x → c'.mem x = c.mem x

namespace Extends

variable {c c' : Cache α} {A : Finset ℕ}

theorem refl (hc : Sound c) : Extends c c ∅ :=
  ⟨hc, by simp, by simp, fun _ _ => rfl⟩

theorem alloc (h : Extends c c' A) {c'' : Cache α} {zero : α} {pick : Option ℕ}
    (ha : kmemCacheAlloc c' zero pick = some (addr, c'')) :
    Extends c c'' (insert addr A) ∧ 0 < addr ∧ addr ∉ A ∧
      ∀ x, x ≠ addr → c''.mem x = c'.mem x := by
  have hspec := kmemCacheAlloc_spec h.sound ha
  have hnew : ¬(Live c addr ∨ addr ∈ A) := fun hold => hspec.fresh ((h.live addr).mpr hold)
  push Not at hnew
  have hmem : ∀ x, x ≠ addr → c''.mem x = c'.mem x := by
    intro x hx
    rw [hspec.mem, update_of_ne hx]
  refine ⟨⟨hspec.sound, ?_, ?_, ?_⟩, hspec.pos, hnew.2, hmem⟩
  · intro a hA
    rcases Finset.mem_insert.mp hA with rfl | hA
    · exact hnew.1
    · exact h.fresh a hA
  · intro x
    rw [hspec.live, h.live, Finset.mem_insert]
    tauto
  · intro x hx
    have hne : x ≠ addr := by
      rintro rfl
      exact hnew.1 hx
    rw [hmem x hne, h.mem x hx]

theorem write (h : Extends c c' A) {a : ℕ} (ha : a ∈ A) (value : α) :
    Extends c (c'.write a value) A := by
  refine ⟨h.sound.write a value, h.fresh, h.live, ?_⟩
  intro x hx
  have hne : x ≠ a := by
    rintro rfl
    exact h.fresh x ha hx
  rw [mem_write_of_ne _ hne, h.mem x hx]

theorem free (h : Extends c c' A) {a : ℕ} (ha : a ∈ A) :
    Extends c (kmemCacheFree c' a) (A.erase a) := by
  refine ⟨h.sound.free ((h.live a).mpr (.inr ha)), ?_, ?_, h.mem⟩
  · intro x hx
    exact h.fresh x (Finset.mem_of_mem_erase hx)
  intro x
  rw [live_free, h.live, Finset.mem_erase]
  constructor
  · rintro ⟨hx | hx, hne⟩
    · exact .inl hx
    · exact .inr ⟨hne, hx⟩
  · rintro (hx | ⟨hne, hx⟩)
    · refine ⟨.inl hx, ?_⟩
      rintro rfl
      exact h.fresh x ha hx
    · exact ⟨.inr hx, hne⟩

end Extends

end GrahaOS.SlabCache
