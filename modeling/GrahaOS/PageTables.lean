import GrahaOS.PageFrames

/-!
# Address spaces

The functions of `arch/x86_64/mm/vmm.c` that read and change leaf entries. An address space is named
by its `cr3`, an entry by the address space and the 36 bits of the virtual address that index the
four levels of tables. The upper tables are kept as the set of those that exist, since
`vmm_map_page_by_cr3` allocates the missing ones and fails when the allocator does.

The contents of physical memory are kept by frame. Translation caches are not modelled: an entry
takes effect when it is stored.
-/

namespace GrahaOS.PageTables

open PageFrames Function

/-- The flag bits of a leaf entry that is present. -/
structure PteFlags where
  writable : Bool
  user : Bool
  writeThrough : Bool
  cacheDisable : Bool
  nx : Bool
  deriving DecidableEq

/-- A leaf entry that is present: the physical address and the flags. -/
structure Pte where
  phys : ℕ
  flags : PteFlags
  deriving DecidableEq

/-- The frame that an entry maps. -/
def Pte.frame (pte : Pte) : ℕ := pte.phys / pageSize

/-- The contents of a page, by offset. -/
abbrev Page := ℕ → BitVec 8

/-- An upper table: the address space, the level and the part of the page number that leads
to it. -/
abbrev TableKey := ℕ × ℕ × ℕ

/-- A leaf entry: the address space and the page number. -/
abbrev PteKey := ℕ × ℕ

/-- Physical memory and the address spaces. -/
structure Mmu where
  pmm : Pmm
  mem : ℕ → Page
  tables : TableKey → Bool
  ptes : PteKey → Option Pte

/-- The page number of a virtual address, as the four table indices have it. -/
def pageNumber (virt : ℕ) : ℕ := virt / pageSize % 2 ^ 36

/-- The entry of a virtual address. -/
def pteKey (cr3 virt : ℕ) : PteKey := (cr3, pageNumber virt)

/-- The upper table of a virtual address at a level: 1 is the page directory pointer table,
2 the page directory, 3 the page table. -/
def tableKey (cr3 virt level : ℕ) : TableKey := (cr3, level, pageNumber virt / 2 ^ (9 * (4 - level)))

variable (m : Mmu)

def vmmGetPte (cr3 virt : ℕ) : Option Pte := m.ptes (pteKey cr3 virt)

/-- The leaf entry is stored. -/
def Mmu.setPte (key : PteKey) (pte : Option Pte) : Mmu :=
  { m with ptes := Function.update m.ptes key pte }

/-- The contents of a frame are stored. -/
def Mmu.setPage (frame : ℕ) (page : Page) : Mmu :=
  { m with mem := Function.update m.mem frame page }

def vmmUnmapPageByCr3 (cr3 virt : ℕ) : Mmu := m.setPte (pteKey cr3 virt) none

/-- `vmm_protect_page_by_cr3` on an entry that is not present changes nothing. The mask keeps
the upper bits of the entry, the no-execute bit among them. -/
def vmmProtectPageByCr3 (cr3 virt : ℕ) (newFlags : PteFlags) : Mmu :=
  match vmmGetPte m cr3 virt with
  | none => m
  | some pte =>
    m.setPte (pteKey cr3 virt) (some { pte with flags := { newFlags with nx := pte.flags.nx } })

/-- One level of `vmm_map_page_by_cr3`: a missing table is allocated and cleared. -/
def ensureTable (key : TableKey) : Bool × Mmu :=
  if m.tables key then (true, m) else
  let (page, pmm) := pmmAllocPage m.pmm
  if page = 0 then (false, { m with pmm := pmm }) else
  (true, { { m with pmm := pmm }.setPage (page / pageSize) (fun _ => 0) with
    tables := Function.update m.tables key true })

def vmmMapPageByCr3 (cr3 virt phys : ℕ) (flags : PteFlags) : Bool × Mmu :=
  let (ok, m) := ensureTable m (tableKey cr3 virt 1)
  if !ok then (false, m) else
  let (ok, m) := ensureTable m (tableKey cr3 virt 2)
  if !ok then (false, m) else
  let (ok, m) := ensureTable m (tableKey cr3 virt 3)
  if !ok then (false, m) else
  (true, m.setPte (pteKey cr3 virt) (some ⟨phys, flags⟩))

/-- `VMM_USER_SEARCH_BOTTOM` and `VMM_USER_SEARCH_TOP`. -/
def userSearchBottom : ℕ := 0x0000100000000000
def userSearchTop : ℕ := 0x0000500000000000

/-- The search of `vmm_reserve_va_by_cr3` from `cur` on: after a page that is mapped it goes
on behind that page. The fuel is a bound for the pages of an address space. -/
def reserveFrom (m : Mmu) (cr3 npages stop : ℕ) : ℕ → ℕ → ℕ
  | 0, _ => 0
  | fuel + 1, cur =>
    if cur ≤ stop then
      match (List.range npages).find? fun p => (vmmGetPte m cr3 (cur + p * pageSize)).isSome with
      | none => cur
      | some p => reserveFrom m cr3 npages stop fuel (cur + p * pageSize + pageSize)
    else 0

/-- `vmm_reserve_va_by_cr3`: an address whose pages are not mapped, or 0. -/
def vmmReserveVaByCr3 (cr3 len : ℕ) : ℕ :=
  if len = 0 ∨ len % pageSize ≠ 0 then 0
  else reserveFrom m cr3 (len / pageSize) ((userSearchTop + 2 ^ 64 - len) % 2 ^ 64) (2 ^ 52)
    userSearchBottom

@[simp] theorem ptes_setPte (key : PteKey) (pte : Option Pte) :
    (m.setPte key pte).ptes = update m.ptes key pte := rfl

/-- Nothing changes but that free frames were taken for tables: frames in use keep their
count and contents, and every leaf entry is as before. -/
structure Grown (m m' : Mmu) : Prop where
  keeps : Keeps m.pmm m'.pmm
  mem : ∀ f, m.pmm.used f → m'.mem f = m.mem f
  ptes : m'.ptes = m.ptes
  tables : ∀ key, m.tables key → m'.tables key

theorem Grown.refl : Grown m m :=
  ⟨Keeps.refl _, fun _ _ => rfl, rfl, fun _ h => h⟩

theorem Grown.trans {m₁ m₂ m₃ : Mmu} (h : Grown m₁ m₂) (h' : Grown m₂ m₃) : Grown m₁ m₃ where
  keeps := h.keeps.trans h'.keeps
  mem := fun f hf => (h'.mem f (h.keeps.used f hf)).trans (h.mem f hf)
  ptes := h'.ptes.trans h.ptes
  tables := fun key hkey => h'.tables key (h.tables key hkey)

lemma ensureTable_spec (key : TableKey) :
    Grown m (ensureTable m key).2 ∧
      ((ensureTable m key).1 → (ensureTable m key).2.tables key) := by
  rw [ensureTable]
  split_ifs with htable
  · exact ⟨Grown.refl m, fun _ => htable⟩
  have hspec := pmmAllocPage_spec m.pmm
  generalize pmmAllocPage m.pmm = r at hspec ⊢
  obtain ⟨page, pmm⟩ := r
  dsimp only at hspec ⊢
  split_ifs with hpage
  · exact ⟨⟨hspec.keeps, fun _ _ => rfl, rfl, fun _ h => h⟩, by simp⟩
  refine ⟨⟨hspec.keeps, fun f hf => ?_, rfl, fun k hk => ?_⟩, fun _ => ?_⟩
  · -- the frame of the table was free
    have hfree := (hspec.granted hpage _ le_rfl (Nat.lt_succ_self _)).2.1
    have hne : f ≠ page / pageSize := by
      rintro rfl
      rw [hfree] at hf
      cases hf
    exact update_of_ne hne ..
  · by_cases hkey : k = key
    · simp [hkey]
    · simpa [update_of_ne hkey] using hk
  · simp

variable {m : Mmu} {cr3 p : ℕ}

lemma ensureTable_of_table {key : TableKey} (h : m.tables key) :
    ensureTable m key = (true, m) := if_pos h

/-- The upper tables of the address exist. -/
def HasTables (m : Mmu) (cr3 virt : ℕ) : Prop :=
  m.tables (tableKey cr3 virt 1) ∧ m.tables (tableKey cr3 virt 2) ∧ m.tables (tableKey cr3 virt 3)

lemma HasTables.mono {m' : Mmu} {virt : ℕ} (h : HasTables m cr3 virt)
    (hle : ∀ key, m.tables key → m'.tables key) : HasTables m' cr3 virt :=
  ⟨hle _ h.1, hle _ h.2.1, hle _ h.2.2⟩

/-- `vmm_map_page_by_cr3` adds tables, and then stores the entry unless a table could not be
allocated. -/
theorem vmmMapPageByCr3_cases (m : Mmu) (cr3 virt phys : ℕ) (flags : PteFlags) :
    ∃ m₁, Grown m m₁ ∧
      (vmmMapPageByCr3 m cr3 virt phys flags = (false, m₁) ∨
        vmmMapPageByCr3 m cr3 virt phys flags =
          (true, m₁.setPte (pteKey cr3 virt) (some ⟨phys, flags⟩)) ∧ HasTables m₁ cr3 virt) := by
  rw [vmmMapPageByCr3]
  obtain ⟨hg₁, ht₁⟩ := ensureTable_spec m (tableKey cr3 virt 1)
  generalize ensureTable m (tableKey cr3 virt 1) = r₁ at hg₁ ht₁ ⊢
  obtain ⟨ok₁, m₁⟩ := r₁
  dsimp only at hg₁ ht₁ ⊢
  cases ok₁ with
  | false => exact ⟨m₁, hg₁, .inl rfl⟩
  | true =>
  obtain ⟨hg₂, ht₂⟩ := ensureTable_spec m₁ (tableKey cr3 virt 2)
  generalize ensureTable m₁ (tableKey cr3 virt 2) = r₂ at hg₂ ht₂ ⊢
  obtain ⟨ok₂, m₂⟩ := r₂
  dsimp only at hg₂ ht₂ ⊢
  cases ok₂ with
  | false => exact ⟨m₂, hg₁.trans hg₂, .inl rfl⟩
  | true =>
  obtain ⟨hg₃, ht₃⟩ := ensureTable_spec m₂ (tableKey cr3 virt 3)
  generalize ensureTable m₂ (tableKey cr3 virt 3) = r₃ at hg₃ ht₃ ⊢
  obtain ⟨ok₃, m₃⟩ := r₃
  dsimp only at hg₃ ht₃ ⊢
  cases ok₃ with
  | false => exact ⟨m₃, (hg₁.trans hg₂).trans hg₃, .inl rfl⟩
  | true =>
    refine ⟨m₃, (hg₁.trans hg₂).trans hg₃, .inr ⟨rfl, ?_, ?_, ht₃ rfl⟩⟩
    · exact hg₃.tables _ (hg₂.tables _ (ht₁ rfl))
    · exact hg₃.tables _ (ht₂ rfl)

/-- With all tables there, the entry is stored. -/
theorem vmmMapPageByCr3_of_tables {virt : ℕ} (h : HasTables m cr3 virt) (phys : ℕ)
    (flags : PteFlags) :
    vmmMapPageByCr3 m cr3 virt phys flags =
      (true, m.setPte (pteKey cr3 virt) (some ⟨phys, flags⟩)) := by
  simp [vmmMapPageByCr3, ensureTable_of_table h.1, ensureTable_of_table h.2.1,
    ensureTable_of_table h.2.2]

lemma reserveFrom_spec {npages stop fuel cur : ℕ} (h : reserveFrom m cr3 npages stop fuel cur ≠ 0)
    (hp : p < npages) :
    vmmGetPte m cr3 (reserveFrom m cr3 npages stop fuel cur + p * pageSize) = none := by
  induction fuel generalizing cur with
  | zero => exact absurd rfl h
  | succ fuel ih =>
  rw [reserveFrom] at h ⊢
  by_cases hcur : cur ≤ stop
  · rw [if_pos hcur] at h ⊢
    cases hfind : (List.range npages).find? fun p =>
        (vmmGetPte m cr3 (cur + p * pageSize)).isSome with
    | none =>
      have hnone := List.find?_eq_none.mp hfind p (List.mem_range.mpr hp)
      simpa using hnone
    | some q =>
      rw [hfind] at h
      exact ih h
  · rw [if_neg hcur] at h
    exact absurd rfl h

theorem vmmReserveVaByCr3_spec {len : ℕ} (h : vmmReserveVaByCr3 m cr3 len ≠ 0)
    (hp : p < len / pageSize) :
    vmmGetPte m cr3 (vmmReserveVaByCr3 m cr3 len + p * pageSize) = none := by
  rw [vmmReserveVaByCr3] at h ⊢
  split_ifs at h ⊢ with hlen
  · exact absurd rfl h
  · exact reserveFrom_spec h hp

lemma reserveFrom_aligned {npages stop fuel cur : ℕ} (h : cur % pageSize = 0) :
    reserveFrom m cr3 npages stop fuel cur % pageSize = 0 := by
  induction fuel generalizing cur with
  | zero => rfl
  | succ fuel ih =>
    rw [reserveFrom]
    split_ifs
    · split
      · exact h
      · apply ih
        rw [Nat.add_mod_right, Nat.add_mul_mod_self_right, h]
    · rfl

/-- A reserved address is the address of a page. -/
theorem vmmReserveVaByCr3_aligned (m : Mmu) (cr3 len : ℕ) :
    vmmReserveVaByCr3 m cr3 len % pageSize = 0 := by
  rw [vmmReserveVaByCr3]
  split_ifs
  · rfl
  · exact reserveFrom_aligned (by decide)

end GrahaOS.PageTables
