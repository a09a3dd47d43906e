import GrahaOS.VmObjects

/-!
# What the operations on virtual memory objects do

One description for each function of `VmObjects`, in terms of the frames that get or lose a
reference and of the page-table entries that change: `mapLoop_spec` for `vmo_map`, `Cleared` for
`vmo_unmap` and the release of an object, `Demoted` for write protection, `Allocated` for
`vmo_create`.
-/

namespace GrahaOS.VmObjects

open PageFrames PageTables Function List

/-- The address space of a task. -/
def cr3Of (w : VmoWorld) (pid : ℕ) : Option ℕ := (w.tasks pid).map Task.cr3

variable {w w' w₀ w'' : VmoWorld} {pages : List ℕ} {mk mk' : ℕ × ℕ} {m : Mapping} {pmm : Pmm}

theorem slot_congr (h : w'.vmos = w.vmos) (v i : ℕ) : w'.slot v i = w.slot v i := by
  rw [VmoWorld.slot, VmoWorld.slot, h]

variable (w)

theorem vmos_setVmo_self (v : ℕ) (o : Option Vmo) : (w.setVmo v o).vmos v = o :=
  update_self ..

theorem vmos_setVmo_of_ne {v u : ℕ} (h : u ≠ v) (o : Option Vmo) :
    (w.setVmo v o).vmos u = w.vmos u := update_of_ne h ..

variable {w}

lemma vmos_setVmo_cases {v u : ℕ} {o : Option Vmo} {x : Vmo} (h : (w.setVmo v o).vmos u = some x) :
    u = v ∧ o = some x ∨ u ≠ v ∧ w.vmos u = some x := by
  by_cases hu : u = v
  · subst hu
    rw [vmos_setVmo_self] at h
    exact .inl ⟨rfl, h⟩
  · rw [vmos_setVmo_of_ne w hu] at h
    exact .inr ⟨hu, h⟩

variable (w)

theorem maps_setMap_self (mk : ℕ × ℕ) (x : Option Mapping) :
    (w.setMap mk x).maps mk = x := update_self ..

theorem maps_setMap_of_ne (h : mk' ≠ mk) (x : Option Mapping) :
    (w.setMap mk x).maps mk' = w.maps mk' := update_of_ne h ..

variable {w}

lemma maps_setMap_cases {x : Option Mapping} (h : (w.setMap mk x).maps mk' = some m) :
    mk' = mk ∧ x = some m ∨ mk' ≠ mk ∧ w.maps mk' = some m := by
  by_cases hmk : mk' = mk
  · rw [hmk, maps_setMap_self] at h
    exact .inl ⟨hmk, h⟩
  · rw [maps_setMap_of_ne w hmk] at h
    exact .inr ⟨hmk, h⟩

lemma maps_setMap_none : (w.setMap mk none).maps mk' = some m ↔ mk' ≠ mk ∧ w.maps mk' = some m := by
  by_cases hmk : mk' = mk
  · simp [hmk, maps_setMap_self]
  · simp [hmk, maps_setMap_of_ne]

lemma cr3Of_setTask {pid : ℕ} {t t' : Task} (h : w.tasks pid = some t) (hcr3 : t'.cr3 = t.cr3)
    (q : ℕ) : cr3Of (w.setTask pid t') q = cr3Of w q := by
  by_cases hq : q = pid
  · subst hq
    simp [cr3Of, VmoWorld.setTask, h, hcr3]
  · simp [cr3Of, VmoWorld.setTask, update_of_ne hq]

/-- Only the page accounting of tasks differs. -/
structure SameButUsage (w w' : VmoWorld) : Prop where
  mmu : w'.mmu = w.mmu
  vmos : w'.vmos = w.vmos
  maps : w'.maps = w.maps
  nextId : w'.nextId = w.nextId
  cr3 : ∀ pid, cr3Of w' pid = cr3Of w pid

variable (w)

theorem SameButUsage.refl : SameButUsage w w := ⟨rfl, rfl, rfl, rfl, fun _ => rfl⟩

theorem rlimitAccountFreeMem_spec (pid : ℕ) : SameButUsage w (rlimitAccountFreeMem w pid) := by
  rw [rlimitAccountFreeMem]
  cases ht : w.tasks pid with
  | none => exact SameButUsage.refl w
  | some t => exact ⟨rfl, rfl, rfl, rfl, cr3Of_setTask ht rfl⟩

theorem rlimitCheckMem_spec (pid : ℕ) : SameButUsage w (rlimitCheckMem w pid).2 := by
  rw [rlimitCheckMem]
  cases ht : w.tasks pid with
  | none => exact SameButUsage.refl w
  | some t =>
    dsimp only
    split_ifs
    · exact SameButUsage.refl w
    · exact SameButUsage.refl w
    · exact ⟨rfl, rfl, rfl, rfl, cr3Of_setTask ht rfl⟩

variable {w}

namespace MapArgs

/-- The entry of a page of the range. -/
def key (a : MapArgs) (p : ℕ) : PteKey := pteKey a.cr3 (a.virt p)

/-- The frame of a page of the range. -/
def frame (a : MapArgs) (w : VmoWorld) (p : ℕ) : ℕ :=
  w.slot a.vmo (a.startPage + p) / pageSize

/-- What is stored in the entry of a page of the range. -/
def entry (a : MapArgs) (w : VmoWorld) (p : ℕ) : Pte :=
  ⟨w.slot a.vmo (a.startPage + p), a.pteFlags⟩

end MapArgs

/-- The address at which a call of `vmo_map` maps. -/
def mapAddr (w : VmoWorld) (t : Task) (addrHint len : ℕ) : ℕ :=
  if addrHint ≠ 0 then addrHint else vmmReserveVaByCr3 w.mmu t.cr3 len

/-- What the loop of a call of `vmo_map` works with. -/
def mapArgs (w : VmoWorld) (o : Vmo) (t : Task) (v pid addrHint offset len : ℕ) (prot : Prot) :
    MapArgs :=
  ⟨v, o.flags, pid, t.cr3, mapAddr w t addrHint len, offset / pageSize, len / pageSize,
    mapPteFlags o.flags prot⟩

/-- Pages less than an address space apart have different entries. -/
theorem pteKey_injOn {cr3 vaddr i j : ℕ} (hi : i < 2 ^ 36) (hj : j < 2 ^ 36)
    (h : pteKey cr3 (vaddr + i * pageSize) = pteKey cr3 (vaddr + j * pageSize)) : i = j := by
  have hdiv : ∀ k, (vaddr + k * pageSize) / pageSize = vaddr / pageSize + k := fun k =>
    Nat.add_mul_div_right _ _ (by decide)
  simp only [pteKey, pageNumber, Prod.mk.injEq, true_and, hdiv] at h
  omega

/-- The frame is allocated and has a reference. -/
def InUse (p : Pmm) (f : ℕ) : Prop := f < p.totalPages ∧ p.used f ∧ 0 < p.refcounts f

/-- The range can be mapped: its page slots are populated, their frames are in use and can
take the references, and its entries are free. -/
structure Mappable (a : MapArgs) (w : VmoWorld) : Prop where
  mmio : a.flags.mmio = false
  short : a.npages ≤ 2 ^ 36
  populated : ∀ j < a.npages, w.slot a.vmo (a.startPage + j) ≠ 0
  inUse : ∀ j < a.npages, InUse w.mmu.pmm (a.frame w j)
  room : ∀ f, w.mmu.pmm.refcounts f + ((List.range a.npages).map (a.frame w)).count f ≤ 255
  unmapped : ∀ j < a.npages, w.mmu.ptes (a.key j) = none

/-- On the way through the range: references are taken for the pages from `r` to `p - 1`, and
those from `r` to `q - 1` have their entries. -/
structure Stage (a : MapArgs) (w : VmoWorld) (r p q : ℕ) (m : Mmu) : Prop where
  total : m.pmm.totalPages = w.mmu.pmm.totalPages
  used : ∀ f, w.mmu.pmm.used f → m.pmm.used f
  count : ∀ f, w.mmu.pmm.used f →
    m.pmm.refcounts f =
      w.mmu.pmm.refcounts f + ((List.range' r (p - r)).map (a.frame w)).count f
  mem : ∀ f, w.mmu.pmm.used f → m.mem f = w.mmu.mem f
  tables : ∀ key, w.mmu.tables key → m.tables key
  inside : ∀ j, r ≤ j → j < q → m.ptes (a.key j) = some (a.entry w j)
  outside : ∀ key, (∀ j, r ≤ j → j < q → key ≠ a.key j) → m.ptes key = w.mmu.ptes key
  ready : ∀ j, r ≤ j → j < q → HasTables m a.cr3 (a.virt j)

section MapLoop

variable {a : MapArgs} {w : VmoWorld} {m m' : Mmu} {r p q : ℕ}

lemma Mappable.key_ne (h : Mappable a w) {i j : ℕ} (hi : i < a.npages) (hj : j < a.npages)
    (hne : i ≠ j) : a.key i ≠ a.key j := by
  have hshort := h.short
  exact fun heq => hne (pteKey_injOn (by omega) (by omega) heq)

lemma Stage.start (a : MapArgs) (w : VmoWorld) : Stage a w 0 0 0 w.mmu where
  total := rfl
  used := fun _ h => h
  count := fun _ _ => by simp
  mem := fun _ _ => rfl
  tables := fun _ h => h
  inside := fun j _ hj => absurd hj (Nat.not_lt_zero j)
  outside := fun _ _ => rfl
  ready := fun j _ hj => absurd hj (Nat.not_lt_zero j)

lemma Stage.grown (h : Stage a w r p q m) (hg : Grown m m') : Stage a w r p q m' where
  total := hg.keeps.total.trans h.total
  used := fun f hf => hg.keeps.used f (h.used f hf)
  count := fun f hf => (hg.keeps.refcounts f (h.used f hf)).trans (h.count f hf)
  mem := fun f hf => (hg.mem f (h.used f hf)).trans (h.mem f hf)
  tables := fun key hkey => hg.tables key (h.tables key hkey)
  inside := fun j hr hq => by rw [hg.ptes, h.inside j hr hq]
  outside := fun key hkey => by rw [hg.ptes, h.outside key hkey]
  ready := fun j hr hq => (h.ready j hr hq).mono hg.tables

variable (hr : Mappable a w)
include hr

lemma Stage.ref (h : Stage a w 0 p q m) (hp : p < a.npages) : Stage a w 0 (p + 1) q
      { m with pmm := pmmPageRef m.pmm (w.slot a.vmo (a.startPage + p)) } := by
  have hslot := hr.populated p hp
  obtain ⟨hlt, hused, -⟩ := hr.inUse p hp
  have hlist : (List.range' 0 (p + 1 - 0)).map (a.frame w) =
      (List.range' 0 (p - 0)).map (a.frame w) ++ [a.frame w p] := by
    rw [Nat.sub_zero, Nat.sub_zero, List.range'_1_concat, map_append]
    simp
  have hle : ∀ f, ((List.range' 0 (p + 1 - 0)).map (a.frame w)).count f ≤
      ((List.range a.npages).map (a.frame w)).count f := by
    intro f
    rw [range_eq_range', Nat.sub_zero]
    apply List.Sublist.count_le
    exact (List.range'_sublist_right.mpr hp).map _
  refine { h with total := ?_, used := ?_, count := ?_ }
  · exact (totalPages_pmmPageRef ..).trans h.total
  · intro f hf
    rw [used_pmmPageRef]
    exact h.used f hf
  intro f hf
  have hroom := hr.room f
  have hle := hle f
  rw [refcounts_pmmPageRef _ hslot, h.count f hf, hlist, count_append]
  rw [hlist, count_append] at hle
  by_cases hfp : f = a.frame w p
  · have hone : [a.frame w p].count f = 1 := by simp [hfp]
    rw [hone] at hle ⊢
    rw [if_pos ⟨hfp, by rw [h.total, hfp]; exact hlt, h.used f hf, by omega⟩]
    omega
  · have hzero : [a.frame w p].count f = 0 := count_eq_zero.mpr (by simpa using hfp)
    rw [hzero, if_neg (fun hc => hfp hc.1)]
    omega

lemma Stage.install (h : Stage a w 0 (p + 1) p m) (hp : p < a.npages)
    (ht : HasTables m a.cr3 (a.virt p)) :
    Stage a w 0 (p + 1) (p + 1) (m.setPte (a.key p) (some (a.entry w p))) := by
  refine { h with inside := ?_, outside := ?_, ready := ?_ }
  · intro j _ hj
    rw [ptes_setPte]
    by_cases hjp : j = p
    · rw [hjp, update_self]
    · rw [update_of_ne (hr.key_ne (by omega) hp hjp)]
      exact h.inside j (Nat.zero_le j) (by omega)
  · intro key hkey
    rw [ptes_setPte, update_of_ne (hkey p (Nat.zero_le p) (Nat.lt_succ_self p))]
    exact h.outside key fun j hj hjp => hkey j hj (by omega)
  · intro j hj hjp
    by_cases heq : j = p
    · rw [heq]
      exact ht
    · exact h.ready j hj (by omega)

/-- The first page that is still mapped is rolled back. -/
lemma Stage.undo (h : Stage a w r p q m) (hrp : r < p) (hqp : q ≤ p) (hp : p ≤ a.npages) :
    Stage a w (r + 1) p q
      { m.setPte (a.key r) none with
        pmm := pmmFreePage m.pmm (w.slot a.vmo (a.startPage + r)) } := by
  have hrn : r < a.npages := by omega
  have hdrops := pmmFreePage_drops m.pmm (hr.populated r hrn)
  obtain ⟨hlt, hused, hpos⟩ := hr.inUse r hrn
  have hlist : (List.range' r (p - r)).map (a.frame w) =
      a.frame w r :: (List.range' (r + 1) (p - (r + 1))).map (a.frame w) := by
    rw [show p - r = p - (r + 1) + 1 by omega, List.range'_succ, map_cons]
  -- the count of the frame was positive before its reference was taken
  have hcount : ∀ f, w.mmu.pmm.used f → m.pmm.refcounts f =
      w.mmu.pmm.refcounts f + (if f = a.frame w r then 1 else 0) +
        ((List.range' (r + 1) (p - (r + 1))).map (a.frame w)).count f := by
    intro f hf
    rw [h.count f hf, hlist, count_cons]
    simp only [beq_iff_eq, eq_comm (a := a.frame w r)]
    omega
  refine { h with total := ?_, used := ?_, count := ?_, inside := ?_, outside := ?_, ready := ?_ }
  · exact hdrops.total.trans h.total
  · intro f hf
    simp only [hdrops.used, mem_singleton]
    rw [if_neg]
    · exact h.used f hf
    · rintro ⟨rfl, -, hzero⟩
      have := hcount _ hf
      simp only [MapArgs.frame, if_true] at this hpos
      omega
  · intro f hf
    simp only [hdrops.refcounts, mem_singleton]
    have := hcount f hf
    by_cases hfr : f = a.frame w r
    · rw [if_pos ⟨hfr, by rw [h.total, hfr]; exact hlt, h.used f hf⟩]
      rw [if_pos hfr] at this
      omega
    · rw [if_neg (fun hc => hfr hc.1)]
      rw [if_neg hfr] at this
      omega
  · intro j hj hjq
    rw [ptes_setPte, update_of_ne (hr.key_ne (by omega) hrn (by omega))]
    exact h.inside j (by omega) hjq
  · intro key hkey
    rw [ptes_setPte]
    by_cases hkr : key = a.key r
    · rw [hkr, update_self, hr.unmapped r hrn]
    rw [update_of_ne hkr]
    refine h.outside key fun j hj hjq => ?_
    by_cases hjr : j = r
    · exact hjr ▸ hkr
    · exact hkey j (by omega) hjq
  · exact fun j hj hjq => h.ready j (by omega) hjq

/-- The rollback of the pages from `r` on, `k` of them. -/
lemma rollback_stage (k : ℕ) :
    ∀ {r : ℕ} {m : Mmu}, Stage a w r (r + k) q m → q ≤ r + k → r + k ≤ a.npages →
    ∃ m', (List.range' r k).foldl (fun (w : VmoWorld) j =>
        (w.unmapPage a.cr3 (a.virt j)).pageUnref
          ((w.unmapPage a.cr3 (a.virt j)).slot a.vmo (a.startPage + j))) { w with mmu := m } =
        { w with mmu := m' } ∧ Stage a w (r + k) (r + k) q m' := by
  induction k with
  | zero => exact fun h _ _ => ⟨_, rfl, h⟩
  | succ k ih =>
    intro r m h hq hn
    have hundo := h.undo hr (by omega) hq hn
    rw [show r + (k + 1) = r + 1 + k by omega] at hundo hq hn ⊢
    obtain ⟨m', hfold, hstage⟩ := ih hundo hq hn
    exact ⟨m', hfold, hstage⟩

omit hr

/-- A range that is rolled back to its end leaves nothing but upper tables. -/
lemma Stage.toGrown (h : Stage a w p p q m) (hq : q ≤ p) : Grown w.mmu m := { h with
  keeps := by
    refine ⟨h.total, h.used, fun f hf => ?_⟩
    rw [h.count f hf, Nat.sub_self]
    simp
  ptes := by
    funext key
    exact h.outside key fun j hj hjq => by omega }

include hr

lemma rollback_spec (h : Stage a w 0 (p + 1) p m) (hp : p < a.npages) :
    ∃ m', rollback a true false (p + 1) { w with mmu := m } = { w with mmu := m' } ∧
      Grown w.mmu m' := by
  obtain ⟨m', hfold, hstage⟩ := rollback_stage hr (p + 1) (r := 0) (by simpa using h) (by omega)
    (by omega)
  refine ⟨m', ?_, hstage.toGrown (by omega)⟩
  rw [rollback, range_eq_range', ← hfold]
  rfl

/-- One page of the range: it is mapped, or everything is rolled back. -/
lemma mapOnePage_spec (h : Stage a w 0 p p m) (hp : p < a.npages) :
    (∃ m', mapOnePage a p { w with mmu := m } = .ok { w with mmu := m' } ∧
        Stage a w 0 (p + 1) (p + 1) m') ∨
      ∃ m', mapOnePage a p { w with mmu := m } = .error { w with mmu := m' } ∧
        Grown w.mmu m' := by
  have hslot : VmoWorld.slot { w with mmu := m } a.vmo (a.startPage + p) =
      w.slot a.vmo (a.startPage + p) := slot_congr rfl ..
  have hne := hr.populated p hp
  have href := h.ref hr hp
  obtain ⟨m₁, hg, hmap⟩ := vmmMapPageByCr3_cases
    { m with pmm := pmmPageRef m.pmm (w.slot a.vmo (a.startPage + p)) } a.cr3 (a.virt p)
    (w.slot a.vmo (a.startPage + p)) a.pteFlags
  have hstage := href.grown hg
  have hone : mapOnePage a p { w with mmu := m } =
      installPage a p (w.slot a.vmo (a.startPage + p)) true (p + 1)
        (VmoWorld.pageRef { w with mmu := m } (w.slot a.vmo (a.startPage + p))) := by
    rw [mapOnePage, hslot]
    simp [hr.mmio, hne]
  rw [hone]
  rcases hmap with hfail | ⟨hok, htables⟩
  · obtain ⟨m', hroll, hgrown⟩ := rollback_spec hr hstage hp
    refine .inr ⟨m', ?_, hgrown⟩
    simp only [installPage, VmoWorld.mapPage, VmoWorld.pageRef, VmoWorld.setPmm, hfail]
    rw [hroll]
  · refine .inl ⟨_, ?_, hstage.install hr hp htables⟩
    simp only [installPage, VmoWorld.mapPage, VmoWorld.pageRef, VmoWorld.setPmm, hok]
    rfl

/-- The loop of `vmo_map` over a range that can be mapped. -/
theorem mapLoop_spec : (∃ m, mapLoop a a.npages 0 w = .ok { w with mmu := m } ∧
        Stage a w 0 a.npages a.npages m) ∨
      ∃ m, mapLoop a a.npages 0 w = .error { w with mmu := m } ∧ Grown w.mmu m := by
  have hloop : ∀ left p m, Stage a w 0 p p m → p + left = a.npages →
      (∃ m', mapLoop a left p { w with mmu := m } = .ok { w with mmu := m' } ∧
        Stage a w 0 a.npages a.npages m') ∨
      ∃ m', mapLoop a left p { w with mmu := m } = .error { w with mmu := m' } ∧
        Grown w.mmu m' := by
    intro left
    induction left with
    | zero =>
      intro p m h hp
      rw [Nat.add_zero] at hp
      exact .inl ⟨m, rfl, hp ▸ h⟩
    | succ left ih =>
      intro p m h hp
      rw [mapLoop]
      rcases mapOnePage_spec hr h (by omega) with ⟨m', hone, hstage⟩ | ⟨m', hone, hgrown⟩
      · rw [hone]
        exact ih (p + 1) m' hstage (by omega)
      · rw [hone]
        exact .inr ⟨m', rfl, hgrown⟩
  exact hloop a.npages 0 w.mmu (Stage.start a w) (Nat.zero_add _)

end MapLoop

section MapCall

variable {w : VmoWorld} {v pid addrHint offset len : ℕ} {prot : Prot}

lemma vmoAllocMapSlot_spec {s : ℕ} (h : vmoAllocMapSlot w pid = some s) :
    (pid, s) ∈ mapKeys ∧ w.maps (pid, s) = none := by
  rw [vmoAllocMapSlot] at h
  split_ifs at h with hpid
  refine ⟨?_, by simpa using List.find?_some h⟩
  exact pair_mem_product.mpr ⟨mem_range.mpr hpid, mem_of_find?_eq_some h⟩

/-- The ways in which a call of `vmo_map` ends: the arguments are refused, or it is up to the
loop over the pages. -/
theorem vmoMap_cases (w : VmoWorld) (v pid addrHint offset len : ℕ) (prot : Prot) :
    vmoMap w v pid addrHint offset len prot = (0, w) ∨
      ∃ o t s a, w.vmos v = some o ∧ w.tasks pid = some t ∧ (pid, s) ∈ mapKeys ∧
        w.maps (pid, s) = none ∧ a = mapArgs w o t v pid addrHint offset len prot ∧
        (offset + len) % 2 ^ 64 ≤ o.sizeBytes ∧ a.vaddr ≠ 0 ∧
        ((∃ w', mapLoop a a.npages 0 w = .error w' ∧
            vmoMap w v pid addrHint offset len prot = (0, w')) ∨
          ∃ w', mapLoop a a.npages 0 w = .ok w' ∧
            vmoMap w v pid addrHint offset len prot = (a.vaddr, vmoRef
              (w'.setMap (pid, s) (some ⟨a.vaddr, v, offset, a.npages % 2 ^ 32, prot⟩)) v)) := by
  rw [vmoMap]
  cases hv : w.vmos v with
  | none => exact .inl rfl
  | some o =>
  cases ht : w.tasks pid with
  | none => exact .inl rfl
  | some t =>
  dsimp only
  by_cases halign : offset % pageSize ≠ 0 ∨ len % pageSize ≠ 0 ∨ len = 0
  · exact .inl (if_pos halign)
  rw [if_neg halign]
  by_cases hsize : o.sizeBytes < (offset + len) % 2 ^ 64
  · exact .inl (if_pos hsize)
  rw [if_neg hsize]
  by_cases hprot : !(prot.read || prot.write || prot.exec)
  · exact .inl (if_pos hprot)
  rw [if_neg hprot]
  cases hs : vmoAllocMapSlot w pid with
  | none => exact .inl rfl
  | some s =>
  obtain ⟨hkey, hfree⟩ := vmoAllocMapSlot_spec hs
  obtain ⟨a, ha⟩ : ∃ a, a = mapArgs w o t v pid addrHint offset len prot := ⟨_, rfl⟩
  have hargs : (⟨v, o.flags, pid, t.cr3, a.vaddr, offset / pageSize, a.npages,
      mapPteFlags o.flags prot⟩ : MapArgs) = a := by
    rw [ha]
    rfl
  have haddr : (if addrHint ≠ 0 then addrHint else vmmReserveVaByCr3 w.mmu t.cr3 len) =
      a.vaddr := by
    rw [ha]
    rfl
  have hn : len / pageSize = a.npages := by
    rw [ha]
    rfl
  dsimp only
  rw [haddr, hn, hargs]
  by_cases hzero : a.vaddr = 0
  · exact .inl (if_pos hzero)
  rw [if_neg hzero]
  refine .inr ⟨o, t, s, a, rfl, rfl, hkey, hfree, ha, not_lt.mp hsize, hzero, ?_⟩
  cases hloop : mapLoop a a.npages 0 w with
  | error w' => exact .inl ⟨w', rfl, rfl⟩
  | ok w' => exact .inr ⟨w', rfl, rfl⟩

/-- The mapping and the reference that a call of `vmo_map` leaves behind. -/
lemma vmoRef_setMap {o : Vmo} {x : Option Mapping} (hv : w.vmos v = some o)
    (hlt : o.refcount + 1 < 2 ^ 32) :
    vmoRef (w.setMap mk x) v =
      (w.setVmo v (some { o with refcount := o.refcount + 1 })).setMap mk x := by
  have hlive : (w.setMap mk x).vmos v = some o := hv
  rw [vmoRef, hlive]
  dsimp only
  rw [Nat.mod_eq_of_lt hlt]
  rfl

/-- The ways in which a call of `vmo_unmap` ends. -/
theorem vmoUnmap_cases (w : VmoWorld) (pid vaddr len : ℕ) :
    vmoUnmap w pid vaddr len = (false, w) ∨
      ∃ t s m, w.tasks pid = some t ∧ vmoFindMapSlot w pid vaddr = some s ∧
        w.maps (pid, s) = some m ∧ vmoUnmap w pid vaddr len =
          (true, vmoUnref (((List.range m.lenPages).foldl
            (unmapOnePage ((w.vmos m.vmo).any (·.flags.mmio)) pid t.cr3 m) w).setMap (pid, s) none)
              m.vmo) := by
  rw [vmoUnmap]
  cases ht : w.tasks pid with
  | none => exact .inl rfl
  | some t =>
  dsimp only
  by_cases hargs : vaddr = 0 ∨ vaddr % pageSize ≠ 0 ∨ len % pageSize ≠ 0
  · exact .inl (if_pos hargs)
  rw [if_neg hargs]
  cases hs : vmoFindMapSlot w pid vaddr with
  | none => exact .inl rfl
  | some s =>
  cases hm : w.maps (pid, s) with
  | none => exact .inl (by dsimp only; rw [hm])
  | some m =>
    dsimp only
    rw [hm]
    dsimp only
    by_cases hlen : m.lenPages * pageSize ≠ len
    · exact .inl (if_pos hlen)
    · rw [if_neg hlen]
      exact .inr ⟨t, s, m, rfl, rfl, hm, rfl⟩

end MapCall

/-- Some entries are cleared and some frames lose a reference; objects and mapping tables stay
as they are. -/
structure Cleared (keys : List PteKey) (frames : List ℕ) (w w' : VmoWorld) : Prop where
  vmos : w'.vmos = w.vmos
  maps : w'.maps = w.maps
  nextId : w'.nextId = w.nextId
  cr3 : ∀ pid, cr3Of w' pid = cr3Of w pid
  mem : w'.mmu.mem = w.mmu.mem
  tables : w'.mmu.tables = w.mmu.tables
  cleared : ∀ key ∈ keys, w'.mmu.ptes key = none
  other : ∀ key ∉ keys, w'.mmu.ptes key = w.mmu.ptes key
  released : Released w.mmu.pmm w'.mmu.pmm frames

theorem Cleared.refl (w : VmoWorld) : Cleared [] [] w w :=
  ⟨rfl, rfl, rfl, fun _ => rfl, rfl, rfl, fun _ h => absurd h not_mem_nil, fun _ _ => rfl,
    Released.nil _⟩

theorem Cleared.trans {keys keys' : List PteKey} {frames frames' : List ℕ}
    (h : Cleared keys frames w w') (h' : Cleared keys' frames' w' w'') :
    Cleared (keys ++ keys') (frames ++ frames') w w'' where
  vmos := h'.vmos.trans h.vmos
  maps := h'.maps.trans h.maps
  nextId := h'.nextId.trans h.nextId
  cr3 := fun pid => (h'.cr3 pid).trans (h.cr3 pid)
  mem := h'.mem.trans h.mem
  tables := h'.tables.trans h.tables
  cleared := fun key hkey => by
    by_cases hmem : key ∈ keys'
    · exact h'.cleared key hmem
    · rw [h'.other key hmem]
      exact h.cleared key ((mem_append.mp hkey).resolve_right hmem)
  other := fun key hkey => by
    rw [mem_append, not_or] at hkey
    rw [h'.other key hkey.2, h.other key hkey.1]
  released := h.released.trans h'.released

lemma pageUnref_cleared (w : VmoWorld) {phys : ℕ} (hphys : phys ≠ 0) :
    Cleared [] [phys / pageSize] w (w.pageUnref phys) where
  vmos := rfl
  maps := rfl
  nextId := rfl
  cr3 := fun _ => rfl
  mem := rfl
  tables := rfl
  cleared := fun _ h => absurd h not_mem_nil
  other := fun _ _ => rfl
  released := pmmFreePage_released _ hphys

lemma unmapPage_cleared (w : VmoWorld) (cr3 virt : ℕ) :
    Cleared [pteKey cr3 virt] [] w (w.unmapPage cr3 virt) where
  vmos := rfl
  maps := rfl
  nextId := rfl
  cr3 := fun _ => rfl
  mem := rfl
  tables := rfl
  cleared := fun key hkey => by
    rw [mem_singleton.mp hkey]
    exact update_self ..
  other := fun key hkey => update_of_ne (fun h => hkey (mem_singleton.mpr h)) ..
  released := Released.nil _

lemma SameButUsage.cleared (h : SameButUsage w w') : Cleared [] [] w w' := { h with
  mem := by rw [h.mmu]
  tables := by rw [h.mmu]
  cleared := fun _ hkey => absurd hkey not_mem_nil
  other := fun _ _ => by rw [h.mmu]
  released := by rw [h.mmu]; exact Released.nil _ }

namespace Mapping

/-- The entry of a page of a mapping. -/
def key (m : Mapping) (cr3 p : ℕ) : PteKey := pteKey cr3 (m.vaddr + p * pageSize)

/-- The page slot of a page of a mapping. -/
def slot (m : Mapping) (w : VmoWorld) (p : ℕ) : ℕ := w.slot m.vmo (m.offset / pageSize + p)

end Mapping

/-- The loop of `vmo_unmap` over pages that are populated. -/
lemma unmapLoop_cleared (pid cr3 : ℕ) (hslot : ∀ p ∈ pages, m.slot w p ≠ 0) :
    Cleared (pages.map (m.key cr3)) (pages.map fun p => m.slot w p / pageSize) w
      (pages.foldl (unmapOnePage false pid cr3 m) w) := by
  induction pages generalizing w with
  | nil => exact Cleared.refl w
  | cons p pages ih =>
  have hp := hslot p mem_cons_self
  have hone : Cleared [m.key cr3 p] [m.slot w p / pageSize] w
      (unmapOnePage false pid cr3 m w p) := by
    rw [unmapOnePage, if_pos ⟨hp, rfl⟩]
    exact ((unmapPage_cleared w ..).trans (pageUnref_cleared _ hp)).trans
      (rlimitAccountFreeMem_spec ..).cleared
  have hsame : ∀ q, m.slot (unmapOnePage false pid cr3 m w p) q = m.slot w q :=
    fun q => slot_congr hone.vmos ..
  have hrest := ih (fun q hq => by rw [hsame]; exact hslot q (mem_cons_of_mem _ hq))
  simp only [hsame] at hrest
  exact hone.trans hrest

/-- The frames that the page slots of an object hold. -/
def framesOf (pages : List ℕ) : List ℕ := (pages.filter (· ≠ 0)).map (· / pageSize)

lemma foldl_pageUnref_cleared (w : VmoWorld) (pages : List ℕ) :
    Cleared [] (framesOf pages) w (pages.foldl VmoWorld.pageUnref w) := by
  induction pages generalizing w with
  | nil => exact Cleared.refl w
  | cons page pages ih =>
  by_cases hpage : page = 0
  · have hnull : w.pageUnref page = w := by
      simp [VmoWorld.pageUnref, VmoWorld.setPmm, pmmFreePage, hpage]
    have hframes : framesOf (page :: pages) = framesOf pages := by simp [framesOf, hpage]
    rw [foldl_cons, hnull, hframes]
    exact ih w
  · have hframes : framesOf (page :: pages) = [page / pageSize] ++ framesOf pages := by
      simp [framesOf, hpage]
    rw [foldl_cons, hframes]
    exact (pageUnref_cleared w hpage).trans (ih _)

/-- The page array of a contiguous object: one run of frames from a nonzero address. -/
def Contiguous (pages : List ℕ) : Prop :=
  ∃ base ≠ 0, pages = (List.range pages.length).map fun p => base + p * pageSize

lemma framesOf_contiguous {base : ℕ} (hbase : base ≠ 0)
    (h : pages = (List.range pages.length).map fun p => base + p * pageSize) :
    framesOf pages = List.range' (base / pageSize) pages.length := by
  have hne : ∀ page ∈ pages, page ≠ 0 := by
    intro page hpage
    rw [h] at hpage
    obtain ⟨p, -, rfl⟩ := mem_map.mp hpage
    omega
  have hfilter : pages.filter (· ≠ 0) = pages :=
    filter_eq_self.mpr fun page hpage => by simpa using hne page hpage
  rw [framesOf, hfilter]
  conv_lhs => rw [h]
  rw [map_map, List.range'_eq_map_range]
  refine map_congr_left fun p _ => ?_
  exact Nat.add_mul_div_right _ _ (by decide)

lemma releasePages_cleared (w : VmoWorld) {o : Vmo} (hmmio : o.flags.mmio = false)
    (hrun : o.flags.contiguous → Contiguous o.pages) :
    Cleared [] (framesOf o.pages) w (releasePages w o) := by
  rw [releasePages, hmmio, if_neg Bool.false_ne_true]
  split_ifs with hcont
  · obtain ⟨base, hbase, hpages⟩ := hrun hcont
    rw [framesOf_contiguous hbase hpages]
    by_cases hlen : o.pages.length = 0
    · rw [hlen]
      have hfree : ∀ pages, pmmFreePages w.mmu.pmm pages 0 = w.mmu.pmm := fun pages => by
        simp [pmmFreePages]
      rw [hfree]
      exact Cleared.refl w
    · have hfirst : o.pages.getD 0 0 = base := by
        rw [hpages, getD_eq_getElem?_getD, getElem?_map, getElem?_range (Nat.pos_of_ne_zero hlen)]
        simp
      rw [hfirst]
      exact ⟨rfl, rfl, rfl, fun _ => rfl, rfl, rfl, fun _ h => absurd h not_mem_nil,
        fun _ _ => rfl, pmmFreePages_released _ hbase _⟩
  · exact foldl_pageUnref_cleared w o.pages

/-- The references of a clone on the frames of its source. -/
lemma foldl_pageRef (w : VmoWorld) (hpages : ∀ page ∈ pages, page ≠ 0) :
    ∃ pmm, pages.foldl VmoWorld.pageRef w = w.setPmm pmm ∧
      Referenced w.mmu.pmm pmm (pages.map (· / pageSize)) := by
  induction pages generalizing w with
  | nil => exact ⟨_, rfl, Referenced.nil _⟩
  | cons page pages ih =>
    obtain ⟨pmm, hfold, href⟩ := ih (w.pageRef page) (fun q hq => hpages q (mem_cons_of_mem _ hq))
    refine ⟨pmm, hfold, ?_⟩
    exact (pmmPageRef_referenced _ (hpages page mem_cons_self)).trans href

/-- Entries have been write-protected, those in `K` for sure; what they map is the same. -/
structure Demoted (K : PteKey → Prop) (m m' : Mmu) : Prop where
  pmm : m'.pmm = m.pmm
  mem : m'.mem = m.mem
  tables : m'.tables = m.tables
  phys : ∀ key, (m'.ptes key).map Pte.phys = (m.ptes key).map Pte.phys
  writable : ∀ key pte', m'.ptes key = some pte' → pte'.flags.writable →
    ∃ pte, m.ptes key = some pte ∧ pte.flags.writable
  protect : ∀ key pte', K key → m'.ptes key = some pte' → pte'.flags.writable = false

theorem Demoted.refl (m : Mmu) : Demoted (fun _ => False) m m :=
  ⟨rfl, rfl, rfl, fun _ => rfl, fun _ pte' h hw => ⟨pte', h, hw⟩, fun _ _ h => h.elim⟩

theorem Demoted.trans {K K' : PteKey → Prop} {m m' m'' : Mmu} (h : Demoted K m m')
    (h' : Demoted K' m' m'') : Demoted (fun key => K key ∨ K' key) m m'' where
  pmm := h'.pmm.trans h.pmm
  mem := h'.mem.trans h.mem
  tables := h'.tables.trans h.tables
  phys := fun key => (h'.phys key).trans (h.phys key)
  writable := fun key pte' hpte hw => by
    obtain ⟨pte, hpte, hw⟩ := h'.writable key pte' hpte hw
    exact h.writable key pte hpte hw
  protect := fun key pte' hK hpte => by
    rcases hK with hK | hK
    · by_contra hw
      obtain ⟨pte, hpte', hw'⟩ := h'.writable key pte' hpte (by simpa using hw)
      rw [h.protect key pte hK hpte'] at hw'
      cases hw'
    · exact h'.protect key pte' hK hpte

theorem Demoted.mono {K K' : PteKey → Prop} {m m' : Mmu} (h : Demoted K m m')
    (hK : ∀ key, K' key → K key) : Demoted K' m m' :=
  { h with protect := fun key pte' hkey hpte => h.protect key pte' (hK key hkey) hpte }

lemma vmmProtectPageByCr3_demoted (m : Mmu) (cr3 virt : ℕ) {flags : PteFlags}
    (hflags : flags.writable = false) :
    Demoted (fun key => key = pteKey cr3 virt) m (vmmProtectPageByCr3 m cr3 virt flags) := by
  rw [vmmProtectPageByCr3]
  cases hpte : vmmGetPte m cr3 virt with
  | none =>
    refine ⟨rfl, rfl, rfl, fun _ => rfl, fun _ pte' h hw => ⟨pte', h, hw⟩, ?_⟩
    rintro key pte' rfl h
    rw [vmmGetPte] at hpte
    rw [hpte] at h
    cases h
  | some pte =>
    rw [vmmGetPte] at hpte
    refine ⟨rfl, rfl, rfl, fun key => ?_, fun key pte' h hw => ?_, fun key pte' hkey h => ?_⟩
    · by_cases hkey : key = pteKey cr3 virt
      · simp [hkey, hpte]
      · simp [update_of_ne hkey]
    · by_cases hkey : key = pteKey cr3 virt
      · rw [hkey, ptes_setPte, update_self, Option.some.injEq] at h
        rw [← h] at hw
        simp [hflags] at hw
      · rw [ptes_setPte, update_of_ne hkey] at h
        exact ⟨pte', h, hw⟩
    · rw [hkey, ptes_setPte, update_self, Option.some.injEq] at h
      rw [← h]
      exact hflags

/-- A loop that protects one set of entries after the other. -/
lemma foldl_demoted {α : Type*} {K : α → PteKey → Prop} {f : VmoWorld → α → VmoWorld}
    (hf : ∀ x m₀, ∃ m₁, f { w with mmu := m₀ } x = { w with mmu := m₁ } ∧ Demoted (K x) m₀ m₁)
    (l : List α) (m₀ : Mmu) : ∃ mmu, l.foldl f { w with mmu := m₀ } = { w with mmu := mmu } ∧
      Demoted (fun key => ∃ x ∈ l, K x key) m₀ mmu := by
  induction l generalizing m₀ with
  | nil => exact ⟨m₀, rfl, (Demoted.refl _).mono (by simp)⟩
  | cons x l ih =>
  obtain ⟨m₁, hstep, hdem⟩ := hf x m₀
  obtain ⟨mmu, hfold, hrest⟩ := ih m₁
  refine ⟨mmu, ?_, (hdem.trans hrest).mono ?_⟩
  · rw [foldl_cons, hstep, hfold]
  · rintro key ⟨y, hy, hkey⟩
    rcases mem_cons.mp hy with rfl | hmem
    · exact .inl hkey
    · exact .inr ⟨y, hmem, hkey⟩

/-- The entries of the first pages of a mapping are write-protected. -/
lemma downgrade_demoted (cr3 : ℕ) (m : Mapping) (w : VmoWorld) :
    ∃ mmu, downgrade cr3 m w = { w with mmu := mmu } ∧
      Demoted (fun key => ∃ p < m.lenPages, key = m.key cr3 p) w.mmu mmu := by
  simp only [← mem_range]
  exact foldl_demoted (fun p m₀ => ⟨_, rfl, vmmProtectPageByCr3_demoted m₀ cr3 _ rfl⟩) _ w.mmu

/-- The entries of a mapping of an object, in the address space of its task. -/
def MappedAt (w : VmoWorld) (v : ℕ) (mk : ℕ × ℕ) (key : PteKey) : Prop :=
  ∃ m t, w.maps mk = some m ∧ w.tasks mk.1 = some t ∧ m.vmo = v ∧ t.cr3 ≠ 0 ∧
    ∃ p < m.lenPages, key = m.key t.cr3 p

lemma downgradeAll_of_unmapped {src : ℕ} (h : ∀ mk m, w.maps mk = some m → m.vmo ≠ src) :
    downgradeAll src w = w := by
  rw [downgradeAll]
  induction mapKeys with
  | nil => rfl
  | cons mk keys ih =>
  rw [foldl_cons]
  cases hm : w.maps mk with
  | none => exact ih
  | some m =>
    cases w.tasks mk.1 with
    | none => exact ih
    | some t =>
      dsimp only
      rw [if_neg (fun hc => h mk m hm hc.1)]
      exact ih

/-- The mappings of the source, in whatever task, are write-protected. -/
theorem downgradeAll_demoted (src : ℕ) (w : VmoWorld) :
    ∃ mmu, downgradeAll src w = { w with mmu := mmu } ∧
      Demoted (fun key => ∃ mk ∈ mapKeys, MappedAt w src mk key) w.mmu mmu := by
  -- the tables of mappings and tasks are those of `w` all along
  refine foldl_demoted (fun mk m₀ => ?_) mapKeys w.mmu
  cases hm : w.maps mk with
  | none =>
    refine ⟨m₀, rfl, (Demoted.refl _).mono ?_⟩
    rintro key ⟨m, t, h, -⟩
    rw [hm] at h
    cases h
  | some m =>
    cases ht : w.tasks mk.1 with
    | none =>
      refine ⟨m₀, rfl, (Demoted.refl _).mono ?_⟩
      rintro key ⟨m, t, -, h, -⟩
      rw [ht] at h
      cases h
    | some t =>
      dsimp only
      split_ifs with hsrc
      · obtain ⟨m₁, hdown, hdem⟩ := downgrade_demoted t.cr3 m { w with mmu := m₀ }
        refine ⟨m₁, hdown, hdem.mono ?_⟩
        rintro key ⟨m', t', hm', ht', -, -, hp⟩
        obtain rfl : m = m' := Option.mem_unique hm hm'
        obtain rfl : t = t' := Option.mem_unique ht ht'
        exact hp
      · refine ⟨m₀, rfl, (Demoted.refl _).mono ?_⟩
        rintro key ⟨m', t', hm', ht', hv, hcr3, -⟩
        obtain rfl : m = m' := Option.mem_unique hm hm'
        obtain rfl : t = t' := Option.mem_unique ht ht'
        exact hsrc ⟨hv, hcr3⟩

/-- Free frames have been taken: frames in use are as before, and the entries are the same. -/
structure Taken (w w' : VmoWorld) : Prop where
  grown : Grown w.mmu w'.mmu
  vmos : w'.vmos = w.vmos
  maps : w'.maps = w.maps
  nextId : w'.nextId = w.nextId
  cr3 : ∀ pid, cr3Of w' pid = cr3Of w pid

theorem Taken.refl (w : VmoWorld) : Taken w w := ⟨Grown.refl _, rfl, rfl, rfl, fun _ => rfl⟩

theorem Taken.trans (h : Taken w w') (h' : Taken w' w'') : Taken w w'' where
  grown := h.grown.trans h'.grown
  vmos := h'.vmos.trans h.vmos
  maps := h'.maps.trans h.maps
  nextId := h'.nextId.trans h.nextId
  cr3 := fun pid => (h'.cr3 pid).trans (h.cr3 pid)

/-- The pages of a new object: distinct frames that were free, each with one reference. -/
structure Allocated (w w' : VmoWorld) (pages : List ℕ) : Prop where
  nonzero : ∀ page ∈ pages, page ≠ 0
  nodup : (pages.map (· / pageSize)).Nodup
  free : ∀ page ∈ pages, w.mmu.pmm.used (page / pageSize) = false
  granted : ∀ page ∈ pages, page / pageSize < w'.mmu.pmm.totalPages ∧
    w'.mmu.pmm.used (page / pageSize) ∧ w'.mmu.pmm.refcounts (page / pageSize) = 1

lemma Taken.clearIf (h : Taken w w') (zeroed : Bool) {page : ℕ}
    (hfree : w.mmu.pmm.used (page / pageSize) = false) : Taken w (w'.clearIf zeroed page) := by
  rw [VmoWorld.clearIf]
  split_ifs
  · refine { h with grown := { h.grown with mem := fun f hf => ?_ } }
    have hne : f ≠ page / pageSize := by
      rintro rfl
      rw [hfree] at hf
      cases hf
    exact (update_of_ne hne ..).trans (h.grown.mem f hf)
  · exact h

lemma pmm_clearIf (w : VmoWorld) (zeroed : Bool) (page : ℕ) :
    (w.clearIf zeroed page).mmu.pmm = w.mmu.pmm := by
  rw [VmoWorld.clearIf]
  split_ifs <;> rfl

lemma taken_setPmm {num page : ℕ} (h : Grants w.mmu.pmm num page pmm) : Taken w (w.setPmm pmm) :=
  ⟨⟨h.keeps, fun _ _ => rfl, rfl, fun _ hkey => hkey⟩, rfl, rfl, rfl, fun _ => rfl⟩

/-- One more page is allocated, with its contents cleared or not. -/
lemma Allocated.snoc (ht : Taken w₀ w) (h : Allocated w₀ w pages) (hpage : w.allocPage.1 ≠ 0)
    (zeroed : Bool) :
    Taken w₀ (w.allocPage.2.clearIf zeroed w.allocPage.1) ∧
      Allocated w₀ (w.allocPage.2.clearIf zeroed w.allocPage.1) (pages ++ [w.allocPage.1]) := by
  have hg : Grants w.mmu.pmm 1 w.allocPage.1 w.allocPage.2.mmu.pmm := pmmAllocPage_spec w.mmu.pmm
  obtain ⟨hlt, hfree, hused, hone⟩ := hg.granted hpage _ le_rfl (Nat.lt_succ_self _)
  -- a frame of an earlier page is in use, so it is not the new one
  have hold : ∀ page ∈ pages, page / pageSize ≠ w.allocPage.1 / pageSize := by
    intro page hmem heq
    have := (h.granted page hmem).2.1
    rw [heq, hfree] at this
    cases this
  have hfree₀ : w₀.mmu.pmm.used (w.allocPage.1 / pageSize) = false := by
    by_contra hne
    have := ht.grown.keeps.used _ (by simpa using hne)
    rw [hfree] at this
    cases this
  refine ⟨(ht.trans (taken_setPmm hg)).clearIf zeroed hfree₀, ⟨?_, ?_, ?_, ?_⟩⟩
  · intro page hmem
    rcases mem_append.mp hmem with hmem | hmem
    · exact h.nonzero page hmem
    · rw [mem_singleton.mp hmem]
      exact hpage
  · rw [map_append, map_cons, map_nil, nodup_append]
    refine ⟨h.nodup, nodup_singleton _, fun f hf f' hf' heq => ?_⟩
    obtain ⟨page, hmem, rfl⟩ := mem_map.mp hf
    exact hold page hmem (heq.trans (mem_singleton.mp hf'))
  · intro page hmem
    rcases mem_append.mp hmem with hmem | hmem
    · exact h.free page hmem
    · rw [mem_singleton.mp hmem]
      exact hfree₀
  · intro page hmem
    rw [pmm_clearIf]
    rcases mem_append.mp hmem with hmem | hmem
    · obtain ⟨hlt', hused', hone'⟩ := h.granted page hmem
      rw [hg.keeps.total, hg.keeps.refcounts _ hused']
      exact ⟨hlt', hg.keeps.used _ hused', hone'⟩
    · rw [mem_singleton.mp hmem, hg.keeps.total]
      exact ⟨hlt, hused, hone⟩

lemma Allocated.nil (w : VmoWorld) : Allocated w w [] where
  nonzero := fun _ h => absurd h not_mem_nil
  nodup := nodup_nil
  free := fun _ h => absurd h not_mem_nil
  granted := fun _ h => absurd h not_mem_nil

lemma Taken.released {frames : List ℕ} (ht : Taken w₀ w) (hc : Cleared [] frames w w')
    (hfree : ∀ f ∈ frames, w₀.mmu.pmm.used f = false) : Taken w₀ w' := by
  have hout : ∀ f, w₀.mmu.pmm.used f → f ∉ frames := by
    intro f hf hmem
    rw [hfree f hmem] at hf
    cases hf
  refine ⟨⟨⟨?_, fun f hf => ?_, fun f hf => ?_⟩, fun f hf => ?_, ?_, fun key hkey => ?_⟩, ?_, ?_,
    ?_, fun pid => ?_⟩
  · exact hc.released.total.trans ht.grown.keeps.total
  · rw [(hc.released.other f (hout f hf)).1]
    exact ht.grown.keeps.used f hf
  · rw [(hc.released.other f (hout f hf)).2]
    exact ht.grown.keeps.refcounts f hf
  · rw [hc.mem]
    exact ht.grown.mem f hf
  · funext key
    rw [hc.other key not_mem_nil, ht.grown.ptes]
  · rw [hc.tables]
    exact ht.grown.tables key hkey
  · exact hc.vmos.trans ht.vmos
  · exact hc.maps.trans ht.maps
  · exact hc.nextId.trans ht.nextId
  · exact (hc.cr3 pid).trans (ht.cr3 pid)

lemma populate_spec (zeroed : Bool) (left : ℕ) :
    ∀ {w : VmoWorld} {pages : List ℕ}, Taken w₀ w → Allocated w₀ w pages →
      Taken w₀ (populate zeroed left w pages).1 ∧
      ∀ pages', (populate zeroed left w pages).2 = some pages' →
        Allocated w₀ (populate zeroed left w pages).1 pages' ∧
        pages'.length = pages.length + left := by
  induction left with
  | zero =>
    intro w pages ht h
    refine ⟨ht, fun pages' hpages => ?_⟩
    cases hpages
    exact ⟨h, rfl⟩
  | succ left ih =>
    intro w pages ht h
    rw [populate]
    dsimp only
    by_cases hpage : w.allocPage.1 = 0
    · rw [if_pos hpage]
      refine ⟨?_, fun pages' hpages => by cases hpages⟩
      refine (ht.trans (taken_setPmm (pmmAllocPage_spec _))).released
        (foldl_pageUnref_cleared ..) fun f hf => ?_
      obtain ⟨page, hmem, rfl⟩ := mem_map.mp hf
      exact h.free page (mem_filter.mp hmem).1
    · rw [if_neg hpage]
      obtain ⟨ht', h'⟩ := h.snoc ht hpage zeroed
      obtain ⟨hres, hpages⟩ := ih ht' h'
      refine ⟨hres, fun pages' hsome => ?_⟩
      obtain ⟨hall, hlen⟩ := hpages pages' hsome
      refine ⟨hall, ?_⟩
      rw [hlen, length_append, length_singleton]
      omega

lemma contiguous_spec {num base : ℕ} (hg : Grants w.mmu.pmm num base pmm) (hbase : base ≠ 0)
    (zeroed : Bool) : let pages := (List.range num).map fun p => base + p * pageSize
    let w' := pages.foldl (fun w page => w.clearIf zeroed page) (w.setPmm pmm)
    Taken w w' ∧ Allocated w w' pages := by
  intro pages w'
  have hdiv : ∀ p, (base + p * pageSize) / pageSize = base / pageSize + p := fun p =>
    Nat.add_mul_div_right _ _ (by decide)
  have hgranted : ∀ page ∈ pages, page / pageSize < w.mmu.pmm.totalPages ∧
      w.mmu.pmm.used (page / pageSize) = false ∧ pmm.used (page / pageSize) ∧
      pmm.refcounts (page / pageSize) = 1 := by
    intro page hpage
    obtain ⟨p, hp, rfl⟩ := mem_map.mp hpage
    have := mem_range.mp hp
    rw [hdiv]
    exact hg.granted hbase _ (by omega) (by omega)
  -- clearing the pages changes neither the allocator nor a frame that was in use
  have hclear : ∀ (l : List ℕ) (x : VmoWorld), (∀ page ∈ l, page ∈ pages) → Taken w x →
      Taken w (l.foldl (fun w page => w.clearIf zeroed page) x) ∧
        (l.foldl (fun w page => w.clearIf zeroed page) x).mmu.pmm = x.mmu.pmm := by
    intro l
    induction l with
    | nil => exact fun x _ hx => ⟨hx, rfl⟩
    | cons page l ih =>
      intro x hl hx
      obtain ⟨htaken, hpmm⟩ := ih (x.clearIf zeroed page)
        (fun q hq => hl q (mem_cons_of_mem _ hq))
        (hx.clearIf zeroed (hgranted page (hl page mem_cons_self)).2.1)
      exact ⟨htaken, hpmm.trans (pmm_clearIf ..)⟩
  obtain ⟨htaken, hpmm⟩ := hclear pages (w.setPmm pmm) (fun _ h => h) (taken_setPmm hg)
  refine ⟨htaken, ⟨fun page hpage => ?_, ?_, fun page hpage => (hgranted page hpage).2.1,
    fun page hpage => ?_⟩⟩
  · obtain ⟨p, -, rfl⟩ := mem_map.mp hpage
    omega
  · have hmap : pages.map (· / pageSize) = List.range' (base / pageSize) num := by
      rw [map_map, List.range'_eq_map_range]
      exact map_congr_left fun p _ => hdiv p
    rw [hmap]
    exact nodup_range'
  · obtain ⟨hlt, -, hused, hone⟩ := hgranted page hpage
    rw [hpmm]
    exact ⟨by rw [VmoWorld.setPmm, hg.keeps.total]; exact hlt, hused, hone⟩

lemma Allocated.filter (h : Allocated w w' pages) : pages.filter (· ≠ 0) = pages :=
  filter_eq_self.mpr fun page hpage => by simpa using h.nonzero page hpage

/-- The page array of a new object: empty slots, or frames that were free. -/
theorem createPages_spec (w : VmoWorld) (npages : ℕ) (flags : VmoFlags) :
    Taken w (createPages w npages flags).1 ∧
      ∀ pages, (createPages w npages flags).2 = some pages →
        pages.length = npages ∧ (flags.contiguous → Contiguous pages) ∧
        Allocated w (createPages w npages flags).1 (pages.filter (· ≠ 0)) := by
  have hfails : ∀ w' : VmoWorld, Taken w w' → Taken w w' ∧
      ∀ pages, (none : Option (List ℕ)) = some pages →
        pages.length = npages ∧ (flags.contiguous → Contiguous pages) ∧
        Allocated w w' (pages.filter (· ≠ 0)) := fun w' h => ⟨h, fun _ hnone => by cases hnone⟩
  rw [createPages]
  by_cases hcont : flags.contiguous
  · rw [if_pos hcont]
    by_cases hdemand : flags.ondemand
    · rw [if_pos hdemand]
      exact hfails w (Taken.refl w)
    rw [if_neg hdemand]
    by_cases hmany : 64 < npages
    · rw [if_pos hmany]
      exact hfails w (Taken.refl w)
    rw [if_neg hmany]
    have hg := pmmAllocPages_spec w.mmu.pmm npages
    generalize pmmAllocPages w.mmu.pmm npages = r at hg ⊢
    obtain ⟨base, pmm⟩ := r
    dsimp only at hg ⊢
    by_cases hbase : base = 0
    · rw [if_pos hbase]
      exact hfails _ (taken_setPmm hg)
    rw [if_neg hbase]
    obtain ⟨htaken, halloc⟩ := contiguous_spec hg hbase flags.zeroed
    refine ⟨htaken, fun pages hpages => ?_⟩
    cases hpages
    rw [halloc.filter]
    refine ⟨by simp, fun _ => ⟨base, hbase, by simp⟩, halloc⟩
  · rw [if_neg hcont]
    by_cases hdemand : flags.ondemand
    · rw [if_pos hdemand]
      refine ⟨Taken.refl w, fun pages hpages => ?_⟩
      cases hpages
      refine ⟨length_replicate, fun h => absurd h hcont, ?_⟩
      have hempty : (List.replicate npages 0).filter (· ≠ 0) = [] := by simp
      rw [hempty]
      exact Allocated.nil w
    · rw [if_neg hdemand]
      obtain ⟨htaken, hpages⟩ := populate_spec flags.zeroed npages (Taken.refl w) (Allocated.nil w)
      refine ⟨htaken, fun pages hsome => ?_⟩
      obtain ⟨halloc, hlen⟩ := hpages pages hsome
      rw [halloc.filter]
      exact ⟨by simpa using hlen, fun h => absurd h hcont, halloc⟩

end GrahaOS.VmObjects
