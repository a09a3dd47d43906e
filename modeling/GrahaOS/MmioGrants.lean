import GrahaOS.VmObjects

/-!
# Device memory for drivers

`userdrv_mmio_vmo_create` and `mmio_vmo.c`. A driver names a range of physical addresses. If the
range is in a BAR of a device of the driver, its pages become the page slots of a new object. The
ends of the range and of the BAR are computed in 64 bits, so a range that wraps ends below the BAR
and is granted too.
-/

namespace GrahaOS.MmioGrants

open VmObjects

def capV2Enomem : ℤ := -3
def capV2Einval : ℤ := -5
def capV2Epledge : ℤ := -7
def eacces : ℤ := -13

/-- An entry of `g_pci_table`. A BAR of size zero is absent. -/
structure PciTableEntry where
  bus : UInt8
  device : UInt8
  function : UInt8
  bars : Fin 6 → UInt64
  barSizes : Fin 6 → UInt64

structure UserdrvEntry where
  pciAddr : UInt32
  driverOwnerPid : ℤ

/-- `g_pci_table` and `g_userdrv_entries`, both up to `g_pci_table_count`. -/
structure Devices where
  pciTable : List PciTableEntry
  entries : List UserdrvEntry

def pciTableFindByAddress (table : List PciTableEntry) (pciAddr : UInt32) : Option PciTableEntry :=
  table.find? fun e => e.bus = (pciAddr >>> 16).toUInt8 ∧ e.device = (pciAddr >>> 8).toUInt8 ∧
    e.function = pciAddr.toUInt8

/-- The loop over the BARs of a device. -/
def PciTableEntry.covers (e : PciTableEntry) (phys size : UInt64) : Bool :=
  (List.finRange 6).any fun b =>
    e.barSizes b ≠ 0 ∧ e.bars b ≤ phys ∧ phys + size ≤ e.bars b + e.barSizes b

def mmioVmoValidateRange (table : List PciTableEntry) (phys size : UInt64) : Option PciTableEntry :=
  if size = 0 then none else table.find? (·.covers phys size)

/-- The arguments that both functions refuse. -/
def misaligned (phys size : UInt64) : Bool :=
  phys &&& 0xFFF ≠ 0 ∨ size &&& 0xFFF ≠ 0 ∨ size = 0

/-- `mmio_vmo_create`: the page slots of the object. `vmo_create` may find no memory. -/
def mmioVmoCreate (table : List PciTableEntry) (phys size : UInt64) (vmoOk : Bool) :
    Option (List UInt64) :=
  if misaligned phys size then none
  else if vmoMaxSize < size.toNat then none
  else if mmioVmoValidateRange table phys size matches none then none
  else if !vmoOk then none
  else some ((List.range (size / 4096).toUInt32.toNat).map fun p => phys + UInt64.ofNat p * 4096)

/-- What the call finds: whether the task exists and has its pledge, and the results of
`vmo_create`, `cap_object_create` and `cap_handle_insert`. -/
structure Found where
  pledge : Option Bool
  vmoOk : Bool
  idx : ℤ
  inserted : ℤ

/-- The page slots of the object that the caller gets a handle of. -/
def userdrvMmioVmoCreate (d : Devices) (found : Found) (callerPid : ℤ) (phys size : UInt64) :
    Except ℤ (List UInt64) :=
  if misaligned phys size then .error capV2Einval
  else match found.pledge with
    | none => .error capV2Einval
    | some false => .error capV2Epledge
    | some true =>
      if !d.entries.any fun e => e.driverOwnerPid = callerPid ∧
          (pciTableFindByAddress d.pciTable e.pciAddr).any (·.covers phys size) then .error eacces
      else match mmioVmoCreate d.pciTable phys size found.vmoOk with
        | none => .error capV2Enomem
        | some pages =>
          if found.idx < 0 then .error found.idx
          else if found.inserted < 0 then .error found.inserted
          else .ok pages

/-- A BAR of a device that the process owns. -/
def OwnedBar (d : Devices) (pid : ℤ) (base size : UInt64) : Prop :=
  ∃ e ∈ d.entries, e.driverOwnerPid = pid ∧ ∃ pe,
    pciTableFindByAddress d.pciTable e.pciAddr = some pe ∧
      ∃ b, pe.bars b = base ∧ pe.barSizes b = size ∧ size ≠ 0

/-- The region and every page slot are inside one BAR of the process. -/
def Confined (d : Devices) (pid : ℤ) (phys size : UInt64) (pages : List UInt64) : Prop :=
  ∃ base barSize, OwnedBar d pid base barSize ∧
    (base ≤ phys ∧ phys.toNat + size.toNat ≤ base.toNat + barSize.toNat) ∧
    ∀ page ∈ pages, base ≤ page ∧ page.toNat + 4096 ≤ base.toNat + barSize.toNat

variable {d : Devices} {found : Found} {pid : ℤ} {phys size : UInt64} {pages : List UInt64}

lemma aligned_of_not_misaligned (h : ¬ misaligned phys size) :
    phys.toNat % 4096 = 0 ∧ size.toNat % 4096 = 0 ∧ 0 < size.toNat := by
  have hmask : ∀ x : UInt64, x &&& 0xFFF = 0 → x.toNat % 4096 = 0 := fun x hx => by
    simpa [Nat.and_two_pow_sub_one_eq_mod x.toNat 12] using congrArg UInt64.toNat hx
  simp only [misaligned, decide_eq_true_eq, not_or, not_not] at h
  refine ⟨hmask phys h.1, hmask size h.2.1, Nat.pos_of_ne_zero fun hzero => h.2.2 ?_⟩
  exact UInt64.toNat_inj.mp hzero

lemma mem_pages {table : List PciTableEntry} {vmoOk : Bool} {page : UInt64}
    (h : mmioVmoCreate table phys size vmoOk = some pages) :
    page ∈ pages ↔ ∃ p < size.toNat / 4096, page.toNat = (phys.toNat + p * 4096) % 2 ^ 64 := by
  simp only [mmioVmoCreate, Option.ite_none_left_eq_some, Option.some.injEq, not_lt] at h
  obtain ⟨-, hmax, -, -, rfl⟩ := h
  have hcount : (size / 4096).toUInt32.toNat = size.toNat / 4096 := by
    simp only [vmoMaxSize] at hmax
    simp
    omega
  simp [hcount, ← UInt64.toNat_inj, eq_comm]

lemma not_confined_of_wraps (hzero : 0 ∈ pages) (hend : 2 ^ 64 ≤ phys.toNat + size.toNat) :
    ¬ Confined d pid phys size pages := by
  rintro ⟨base, barSize, -, ⟨-, hle⟩, hpages⟩
  have hbase : base.toNat ≤ 0 := UInt64.le_iff_toNat_le.mp (hpages 0 hzero).1
  have hlt := barSize.toNat_lt
  omega

/-- A range is granted only if it seems to be in a BAR of the caller. -/
lemma granted (h : userdrvMmioVmoCreate d found pid phys size = .ok pages) :
    ¬ misaligned phys size ∧
      (∃ base barSize, OwnedBar d pid base barSize ∧ base ≤ phys ∧ phys + size ≤ base + barSize) ∧
      mmioVmoCreate d.pciTable phys size found.vmoOk = some pages := by
  unfold userdrvMmioVmoCreate at h
  split at h
  · cases h
  rename_i halign
  split at h
  · cases h
  · cases h
  split at h
  · cases h
  rename_i howned
  simp only [Bool.not_eq_true, Bool.not_eq_false', List.any_eq_true, decide_eq_true_eq,
    Option.any_eq_true, PciTableEntry.covers] at howned
  obtain ⟨e, he, howner, pe, hpe, b, -, hsize, hbase, hend⟩ := howned
  refine ⟨halign, ⟨_, _, ⟨e, he, howner, pe, hpe, b, rfl, rfl, hsize⟩, hbase, hend⟩, ?_⟩
  split at h
  · cases h
  · rename_i hpages
    split_ifs at h
    rw [hpages, Except.ok.inj h]

/-- A granted region is where it should be exactly if it ends below 2^64, or ends there together
with the address space and a BAR of the caller. -/
theorem granted_region_is_confined_iff
    (h : userdrvMmioVmoCreate d found pid phys size = .ok pages) :
    Confined d pid phys size pages ↔ phys.toNat + size.toNat < 2 ^ 64 ∨
      phys.toNat + size.toNat = 2 ^ 64 ∧ ∃ base barSize, OwnedBar d pid base barSize ∧
        base ≤ phys ∧ 2 ^ 64 ≤ base.toNat + barSize.toNat := by
  obtain ⟨halign, ⟨base, barSize, howned, hbase, hend⟩, hpages⟩ := granted h
  obtain ⟨hphys, hsize, hpos⟩ := aligned_of_not_misaligned halign
  have hinside : ∀ base barSize, OwnedBar d pid base barSize → base ≤ phys →
      phys.toNat + size.toNat ≤ base.toNat + barSize.toNat → phys.toNat + size.toNat ≤ 2 ^ 64 →
      Confined d pid phys size pages := by
    intro base barSize howned hbase hend htop
    refine ⟨base, barSize, howned, ⟨hbase, hend⟩, fun page hpage => ?_⟩
    obtain ⟨p, hp, hpage⟩ := (mem_pages hpages).mp hpage
    rw [UInt64.le_iff_toNat_le] at hbase ⊢
    omega
  rw [UInt64.le_iff_toNat_le, UInt64.toNat_add, UInt64.toNat_add] at hend
  constructor
  · intro hconfined
    rcases lt_trichotomy (phys.toNat + size.toNat) (2 ^ 64) with hlt | heq | hgt
    · exact .inl hlt
    · obtain ⟨base', barSize', howned', ⟨hbase', hend'⟩, -⟩ := hconfined
      exact .inr ⟨heq, base', barSize', howned', hbase', heq ▸ hend'⟩
    · -- one of the page slots is zero
      have hlt := phys.toNat_lt
      refine absurd hconfined (not_confined_of_wraps ((mem_pages hpages).mpr ?_) hgt.le)
      exact ⟨(2 ^ 64 - phys.toNat) / 4096, by omega, by rw [UInt64.toNat_zero]; omega⟩
  · rintro (hlt | ⟨heq, base', barSize', howned', hbase', hend'⟩)
    · exact hinside base barSize howned hbase (by omega) hlt.le
    · exact hinside base' barSize' howned' hbase' (by omega) heq.le

def network : Devices where
  pciTable := [⟨0, 3, 0, fun b => if b = 0 then 0xFEB80000 else 0,
    fun b => if b = 0 then 0x20000 else 0⟩]
  entries := [⟨0x300, 7⟩]

theorem network_region_is_confined :
    Confined network 7 0xFEB80000 0x2000 [0xFEB80000, 0xFEB81000] :=
  (@granted_region_is_confined_iff network ⟨some true, true, 1, 0⟩ 7 _ _ _ (by decide)).mpr
    (.inl (by decide))

/-- The owner of a network card gets the first page of memory. -/
theorem wrapped_region_is_granted :
    userdrvMmioVmoCreate network ⟨some true, true, 1, 0⟩ 7 0xFFFFFFFFFFFFF000 0x2000 =
        .ok [0xFFFFFFFFFFFFF000, 0] ∧
      ¬ Confined network 7 0xFFFFFFFFFFFFF000 0x2000 [0xFFFFFFFFFFFFF000, 0] :=
  ⟨by decide, not_confined_of_wraps (by decide) (by decide)⟩

end GrahaOS.MmioGrants
