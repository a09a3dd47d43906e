import GrahaOS.VmoRuns

/-!
# Where `vmo_map` may map

The offset, the length and the address hint of `vmo_map` come from user space. The code adds the
first two modulo 2^64 before it compares with the size of the object, and it takes a hint as it is;
an address that the code looks for itself is always good.
-/

namespace GrahaOS.MapBounds

open PageFrames PageTables VmObjects Runs

/-- The addresses below are the lower canonical half, which belongs to user space. -/
def userHalf : ℕ := 2 ^ 47

/-- The array of an object has one slot for each page of its size. -/
structure Sized (o : Vmo) : Prop where
  pages : o.sizeBytes = o.pages.length * pageSize
  bound : o.sizeBytes ≤ vmoMaxSize

/-- The page `p` of a range is a page of the object, and its address is that of a page in the
user half where nothing is mapped. -/
structure Inside (w : VmoWorld) (o : Vmo) (cr3 vaddr offset p : ℕ) : Prop where
  slot : offset / pageSize + p < o.pages.length
  aligned : (vaddr + p * pageSize) % 2 ^ 64 % pageSize = 0
  user : (vaddr + p * pageSize) % 2 ^ 64 < userHalf
  free : vmmGetPte w.mmu cr3 (vaddr + p * pageSize) = none

/-- What a call has done: only entries of the range have changed, and every page of it is
inside. -/
def StaysInside (w : VmoWorld) (o : Vmo) (cr3 offset len : ℕ) (r : ℕ × VmoWorld) : Prop :=
  (∀ key, (∀ p < len / pageSize, key ≠ pteKey cr3 (r.1 + p * pageSize)) →
      r.2.mmu.ptes key = w.mmu.ptes key) ∧
    ∀ p < len / pageSize, Inside w o cr3 r.1 offset p

/-- A hint that user space may give. -/
structure GoodHint (w : VmoWorld) (cr3 addrHint len : ℕ) : Prop where
  aligned : addrHint % pageSize = 0
  user : addrHint + len ≤ userHalf
  free : ∀ p < len / pageSize, vmmGetPte w.mmu cr3 (addrHint + p * pageSize) = none

section Loop

variable {a : MapArgs} {p : ℕ} {w w' : VmoWorld} {key : PteKey}

lemma installPage_ptes {phys count : ℕ} {unref : Bool}
    (h : installPage a p phys unref count w = .ok w') (hkey : key ≠ a.key p) :
    w'.mmu.ptes key = w.mmu.ptes key := by
  obtain ⟨m, hgrown, hmap⟩ := vmmMapPageByCr3_cases w.mmu a.cr3 (a.virt p) phys a.pteFlags
  rcases hmap with hfail | ⟨hok, -⟩
  · simp [installPage, VmoWorld.mapPage, hfail] at h
  · simp only [installPage, VmoWorld.mapPage, hok, Except.ok.injEq] at h
    rw [← h, ← hgrown.ptes]
    exact Function.update_of_ne hkey ..

lemma populateSlot_ptes {page : ℕ} (h : populateSlot a p w = .ok (page, w')) :
    w'.mmu.ptes = w.mmu.ptes := by
  have hlimit : (rlimitCheckMem w a.pid).2.mmu = w.mmu := by
    unfold rlimitCheckMem
    split
    · rfl
    · split_ifs <;> rfl
  have hslot : ∀ (w : VmoWorld) v i phys, (w.setSlot v i phys).mmu = w.mmu := by
    intro w v i phys
    unfold VmoWorld.setSlot
    split <;> rfl
  unfold populateSlot at h
  dsimp only at h
  split_ifs at h
  cases h
  unfold VmoWorld.clearIf
  split_ifs
  · change (VmoWorld.setSlot _ _ _ _).mmu.ptes = _
    rw [hslot, ← hlimit]
    rfl
  · rw [hslot, ← hlimit]
    rfl

lemma mapOnePage_ptes (h : mapOnePage a p w = .ok w') (hkey : key ≠ a.key p) :
    w'.mmu.ptes key = w.mmu.ptes key := by
  unfold mapOnePage at h
  dsimp only at h
  split_ifs at h
  · exact installPage_ptes h hkey
  · cases hpop : populateSlot a p w with
    | error e => simp [hpop, bind, Except.bind] at h
    | ok r =>
      rw [hpop] at h
      rw [installPage_ptes h hkey, populateSlot_ptes hpop]
  · rw [installPage_ptes h hkey]
    rfl

lemma mapLoop_ptes {left : ℕ} (h : mapLoop a left p w = .ok w')
    (hkey : ∀ q, p ≤ q → q < p + left → key ≠ a.key q) : w'.mmu.ptes key = w.mmu.ptes key := by
  induction left generalizing p w with
  | zero => rw [Except.ok.inj h]
  | succ left ih =>
    rw [mapLoop] at h
    cases hone : mapOnePage a p w with
    | error e => simp [hone, bind, Except.bind] at h
    | ok w₁ =>
      rw [hone] at h
      rw [ih h fun q hq hlt => hkey q (by omega) (by omega),
        mapOnePage_ptes hone (hkey p le_rfl (by omega))]

end Loop

lemma reserveFrom_le (m : Mmu) (cr3 npages stop fuel cur : ℕ) :
    reserveFrom m cr3 npages stop fuel cur ≤ stop := by
  induction fuel generalizing cur with
  | zero => exact Nat.zero_le _
  | succ fuel ih =>
  rw [reserveFrom]
  by_cases hcur : cur ≤ stop
  · rw [if_pos hcur]
    split
    · exact hcur
    · exact ih _
  · rw [if_neg hcur]
    exact Nat.zero_le _

variable {w : VmoWorld} {len addrHint cr3 : ℕ}

lemma mapAddr_lt {t : Task} (hhint : addrHint < 2 ^ 64) : mapAddr w t addrHint len < 2 ^ 64 := by
  unfold mapAddr
  split_ifs
  · exact hhint
  unfold vmmReserveVaByCr3
  split_ifs
  · norm_num
  · exact (reserveFrom_le ..).trans_lt (Nat.mod_lt _ (by norm_num))

lemma goodHint_reserve (hlen : len ≤ vmoMaxSize) (h : vmmReserveVaByCr3 w.mmu cr3 len ≠ 0) :
    GoodHint w cr3 (vmmReserveVaByCr3 w.mmu cr3 len) len where
  aligned := vmmReserveVaByCr3_aligned _ _ _
  user := by
    unfold vmmReserveVaByCr3 at h ⊢
    split_ifs at h ⊢
    · exact absurd rfl h
    have hle := reserveFrom_le w.mmu cr3 (len / pageSize)
      ((userSearchTop + 2 ^ 64 - len) % 2 ^ 64) (2 ^ 52) userSearchBottom
    unfold vmoMaxSize at hlen
    unfold userSearchTop at hle ⊢
    unfold userHalf
    omega
  free := fun _ hp => vmmReserveVaByCr3_spec h hp

lemma inside_iff {o : Vmo} {vaddr offset : ℕ} (hsized : Sized o) (haddr : vaddr < 2 ^ 64)
    (hoffset : offset % pageSize = 0) (hlen : len % pageSize = 0) (hpos : len ≠ 0) :
    (∀ p < len / pageSize, Inside w o cr3 vaddr offset p) ↔
      offset + len ≤ o.sizeBytes ∧ GoodHint w cr3 vaddr len := by
  have hpages := hsized.pages
  unfold pageSize at hpages hoffset hlen
  constructor
  · intro h
    have hfirst := h 0 (by unfold pageSize; omega)
    have hlast := (h (len / pageSize - 1) (by unfold pageSize; omega)).slot
    have haligned : vaddr % pageSize = 0 := by
      have := hfirst.aligned
      unfold pageSize at this ⊢
      omega
    refine ⟨by unfold pageSize at hlast; omega, haligned, ?_, fun p hp => (h p hp).free⟩
    by_contra hend
    -- otherwise the range has a page that starts where the user half ends
    have hstart := hfirst.user
    have hcross := (h ((userHalf - vaddr) / pageSize)
      (by unfold pageSize userHalf at *; omega)).user
    unfold pageSize userHalf at *
    omega
  · rintro ⟨hsize, hgood⟩ p hp
    have haligned := hgood.aligned
    have huser := hgood.user
    refine ⟨?_, ?_, ?_, hgood.free p hp⟩ <;> unfold pageSize userHalf at * <;> omega

lemma vmoMap_multiples {v pid offset : ℕ} {prot : Prot}
    (h : (vmoMap w v pid addrHint offset len prot).1 ≠ 0) :
    offset % pageSize = 0 ∧ len % pageSize = 0 ∧ len ≠ 0 := by
  by_contra hnot
  have halign : offset % pageSize ≠ 0 ∨ len % pageSize ≠ 0 ∨ len = 0 := by tauto
  unfold vmoMap at h
  split at h
  · rw [if_pos halign] at h
    exact h rfl
  · exact h rfl

/-- A call that succeeds stays inside the object and the free pages of the user half exactly if
the sum of offset and length is at most the size of the object, without a wrap, and a hint, if
there is one, is good. -/
theorem map_stays_inside_iff {w : VmoWorld} {v pid addrHint offset len : ℕ} {prot : Prot} {o : Vmo}
    {t : Task} (hv : w.vmos v = some o) (ht : w.tasks pid = some t) (hsized : Sized o)
    (hhint : addrHint < 2 ^ 64) (hsuccess : (vmoMap w v pid addrHint offset len prot).1 ≠ 0) :
    StaysInside w o t.cr3 offset len (vmoMap w v pid addrHint offset len prot) ↔
      offset + len ≤ o.sizeBytes ∧ (addrHint ≠ 0 → GoodHint w t.cr3 addrHint len) := by
  obtain ⟨hoffset, hlen, hpos⟩ := vmoMap_multiples hsuccess
  rcases vmoMap_cases w v pid addrHint offset len prot with hsame | ⟨o', t', s, a, hv', ht', -, -,
    ha, -, hzero, ⟨w', -, hfail⟩ | ⟨w', hloop, hmap⟩⟩
  · exact absurd (congrArg Prod.fst hsame) hsuccess
  · exact absurd (congrArg Prod.fst hfail) hsuccess
  obtain rfl : o = o' := Option.mem_unique hv hv'
  obtain rfl : t = t' := Option.mem_unique ht ht'
  have hvaddr : a.vaddr = mapAddr w t addrHint len := by rw [ha]; rfl
  have hframe : ∀ key, (∀ p < len / pageSize, key ≠ pteKey t.cr3 (a.vaddr + p * pageSize)) →
      (vmoMap w v pid addrHint offset len prot).2.mmu.ptes key = w.mmu.ptes key := by
    intro key hkey
    have hptes : ∀ w : VmoWorld, (vmoRef w v).mmu = w.mmu := by
      intro w
      unfold vmoRef
      split <;> rfl
    rw [hmap]
    rw [hptes]
    change w'.mmu.ptes key = _
    refine mapLoop_ptes hloop fun q _ hq => ?_
    rw [ha] at hq hkey ⊢
    exact hkey q (hq.trans_eq (Nat.zero_add _))
  rw [StaysInside, show (vmoMap w v pid addrHint offset len prot).1 = a.vaddr by rw [hmap]]
  rw [and_iff_right hframe, inside_iff hsized (hvaddr ▸ mapAddr_lt hhint) hoffset hlen hpos, hvaddr]
  refine and_congr_right fun hsize => ?_
  by_cases hgiven : addrHint = 0
  · have hreserve : mapAddr w t addrHint len = vmmReserveVaByCr3 w.mmu t.cr3 len :=
      if_neg (not_not.mpr hgiven)
    rw [hvaddr, hreserve] at hzero
    have hsmall : len ≤ vmoMaxSize := by have := hsized.bound; omega
    rw [hreserve]
    exact iff_of_true (goodHint_reserve hsmall hzero) fun h => absurd hgiven h
  · rw [show mapAddr w t addrHint len = addrHint from if_pos hgiven]
    simp [hgiven]

/-- Every object is sized when it is created. -/
lemma sized_vmoCreate {w' : VmoWorld} {v sizeBytes : ℕ} {flags : VmoFlags} {headerOk arrayOk : Bool}
    (h : vmoCreate w sizeBytes flags headerOk arrayOk = (some v, w')) :
    ∃ o, w'.vmos v = some o ∧ Sized o := by
  unfold vmoCreate at h
  split_ifs at h with hsize
  · cases h
  · cases h
  · cases h
  dsimp only at h
  have hlength :=
    (createPages_spec { w with nextId := w.nextId + 1 } (sizeBytes / pageSize) flags).2
  generalize createPages { w with nextId := w.nextId + 1 } (sizeBytes / pageSize) flags = r
    at h hlength
  obtain ⟨w₁, _ | pages⟩ := r
  · cases h
  obtain ⟨hname, rfl⟩ := Prod.mk.inj h
  cases hname
  refine ⟨_, Function.update_self .., ?_, ?_⟩
  · have hpages := (hlength pages rfl).1
    simp only at hpages ⊢
    unfold pageSize at *
    omega
  · simp only
    omega

/-- An object of one page that pid 0 has mapped. -/
def mapped : VmoWorld := (run VmoRuns.step ⟨VmoRuns.bootWorld, fun _ => 0⟩ VmoRuns.eagerOps).world

/-- The first mapping, at an address that the code chooses. -/
theorem first_map_stays_inside :
    StaysInside VmoRuns.eagerState.world
      ⟨⟨true, false, false, false, false⟩, 4096, 1, none, [4096]⟩ 1 0 4096
      (vmoMap VmoRuns.eagerState.world 0 0 0 0 4096 VmoRuns.readWrite) :=
  (map_stays_inside_iff rfl (show _ = some ⟨1, 0, 0⟩ from rfl) ⟨rfl, by decide⟩ (by norm_num)
    (by decide)).mpr ⟨le_rfl, fun h => absurd rfl h⟩

/-- A hint at the first mapping replaces it, and a hint in the kernel half is taken as well. -/
theorem hint_is_not_checked :
    (vmoMap mapped 0 0 userSearchBottom 0 4096 VmoRuns.readWrite).1 = userSearchBottom ∧
      (vmmGetPte mapped.mmu 1 userSearchBottom).isSome ∧
      (∀ o, ¬StaysInside mapped o 1 0 4096
        (vmoMap mapped 0 0 userSearchBottom 0 4096 VmoRuns.readWrite)) ∧
      (vmoMap mapped 0 0 (2 ^ 64 - 4096) 0 4096 VmoRuns.readWrite).1 = 2 ^ 64 - 4096 := by
  have haddr : (vmoMap mapped 0 0 userSearchBottom 0 4096 VmoRuns.readWrite).1 =
    userSearchBottom := by decide
  have hpresent : (vmmGetPte mapped.mmu 1 userSearchBottom).isSome := by decide
  refine ⟨haddr, hpresent, fun o h => ?_, by decide⟩
  have hfree := (h.2 0 (by decide)).free
  rw [haddr] at hfree
  change vmmGetPte mapped.mmu 1 userSearchBottom = none at hfree
  rw [hfree] at hpresent
  cases hpresent

end GrahaOS.MapBounds
