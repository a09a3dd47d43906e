import GrahaOS.VmoCow
import GrahaOS.VmoRuns

/-!
# Isolation of copy-on-write clones

After `vmo_clone_cow` the source and the clone share frames. A write through the one must not be
seen through the other, and must complete.

The source does not get the flag `VMO_COW_CHILD`, so the clone is protected from it only by the
entries that `vmo_clone_cow` makes read-only, and `vmo_map` maps the shared frames of the source
writable again. Two more paths free a frame that is still in use. `Careful` keeps off these paths.
-/

namespace GrahaOS.VmoIsolation

open Runs PageFrames PageTables VmObjects VmoRefs VmoCow Function Option

/-- Two objects whose writable entries keep apart. -/
structure Pair (x y : ℕ) (w : VmoWorld) : Prop where
  sound : Sound w
  ne : x ≠ y
  live : w.vmos x ≠ none
  live' : w.vmos y ≠ none
  apart : Apart w x y
  apart' : Apart w y x

variable {w : VmoWorld} {o : Vmo} {m : Mapping}

lemma Pair.effect {x y : ℕ} {op : VmoOp} {w' : VmoWorld} (h : Pair x y w)
    (he : Effect x y op w w') : Pair x y w' :=
  ⟨he.sound, h.ne, fun hnone => h.live ((he.live x).mp hnone),
    fun hnone => h.live' ((he.live y).mp hnone), he.apart h.apart,
    he.apart_other h.sound h.apart'⟩

section Clone

variable {w w' : VmoWorld} {src : ℕ} {o : Vmo}

lemma foldl_pageRef_le (pages : List ℕ) (w : VmoWorld) :
    ∃ pmm, pages.foldl VmoWorld.pageRef w = w.setPmm pmm ∧
      pmm.totalPages = w.mmu.pmm.totalPages ∧ pmm.used = w.mmu.pmm.used ∧
      ∀ f, w.mmu.pmm.refcounts f ≤ pmm.refcounts f := by
  induction pages generalizing w with
  | nil => exact ⟨_, rfl, rfl, rfl, fun _ => le_rfl⟩
  | cons page pages ih =>
  obtain ⟨pmm, hfold, htotal, hused, hcount⟩ := ih (w.pageRef page)
  refine ⟨pmm, hfold, ?_, ?_, fun f => ?_⟩
  · exact htotal.trans (totalPages_pmmPageRef ..)
  · exact hused.trans (used_pmmPageRef ..)
  · refine le_trans ?_ (hcount f)
    change w.mmu.pmm.refcounts f ≤ (pmmPageRef w.mmu.pmm page).refcounts f
    by_cases hpage : page = 0
    · rw [hpage]
      rfl
    · rw [refcounts_pmmPageRef _ hpage]
      split_ifs <;> omega

/-- The state after `vmo_clone_cow`: the clone has the page slots of the source, frames have
more references than before, and the mappings of the source are write-protected. -/
structure Cloned (src : ℕ) (o : Vmo) (w w' : VmoWorld) : Prop where
  source : w.vmos src = some o
  vmos : ∃ refcount < 2 ^ 32, ∃ flags, w'.vmos =
    Function.update (Function.update w.vmos src (some { o with refcount := refcount })) w.nextId
      (some ⟨flags, o.sizeBytes, 1, some src, o.pages⟩)
  nextId : w'.nextId = w.nextId + 1
  maps : w'.maps = w.maps
  tasks : w'.tasks = w.tasks
  total : w'.mmu.pmm.totalPages = w.mmu.pmm.totalPages
  used : w'.mmu.pmm.used = w.mmu.pmm.used
  refcounts : ∀ f, w.mmu.pmm.refcounts f ≤ w'.mmu.pmm.refcounts f
  tables : w'.mmu.tables = w.mmu.tables
  phys : ∀ key, (w'.mmu.ptes key).map Pte.phys = (w.mmu.ptes key).map Pte.phys
  protect : ∀ mk ∈ mapKeys, ∀ key pte, MappedAt w src mk key → w'.mmu.ptes key = some pte →
    pte.flags.writable = false

lemma vmoCloneCow_cloned {child : ℕ} {headerOk arrayOk : Bool}
    (hclone : vmoCloneCow w src headerOk arrayOk = (some child, w')) :
    child = w.nextId ∧ ∃ o, Cloned src o w w' := by
  rw [vmoCloneCow] at hclone
  cases hv : w.vmos src with
  | none =>
    rw [hv] at hclone
    cases hclone
  | some o =>
  rw [hv] at hclone
  dsimp only at hclone
  split_ifs at hclone with hfail
  · rw [cloneFails] at hclone
    split_ifs at hclone
    · cases hclone
    · cases hclone
  obtain ⟨pmm, hfold, htotal, hused, hcount⟩ := foldl_pageRef_le (o.pages.filter (· ≠ 0))
    { w with nextId := w.nextId + 1 }
  rw [cloneWith, hfold] at hclone
  dsimp only at hclone
  obtain ⟨mmu, hdown, hd⟩ := downgradeAll_demoted src
    (VmoWorld.setVmo (VmoWorld.setVmo (VmoWorld.setPmm { w with nextId := w.nextId + 1 } pmm) src
      (some { o with refcount := (o.refcount + 1) % 2 ^ 32 })) w.nextId
      (some ⟨{ o.flags with cowChild := true, zeroed := false }, o.sizeBytes, 1, some src,
        o.pages⟩))
  rw [hdown, Prod.mk.injEq, some.injEq] at hclone
  obtain ⟨hchild, rfl⟩ := hclone
  refine ⟨hchild.symm, o, hv, ⟨_, Nat.mod_lt _ (by norm_num), _, rfl⟩, rfl, rfl, rfl, ?_, ?_,
    fun f => ?_, hd.tables, hd.phys, fun mk hmk key pte hat hpte => ?_⟩
  · exact (congrArg Pmm.totalPages hd.pmm).trans htotal
  · exact (congrArg Pmm.used hd.pmm).trans hused
  · exact (hcount f).trans_eq (congrArg (Pmm.refcounts · f) hd.pmm.symm)
  · exact hd.protect key pte ⟨mk, hmk, hat⟩ hpte

lemma Cloned.pair (h : Sound w) (hc : Cloned src o w w') : Pair src w.nextId w' := by
  obtain ⟨refcount, hlt, flags, hvmos⟩ := hc.vmos
  have hne : src ≠ w.nextId := by
    rintro rfl
    have := h.fresh w.nextId le_rfl
    rw [hc.source] at this
    cases this
  have hcr3 : ∀ pid, cr3Of w' pid = cr3Of w pid := fun pid => by rw [cr3Of, cr3Of, hc.tasks]
  have hchild : w'.vmos w.nextId = some ⟨flags, o.sizeBytes, 1, some src, o.pages⟩ := by
    rw [hvmos, update_self]
  have hsrc : w'.vmos src = some { o with refcount := refcount } := by
    rw [hvmos, update_of_ne hne, update_self]
  have hother : ∀ v, v ≠ src → v ≠ w.nextId → w'.vmos v = w.vmos v := fun v hs hn => by
    rw [hvmos, update_of_ne hn, update_of_ne hs]
  have hslot : ∀ v i, v ≠ w.nextId → w'.slot v i = w.slot v i := by
    intro v i hn
    by_cases hs : v = src
    · rw [hs, VmoWorld.slot, VmoWorld.slot, hsrc, hc.source]
      rfl
    · rw [VmoWorld.slot, VmoWorld.slot, hother v hs hn]
  have hslotChild : ∀ i, w'.slot w.nextId i = w.slot src i := by
    intro i
    rw [VmoWorld.slot, VmoWorld.slot, hchild, hc.source]
    rfl
  have hlive : ∀ v, w.vmos v ≠ none → v ≠ w.nextId ∧ w'.vmos v ≠ none := by
    intro v hv
    have hn : v ≠ w.nextId := by
      rintro rfl
      exact hv (h.fresh _ le_rfl)
    refine ⟨hn, ?_⟩
    by_cases hs : v = src
    · rw [hs, hsrc]
      exact some_ne_none _
    · rw [hother v hs hn]
      exact hv
  have hinUse : ∀ f, InUse w.mmu.pmm f → InUse w'.mmu.pmm f := fun f hf =>
    ⟨hf.1.trans_eq hc.total.symm, by rw [hc.used]; exact hf.2.1, hf.2.2.trans_le (hc.refcounts f)⟩
  have hentry : ∀ z key, EntryOf w' z key ↔ EntryOf w z key := fun z key =>
    entryOf_congr hc.maps hcr3 key
  refine ⟨⟨fun v hv => ?_, fun v x hx => ?_, fun v i hv => ?_, fun key pte hpte => ?_, ?_, ?_, ?_⟩,
    hne, ?_, ?_, ?_, ?_⟩
  · rw [hc.nextId] at hv
    have hn : v ≠ w.nextId := by omega
    have hs : v ≠ src := by
      rintro rfl
      have := h.fresh v (by omega)
      rw [hc.source] at this
      cases this
    rw [hother v hs hn]
    exact h.fresh v (by omega)
  · by_cases hn : v = w.nextId
    · rw [hn, hchild] at hx
      rw [← some.inj hx]
      exact ⟨by norm_num, (h.shape src o hc.source).2⟩
    · by_cases hs : v = src
      · rw [hs, hsrc] at hx
        rw [← some.inj hx]
        exact ⟨hlt, (h.shape src o hc.source).2⟩
      · rw [hother v hs hn] at hx
        exact h.shape v x hx
  · by_cases hn : v = w.nextId
    · rw [hn, hslotChild] at hv ⊢
      exact hinUse _ (h.slots src i hv)
    · rw [hslot v i hn] at hv ⊢
      exact hinUse _ (h.slots v i hv)
  · have hphys := hc.phys key
    rw [hpte, map_some, eq_comm, map_eq_some_iff] at hphys
    obtain ⟨old, hold, heq⟩ := hphys
    rw [hc.used, Pte.frame, ← heq]
    exact h.entries key old hold
  · exact fun pid cr3 ht => h.spaces pid cr3 ((hcr3 pid).symm.trans ht)
  · intro mk m hm
    rw [hc.maps] at hm
    obtain ⟨hkey, hobj, hvaddr, hlen, cr3, ht, hpages⟩ := h.mapping mk m hm
    obtain ⟨hn, hobj'⟩ := hlive _ hobj
    refine ⟨hkey, hobj', hvaddr, hlen, cr3, (hcr3 _).trans ht, fun p hp => ?_⟩
    obtain ⟨hs, hpte, htables⟩ := hpages p hp
    refine ⟨?_, fun hnone => hpte ?_, htables.mono fun key hkey => by rw [hc.tables]; exact hkey⟩
    · rw [Mapping.slot, hslot _ _ hn]
      exact hs
    · have hphys := hc.phys (m.key cr3 p)
      rw [hnone] at hphys
      exact map_eq_none_iff.mp hphys.symm
  · intro mk mk' m m' c c' p p' hm hm' ht ht'
    rw [hc.maps] at hm hm'
    rw [hcr3] at ht ht'
    exact h.disjoint mk mk' m m' c c' p p' hm hm' ht ht'
  · rw [hsrc]
    exact some_ne_none _
  · rw [hchild]
    exact some_ne_none _
  · -- every entry of the source is write-protected
    intro key pte hkey hpte hw
    obtain ⟨mk, m, cr3, p, hm, hx, ht, hp, rfl⟩ := (hentry _ _).mp hkey
    obtain ⟨t, htask, rfl⟩ := map_eq_some_iff.mp ht
    have hro := hc.protect mk (h.mapping mk m hm).1 _ pte
      ⟨m, t, hm, htask, hx, h.spaces _ _ ht, p, hp, rfl⟩ hpte
    rw [userWritable, hro, Bool.and_false] at hw
    cases hw
  · -- and the clone has no mapping
    intro key pte hkey
    obtain ⟨mk, m, cr3, p, hm, hx, -⟩ := (hentry _ _).mp hkey
    exact absurd (h.fresh _ le_rfl) (hx ▸ (h.mapping mk m hm).2.1)

end Clone

lemma sound_of_good {T : ℕ → Prop} {handles : ℕ → ℕ} (h : Good T handles w [])
    (hspaces : ∀ pid cr3, cr3Of w pid = some cr3 → cr3 ≠ 0)
    (hmaps : ∀ mk m cr3, w.maps mk = some m → cr3Of w mk.1 = some cr3 → mk ∈ mapKeys ∧
      m.vaddr % pageSize = 0 ∧ ∀ p < m.lenPages, HasTables w.mmu cr3 (m.vaddr + p * pageSize)) :
    Sound w where
  fresh := h.objects.fresh
  shape := fun v o hv => ⟨(h.objects.counted v o hv).2.2, (h.objects.shape v o hv).2.2⟩
  slots := fun _ _ hslot => h.counts.slot_inUse hslot
  entries := h.counts.mapped
  spaces := hspaces
  mapping := fun mk m hm => by
    obtain ⟨hlive, hlen, cr3, hcr3, hpages⟩ := h.objects.mapping mk m hm
    obtain ⟨hkey, hvaddr, htables⟩ := hmaps mk m cr3 hm hcr3
    refine ⟨hkey, hlive, hvaddr, hlen, cr3, hcr3, fun p hp => ⟨(hpages p hp).1, ?_, htables p hp⟩⟩
    intro hnone
    have hphys := (hpages p hp).2
    rw [hnone] at hphys
    cases hphys
  disjoint := h.objects.disjoint

/-- An operation through `x` that keeps `x` and `y` apart.

A map is of populated page slots at an address that is not in use, with room in the counters;
it gives write access to an object that is not a clone only where no frame of the range is
visible through `y`. An unmap takes the last reference neither from a frame nor from the
object. A store through a read-only entry of a writable mapping is to a page that the fault
handler can copy. -/
def Careful (w : VmoWorld) (x y : ℕ) : VmoOp → Prop
  | .map v pid addrHint offset len prot => v = x ∧ addrHint % pageSize = 0 ∧
    ∀ o t, w.vmos v = some o → w.tasks pid = some t → (offset + len) % 2 ^ 64 ≤ o.sizeBytes →
      MapRoom w o t v addrHint offset len ∧ o.flags.mmio = false ∧
      (prot.write → o.flags.cowChild = false → ∀ p < len / pageSize,
        ¬ Visible w y (w.slot v (offset / pageSize + p) / pageSize))
  | .unmap pid vaddr _ => ∀ s m, vmoFindMapSlot w pid vaddr = some s →
    w.maps (pid, s) = some m → m.vmo = x ∧
      (∀ o, w.vmos x = some o → o.flags.mmio = false ∧ 2 ≤ o.refcount) ∧
      ∀ p < m.lenPages, ((List.range m.lenPages).map fun q => m.slot w q / pageSize).count
        (m.slot w p / pageSize) < w.mmu.pmm.refcounts (m.slot w p / pageSize)
  | .store pid va _ => ∃ t m, w.tasks pid = some t ∧ mappingAt w pid va = some m ∧ m.vmo = x ∧
    ∀ o pte, w.vmos x = some o → vmmGetPte w.mmu t.cr3 va = some pte → m.prot.write →
      userWritable pte = false →
      Copyable w t o (m.slot w ((pageBase va - m.vaddr) / pageSize) / pageSize)
  | _ => False

def step (w : VmoWorld) (op : VmoOp) : VmoWorld := (perform w op).2

/-- A careful operation through the source or through the clone. -/
def Allowed (src child : ℕ) (w : VmoWorld) (op : VmoOp) : Prop :=
  Careful w src child op ∨ Careful w child src op

section Steps

variable {w : VmoWorld} {x y len pid addrHint : ℕ} {prot : Prot}

lemma Pair.symm (h : Pair x y w) : Pair y x w :=
  ⟨h.sound, h.ne.symm, h.live', h.live, h.apart', h.apart⟩

lemma mapAddr_aligned {t : Task} (h : addrHint % pageSize = 0) :
    mapAddr w t addrHint len % pageSize = 0 := by
  rw [mapAddr]
  split_ifs
  · exact h
  · exact vmmReserveVaByCr3_aligned ..

lemma mapPteFlags_writable {flags : VmoFlags} (h : (mapPteFlags flags prot).writable) :
    prot.write ∧ flags.cowChild = false := by
  rw [mapPteFlags] at h
  cases hprot : prot.write with
  | false =>
    rw [apply_ite PteFlags.writable] at h
    simp [hprot, protToPteFlags] at h
  | true =>
    cases hclone : flags.cowChild with
    | false => exact ⟨rfl, rfl⟩
    | true =>
      rw [apply_ite PteFlags.writable] at h
      simp [hprot, hclone] at h

variable (h : Pair x y w)
include h

lemma map_effect {v offset : ℕ} (hc : Careful w x y (.map v pid addrHint offset len prot)) :
    Effect x y (.map v pid addrHint offset len prot) w
      (step w (.map v pid addrHint offset len prot)) := by
  obtain ⟨rfl, hhint, hroom⟩ := hc
  rcases vmoMap_spec prot (fun o t hv ht hsize => (hroom o t hv ht hsize).imp_right And.left)
      (fun o hv => (h.sound.shape v o hv).2) (h.sound.slots v) with
    ⟨m, hmap, hgrown⟩ | ⟨o, t, s, a, m, w', ht, hsize, rfl, hi, hmap⟩
  · rw [step, perform, hmap]
    exact effect_of_grown h.sound hgrown
  rw [step, perform, hmap]
  refine effect_of_mapped _ h.ne h.sound hi (mapAddr_aligned hhint) fun hw p hp => ?_
  -- an entry is writable only where the range may be written
  obtain ⟨hprot, hclone⟩ := mapPteFlags_writable hw
  exact (hroom o t hi.vmo ht hsize).2.2 hprot hclone p hp

lemma unmap_effect {vaddr : ℕ} (hc : Careful w x y (.unmap pid vaddr len)) :
    Effect x y (.unmap pid vaddr len) w (step w (.unmap pid vaddr len)) := by
  rcases vmoUnmap_cases w pid vaddr len with hsame | ⟨t, s, m, ht, hs, hm, hunmap⟩
  · rw [step, perform, hsame]
    exact Effect.refl _ _ _ h.sound
  obtain ⟨rfl, hobj, hcounts⟩ := hc s m hs hm
  obtain ⟨o, hv⟩ := ne_none_iff_exists'.mp h.live
  obtain ⟨hmmio, hrefs⟩ := hobj o hv
  obtain ⟨-, -, -, -, cr3, hcr3, hpages⟩ := h.sound.mapping _ m hm
  obtain rfl : t.cr3 = cr3 := by
    rw [cr3Of, ht] at hcr3
    exact some.inj hcr3
  have hany : (w.vmos m.vmo).any (·.flags.mmio) = false := by rw [hv]; exact hmmio
  rw [hany] at hunmap
  rw [step, perform, hunmap]
  have hcleared := unmapLoop_cleared pid t.cr3
    (fun p (hp : p ∈ List.range m.lenPages) => (hpages p (List.mem_range.mp hp)).1)
  refine effect_of_unmapped h.ne h.sound hm hcr3 hcleared (fun f hf => ?_) hv hrefs
  obtain ⟨p, hp, rfl⟩ := List.mem_map.mp hf
  exact ⟨h.sound.slots _ _ (hpages p (List.mem_range.mp hp)).1, hcounts p (List.mem_range.mp hp)⟩

/-- A store through an object completes where the mapping is writable. -/
lemma store_effect {va : ℕ} {value : BitVec 8} (hc : Careful w x y (.store pid va value)) :
    Effect x y (.store pid va value) w (step w (.store pid va value)) ∧
      ∀ m, mappingAt w pid va = some m → m.prot.write → (userStore w pid va value).1 = true := by
  obtain ⟨t, m, ht, hm, rfl, hcopy⟩ := hc
  obtain ⟨o, hv⟩ := ne_none_iff_exists'.mp h.live
  obtain ⟨s, p, hs, hmap, hp, hbase⟩ := mappingAt_spec h.sound hm
  have hcr3 : cr3Of w pid = some t.cr3 := by rw [cr3Of, ht]; rfl
  have hentry : EntryOf w m.vmo (m.key t.cr3 p) := ⟨(pid, s), m, t.cr3, p, hmap, rfl, hcr3, hp, rfl⟩
  obtain ⟨pte, hpte⟩ := h.sound.entry_present hentry
  have hget : vmmGetPte w.mmu t.cr3 va = some pte := by
    rw [vmmGetPte, pteKey_eq_key hbase]
    exact hpte
  have hindex : (pageBase va - m.vaddr) / pageSize = p := by
    rw [hbase, Nat.add_sub_cancel_left]
    exact Nat.mul_div_cancel _ (by decide)
  cases hw : userWritable pte with
  | true =>
    have hstore : userStore w pid va value = (true, storeByte w pte va value) := by
      rw [userStore, ht]
      dsimp only
      rw [hget]
      exact if_pos hw
    rw [step, perform, hstore]
    exact ⟨effect_of_stored h.sound h.apart hentry hpte hw, fun _ _ _ => rfl⟩
  | false =>
    cases hprot : m.prot.write with
    | true =>
      have hready := hcopy o pte hv hget hprot hw
      rw [hindex] at hready
      obtain ⟨page, w', hstore, hcopied⟩ := userStore_copies value h.sound ht hm hprot
        hv hget hw hp hbase hready
      obtain ⟨-, -, -, -, cr3, -, hpages⟩ := h.sound.mapping _ m hmap
      rw [step, perform, hstore]
      exact ⟨effect_of_copied h.ne h.sound hentry hv (hpages p hp).1 hcopied, fun _ _ _ => rfl⟩
    | false =>
      have htarget : cowTarget w pid va true true true = none := by
        rw [cowTarget, ht, hs]
        simp [hmap, hprot]
      have hstore : userStore w pid va value = (false, w) := by
        rw [userStore, ht]
        dsimp only
        rw [hget]
        dsimp only
        rw [if_neg (by simp [hw]), vmoPfDispatch, htarget]
      rw [step, perform, hstore]
      refine ⟨Effect.refl _ _ _ h.sound, fun m' hm' hwrite => ?_⟩
      rw [hm] at hm'
      rw [← some.inj hm', hprot] at hwrite
      cases hwrite

/-- What a careful operation does, to both sides. -/
theorem step_effect {op : VmoOp} (hc : Careful w x y op) : Effect x y op w (step w op) := by
  cases op with
  | map v pid addrHint offset len prot => exact map_effect h hc
  | unmap pid vaddr len => exact unmap_effect h hc
  | store pid va value => exact (store_effect h hc).1
  | _ => exact hc.elim

end Steps

/-- After `vmo_clone_cow` has succeeded, in every state that a run of careful maps, unmaps and
stores through the source and the clone reaches, a further one through either of them leaves
everything that can be read through the other as it is; what can be read through the one
itself has been read through it before or is what it stores; and a store through a writable
mapping completes. -/
theorem cow_clone_is_isolated {w w₀ : VmoWorld} {src child : ℕ} {headerOk arrayOk : Bool}
    (hw : Sound w) (hclone : vmoCloneCow w src headerOk arrayOk = (some child, w₀))
    {ops : List VmoOp} (hops : Guarded step (Allowed src child) w₀ ops) {x y : ℕ}
    (hsides : x = src ∧ y = child ∨ x = child ∧ y = src) {op : VmoOp}
    (hop : Careful (run step w₀ ops) x y op) :
    SameView y (run step w₀ ops) (step (run step w₀ ops) op) ∧
    OwnView x op (run step w₀ ops) (step (run step w₀ ops) op) ∧
    ∀ pid va value m, op = .store pid va value → mappingAt (run step w₀ ops) pid va = some m →
      m.prot.write → (userStore (run step w₀ ops) pid va value).1 = true := by
  obtain ⟨rfl, o, hcloned⟩ := vmoCloneCow_cloned hclone
  have hpair : Pair src w.nextId (run step w₀ ops) := by
    refine invariant_run (Pair src w.nextId) (fun s op h hok => ?_) (hcloned.pair hw) hops
    rcases hok with hok | hok
    · exact h.effect (step_effect h hok)
    · exact (h.symm.effect (step_effect h.symm hok)).symm
  have hside : Pair x y (run step w₀ ops) := by
    rcases hsides with ⟨rfl, rfl⟩ | ⟨rfl, rfl⟩
    · exact hpair
    · exact hpair.symm
  have heffect := step_effect hside hop
  refine ⟨heffect.view, heffect.own, ?_⟩
  rintro pid va value m rfl hm hwrite
  exact (store_effect hside hop).2 m hm hwrite

/-- The fault handler does not resolve a write to an object that is not a clone. -/
lemma cowTarget_of_plain {pid va : ℕ} (hm : mappingAt w pid va = some m)
    (hv : w.vmos m.vmo = some o) (hplain : o.flags.cowChild = false) :
    cowTarget w pid va true true true = none := by
  obtain ⟨s, hs, hmap⟩ := bind_eq_some_iff.mp hm
  rw [cowTarget, hs]
  cases w.tasks pid with
  | none => rfl
  | some t => simp [hmap, hv, hplain]

/-- Right after the clone no write through the source completes, whatever its mappings allow. -/
theorem source_store_fails {w₀ : VmoWorld} {src child pid va : ℕ} {headerOk arrayOk : Bool}
    (value : BitVec 8) (hw : Sound w)
    (hclone : vmoCloneCow w src headerOk arrayOk = (some child, w₀)) (hv : w.vmos src = some o)
    (hplain : o.flags.cowChild = false) (hm : mappingAt w₀ pid va = some m) (hsrc : m.vmo = src) :
    userStore w₀ pid va value = (false, w₀) := by
  obtain ⟨rfl, o', hcloned⟩ := vmoCloneCow_cloned hclone
  have hpair := hcloned.pair hw
  obtain ⟨refcount, -, flags, hvmos⟩ := hcloned.vmos
  obtain rfl : o = o' := mem_unique hv hcloned.source
  have hlive : w₀.vmos m.vmo = some { o with refcount := refcount } := by
    rw [hvmos, hsrc, update_of_ne hpair.ne, update_self]
  have htarget := cowTarget_of_plain hm hlive hplain
  obtain ⟨s, p, -, hmap, hp, hbase⟩ := mappingAt_spec hpair.sound hm
  rw [userStore]
  cases ht : w₀.tasks pid with
  | none => rfl
  | some t =>
  dsimp only
  cases hpte : vmmGetPte w₀.mmu t.cr3 va with
  | none => rfl
  | some pte =>
  have hcr3 : cr3Of w₀ pid = some t.cr3 := by rw [cr3Of, ht]; rfl
  rw [hcloned.maps] at hmap
  have hro : pte.flags.writable = false := by
    refine hcloned.protect (pid, s) (hw.mapping _ m hmap).1 (pteKey t.cr3 va) pte
      ⟨m, t, hmap, hcloned.tasks ▸ ht, hsrc, hpair.sound.spaces _ _ hcr3, p, hp, ?_⟩ hpte
    exact pteKey_eq_key hbase
  dsimp only
  rw [if_neg (by simp [userWritable, hro]), vmoPfDispatch, htarget]

/-- The object that `vmo_create` has made, with one page. -/
def createdVmo : Vmo := ⟨⟨true, false, false, false, false⟩, 4096, 1, none, [4096]⟩

/-- The state in which it has been created, and the one in which it has been cloned. -/
def createdWorld : VmoWorld := VmoRuns.eagerState.world

def clonedWorld : VmoWorld :=
  (cloneWith { createdVmo.flags with cowChild := true, zeroed := false } createdWorld 0
    createdVmo).2

lemma createdWorld_sound : Sound createdWorld := by
  have hallowed : Guarded VmoRuns.step VmoRuns.Allowed ⟨VmoRuns.bootWorld, fun _ => 0⟩
      (VmoRuns.eagerOps.take 1) := ⟨VmoRuns.eagerOps_allowed.1, trivial⟩
  refine sound_of_good (VmoRuns.reached_good VmoRuns.bootWorld_booted hallowed)
    (fun pid cr3 h => ?_) (fun mk m _ hm => by cases hm)
  cases pid with
  | zero =>
    cases h
    decide
  | succ pid => cases h

lemma createdWorld_clone : vmoCloneCow createdWorld 0 true true = (some 1, clonedWorld) := by
  have hobj : createdWorld.vmos 0 = some createdVmo := rfl
  rw [vmoCloneCow, hobj]
  dsimp only [Bool.not_true, Bool.or_self, Bool.false_eq_true, if_false]
  rw [if_neg (by decide), downgradeAll_of_unmapped]
  · rfl
  · intro mk m hm
    cases hm

/-- The source is mapped with write access after the clone, and written to. -/
def sourceOps : List VmoOp :=
  [.map 0 0 0 0 4096 VmoRuns.readWrite, .store 0 userSearchBottom 7]

/-- The write through the source is read through the clone. -/
theorem source_write_is_seen_through_clone :
    Sound createdWorld ∧ vmoCloneCow createdWorld 0 true true = (some 1, clonedWorld) ∧
      clonedWorld.mmu.mem (clonedWorld.slot 1 0 / pageSize) 0 = 0 ∧
      (run step clonedWorld sourceOps).mmu.mem
        ((run step clonedWorld sourceOps).slot 1 0 / pageSize) 0 = 7 :=
  ⟨createdWorld_sound, createdWorld_clone, by decide, by decide⟩

/-- The clone is mapped with write access. -/
def cloneOps : List VmoOp := [.map 1 0 0 0 4096 VmoRuns.readWrite]

lemma clonedWorld_counts (f : ℕ) : clonedWorld.mmu.pmm.refcounts f ≤ 2 := by
  have hcounts : clonedWorld.mmu.pmm.refcounts = update
      (update (fun f => if f = 0 then 1 else 0) 1 1) 1 2 := rfl
  rw [hcounts, update_apply, update_apply]
  split_ifs <;> omega

lemma clonedWorld_mapRoom {t : Task} (hv : clonedWorld.vmos 1 = some o) :
    MapRoom clonedWorld o t 1 0 0 4096 ∧ o.flags.mmio = false ∧ o.flags.cowChild = true := by
  obtain rfl : (⟨⟨false, false, true, false, false⟩, 4096, 1, some 0, [4096]⟩ : Vmo) = o :=
    some.inj hv
  refine ⟨⟨by decide, by decide, fun h => absurd rfl h, fun f => ?_⟩, rfl, rfl⟩
  have hframe := clonedWorld_counts f
  have hlen := List.count_le_length (l := (List.range (4096 / pageSize)).map fun p =>
    clonedWorld.slot 1 (0 / pageSize + p) / pageSize) (a := f)
  have hone : ((List.range (4096 / pageSize)).map fun p =>
    clonedWorld.slot 1 (0 / pageSize + p) / pageSize).length = 1 := by decide
  omega

lemma cloneOps_allowed : Guarded step (Allowed 0 1) clonedWorld cloneOps := by
  refine ⟨.inr ⟨rfl, rfl, fun o t hv _ _ => ?_⟩, trivial⟩
  obtain ⟨hroom, hmmio, hclone⟩ := clonedWorld_mapRoom hv
  exact ⟨hroom, hmmio, fun _ hnot => absurd hclone (by simp [hnot])⟩

lemma cloneStore_careful :
    Careful (run step clonedWorld cloneOps) 1 0 (.store 0 userSearchBottom 7) := by
  refine ⟨⟨1, 0, 0⟩, ⟨userSearchBottom, 1, 0, 1, VmoRuns.readWrite⟩, rfl, by decide, rfl,
    fun o pte hv _ _ _ => ?_⟩
  obtain rfl : (⟨⟨false, false, true, false, false⟩, 4096, 2, some 0, [4096]⟩ : Vmo) = o :=
    some.inj hv
  exact ⟨rfl, by decide, .inl rfl, by decide, by decide, 5, by decide, by decide⟩

/-- A write through the clone completes, and the source is as it was. -/
theorem clone_write_completes :
    Sound createdWorld ∧ vmoCloneCow createdWorld 0 true true = (some 1, clonedWorld) ∧
      Guarded step (Allowed 0 1) clonedWorld cloneOps ∧
      Careful (run step clonedWorld cloneOps) 1 0 (.store 0 userSearchBottom 7) ∧
      (userStore (run step clonedWorld cloneOps) 0 userSearchBottom 7).1 = true :=
  ⟨createdWorld_sound, createdWorld_clone, cloneOps_allowed, cloneStore_careful,
    (cow_clone_is_isolated createdWorld_sound createdWorld_clone cloneOps_allowed
      (.inr ⟨rfl, rfl⟩) cloneStore_careful).2.2 0 userSearchBottom 7
      ⟨userSearchBottom, 1, 0, 1, VmoRuns.readWrite⟩ rfl (by decide) rfl⟩

end GrahaOS.VmoIsolation
