import GrahaOS.References
import GrahaOS.VmoEffects

/-!
# Counting the references to the frames of virtual memory objects

A frame in a page slot of an object should have one reference for each page slot that holds it and
one for each page-table entry that maps it. `Counts` says so, with a list of references that the
running function holds besides; the lemmas say how references move between slots, entries and that
list.
-/

namespace GrahaOS.VmoCounts

open References PageFrames PageTables VmObjects Function List

variable (w : VmoWorld)

/-- The frame that a page slot holds. -/
def slotFrame (k : ℕ × ℕ) : Option ℕ :=
  if w.slot k.1 k.2 = 0 then none else some (w.slot k.1 k.2 / pageSize)

/-- The frame that an entry maps. -/
def pteFrame (m : Mmu) (key : PteKey) : Option ℕ := (m.ptes key).map Pte.frame

/-- The page slots that hold a frame. -/
noncomputable def slotsHolding (f : ℕ) : ℕ := refs (slotFrame w) f

/-- The entries that map a frame. -/
noncomputable def mappingsOf (f : ℕ) : ℕ := refs (pteFrame w.mmu) f

/-- The object of a mapping. -/
def mapObject (mk : ℕ × ℕ) : Option ℕ := (w.maps mk).map Mapping.vmo

/-- The source of a clone. -/
def parentOf (v : ℕ) : Option ℕ := (w.vmos v).bind Vmo.parent

/-- The count of a frame is that of the slots, the entries and the references in the list;
the frame is in use as long as there is one. -/
structure Tracked (w : VmoWorld) (L : List ℕ) (f : ℕ) : Prop where
  inRange : f < w.mmu.pmm.totalPages
  count : w.mmu.pmm.refcounts f = slotsHolding w f + mappingsOf w f + L.count f
  used : w.mmu.pmm.used f = decide (0 < slotsHolding w f + mappingsOf w f + L.count f)

/-- The frames in page slots, in the list and in `T` are tracked, and nothing maps a frame that
is free. -/
structure Counts (T : ℕ → Prop) (w : VmoWorld) (L : List ℕ) : Prop where
  slotsFinite : FinitelyMany (slotFrame w)
  ptesFinite : FinitelyMany (pteFrame w.mmu)
  tracked : ∀ f, T f ∨ 0 < slotsHolding w f ∨ f ∈ L → Tracked w L f
  mapped : ∀ key pte, w.mmu.ptes key = some pte → w.mmu.pmm.used pte.frame

section Counts

variable {T : ℕ → Prop} {w w' : VmoWorld} {L frames : List ℕ} {v f i : ℕ} {o o' : Vmo}
  {l : List (PteKey × ℕ)}

lemma slotFrame_congr (h : w'.vmos = w.vmos) : slotFrame w' = slotFrame w := by
  funext k
  rw [slotFrame, slotFrame, slot_congr h]

lemma slotsHolding_congr (h : w'.vmos = w.vmos) : slotsHolding w' = slotsHolding w := by
  funext f
  rw [slotsHolding, slotsHolding, slotFrame_congr h]

lemma Counts.slotsHolding_pos (h : Counts T w L) (hslot : w.slot v i ≠ 0) :
    0 < slotsHolding w (w.slot v i / pageSize) :=
  (refs_pos_iff h.slotsFinite).mpr ⟨(v, i), if_neg hslot⟩

lemma Tracked.used_of_pos (h : Tracked w L f)
    (hpos : 0 < slotsHolding w f + mappingsOf w f + L.count f) : w.mmu.pmm.used f := by
  rw [h.used, decide_eq_true_eq]
  exact hpos

variable (h : Counts T w L)
include h

lemma Counts.used_slot (hf : 0 < slotsHolding w f) : w.mmu.pmm.used f :=
  (h.tracked f (.inr (.inl hf))).used_of_pos (by omega)

lemma Counts.slot_inUse (hslot : w.slot v i ≠ 0) : InUse w.mmu.pmm (w.slot v i / pageSize) := by
  have hpos := h.slotsHolding_pos hslot
  have ht := h.tracked _ (.inr (.inl hpos))
  exact ⟨ht.inRange, h.used_slot hpos, by rw [ht.count]; omega⟩

lemma Counts.of_free (hf : w.mmu.pmm.used f = false) :
    slotsHolding w f = 0 ∧ mappingsOf w f = 0 ∧ f ∉ L := by
  refine ⟨?_, ?_, fun hmem => ?_⟩
  · by_contra hne
    have := h.used_slot (Nat.pos_of_ne_zero hne)
    rw [hf] at this
    cases this
  · by_contra hne
    obtain ⟨key, hkey⟩ := (refs_pos_iff h.ptesFinite).mp (Nat.pos_of_ne_zero hne)
    obtain ⟨pte, hpte, hframe⟩ := Option.map_eq_some_iff.mp hkey
    have := h.mapped key pte hpte
    rw [hframe, hf] at this
    cases this
  · have hpos := count_pos_iff.mpr hmem
    have := (h.tracked f (.inr (.inr hmem))).used_of_pos (by omega)
    rw [hf] at this
    cases this

variable (hT : ∀ f, T f → w.mmu.pmm.used f)
include hT

lemma Counts.used_tracked (hf : T f ∨ 0 < slotsHolding w f ∨ f ∈ L) : w.mmu.pmm.used f := by
  rcases hf with hf | hf | hf
  · exact hT f hf
  · exact h.used_slot hf
  · have hpos := count_pos_iff.mpr hf
    exact (h.tracked f (.inr (.inr hf))).used_of_pos (by omega)

omit h

omit hT

lemma Tracked.moved {L' : List ℕ} (h : Tracked w L f)
    (htotal : w'.mmu.pmm.totalPages = w.mmu.pmm.totalPages)
    (hcount : w'.mmu.pmm.refcounts f = slotsHolding w' f + mappingsOf w' f + L'.count f)
    (hused : w'.mmu.pmm.used f = decide (0 < w'.mmu.pmm.refcounts f)) : Tracked w' L' f :=
  ⟨h.inRange.trans_eq htotal.symm, hcount, by rw [hused, hcount]⟩

lemma Tracked.used_iff (h : Tracked w L f) :
    w.mmu.pmm.used f = decide (0 < w.mmu.pmm.refcounts f) := by
  rw [h.used, h.count]

/-- The slots and the entries hold the frames that they held, and the frames that are counted
have the counts that they had. -/
lemma Counts.kept (h : Counts T w L) (hslots : slotFrame w' = slotFrame w)
    (hptes : pteFrame w'.mmu = pteFrame w.mmu)
    (htotal : w'.mmu.pmm.totalPages = w.mmu.pmm.totalPages)
    (hused : ∀ f, w.mmu.pmm.used f → w'.mmu.pmm.used f)
    (hcounts : ∀ f, T f ∨ 0 < slotsHolding w f ∨ f ∈ L →
      w'.mmu.pmm.refcounts f = w.mmu.pmm.refcounts f ∧ w'.mmu.pmm.used f = w.mmu.pmm.used f) :
    Counts T w' L := by
  have hholding : slotsHolding w' = slotsHolding w := by
    funext f
    rw [slotsHolding, slotsHolding, hslots]
  have hmaps : mappingsOf w' = mappingsOf w := by
    funext f
    rw [mappingsOf, mappingsOf, hptes]
  refine ⟨by rw [hslots]; exact h.slotsFinite, by rw [hptes]; exact h.ptesFinite,
    fun f hf => ?_, fun key pte hpte => ?_⟩
  · rw [hholding] at hf
    have ht := h.tracked f hf
    obtain ⟨hrefs, hbit⟩ := hcounts f hf
    refine ht.moved htotal ?_ ?_
    · rw [hrefs, hholding, hmaps]
      exact ht.count
    · rw [hbit, hrefs]
      exact ht.used_iff
  · have hkey := congrFun hptes key
    rw [pteFrame, pteFrame, hpte, Option.map_some, eq_comm, Option.map_eq_some_iff] at hkey
    obtain ⟨old, hold, heq⟩ := hkey
    rw [← heq]
    exact hused _ (h.mapped key old hold)

lemma pteFrame_congr {m m' : Mmu} (h : m'.ptes = m.ptes) : pteFrame m' = pteFrame m := by
  funext key
  rw [pteFrame, pteFrame, h]

lemma Counts.grown (h : Counts T w L) (hT : ∀ f, T f → w.mmu.pmm.used f)
    (hg : Grown w.mmu w'.mmu) (hvmos : w'.vmos = w.vmos) : Counts T w' L := by
  refine h.kept (slotFrame_congr hvmos) (pteFrame_congr hg.ptes) hg.keeps.total hg.keeps.used
    fun f hf => ?_
  have hused := h.used_tracked hT hf
  rw [hg.keeps.used f hused, hused]
  exact ⟨hg.keeps.refcounts f hused, rfl⟩

lemma Counts.released (h : Counts T w (frames ++ L)) (hc : Cleared [] frames w w') :
    Counts T w' L := by
  have hptes : w'.mmu.ptes = w.mmu.ptes := funext fun key => hc.other key not_mem_nil
  have hframes := pteFrame_congr hptes
  have hmaps : mappingsOf w' = mappingsOf w := by
    funext f
    rw [mappingsOf, mappingsOf, hframes]
  -- a frame of the list loses its references, and is free when no other is left
  have hdrop : ∀ f, Tracked w (frames ++ L) f → Tracked w' L f := by
    intro f ht
    have hcount := ht.count
    rw [count_append] at hcount
    by_cases hmem : f ∈ frames
    · have hpos := count_pos_iff.mpr hmem
      have hused : w.mmu.pmm.used f := ht.used_of_pos (by rw [count_append]; omega)
      obtain ⟨hrefs, hbit⟩ := hc.released.dropped f hmem ht.inRange hused (by omega)
      refine ht.moved hc.released.total ?_ ?_
      · rw [hrefs, slotsHolding_congr hc.vmos, hmaps]
        omega
      · rw [hbit, hrefs, decide_eq_decide]
        omega
    · have hzero := count_eq_zero.mpr hmem
      obtain ⟨hbit, hrefs⟩ := hc.released.other f hmem
      refine ht.moved hc.released.total ?_ ?_
      · rw [hrefs, slotsHolding_congr hc.vmos, hmaps]
        omega
      · rw [hbit, hrefs]
        exact ht.used_iff
  refine ⟨by rw [slotFrame_congr hc.vmos]; exact h.slotsFinite, by rw [hframes]; exact h.ptesFinite,
    fun f hf => ?_, fun key pte hpte => ?_⟩
  · rw [slotsHolding_congr hc.vmos] at hf
    exact hdrop f (h.tracked f (by simp only [mem_append]; tauto))
  rw [hptes] at hpte
  have hused := h.mapped key pte hpte
  by_cases hmem : pte.frame ∈ frames
  · have ht := hdrop _ (h.tracked pte.frame (.inr (.inr (mem_append_left _ hmem))))
    have hpos : 0 < mappingsOf w pte.frame :=
      (refs_pos_iff h.ptesFinite).mpr ⟨key, by rw [pteFrame, hpte]; rfl⟩
    exact ht.used_of_pos (by rw [hmaps]; omega)
  · rw [(hc.released.other _ hmem).1]
    exact hused

/-- References to frames in page slots are added to the list. -/
lemma counted_of_append (hslot : ∀ f ∈ frames, 0 < slotsHolding w f)
    (hf : T f ∨ 0 < slotsHolding w f ∨ f ∈ frames ++ L) :
    T f ∨ 0 < slotsHolding w f ∨ f ∈ L := by
  rcases hf with hf | hf | hf
  · exact .inl hf
  · exact .inr (.inl hf)
  · rcases mem_append.mp hf with hf | hf
    · exact .inr (.inl (hslot f hf))
    · exact .inr (.inr hf)

include h

/-- Entries are cleared; the references that they held are now in the list. -/
lemma Counts.unmapped (hl : (l.map Prod.fst).Nodup) (hold : ∀ x ∈ l, pteFrame w.mmu x.1 = some x.2)
    (hslot : ∀ x ∈ l, 0 < slotsHolding w x.2)
    (hvmos : w'.vmos = w.vmos) (hpmm : w'.mmu.pmm = w.mmu.pmm)
    (hnew : ∀ x ∈ l, w'.mmu.ptes x.1 = none)
    (hout : ∀ key ∉ l.map Prod.fst, w'.mmu.ptes key = w.mmu.ptes key) :
    Counts T w' (l.map Prod.snd ++ L) := by
  have hfin : FinitelyMany (pteFrame w'.mmu) := by
    apply h.ptesFinite.subset
    intro key hkey
    rw [Set.mem_ofPred_eq, pteFrame] at hkey ⊢
    intro hnone
    by_cases hmem : key ∈ l.map Prod.fst
    · obtain ⟨x, hx, rfl⟩ := mem_map.mp hmem
      exact hkey (by rw [hnew x hx]; rfl)
    · exact hkey (by rw [hout key hmem]; exact hnone)
  obtain ⟨-, hcount⟩ := refs_extend hfin hl (fun x hx => by rw [pteFrame, hnew x hx]; rfl)
    hold (fun key hkey => by rw [pteFrame, pteFrame, hout key hkey])
  have hmove : ∀ f, mappingsOf w f = mappingsOf w' f + (l.map Prod.snd).count f := hcount
  refine ⟨by rw [slotFrame_congr hvmos]; exact h.slotsFinite, hfin, fun f hf => ?_,
    fun key pte hpte => ?_⟩
  · rw [slotsHolding_congr hvmos] at hf
    have ht := h.tracked f (counted_of_append (forall_mem_map.mpr hslot) hf)
    have hm := hmove f
    have hc := ht.count
    refine ht.moved (by rw [hpmm]) ?_ ?_
    · rw [hpmm, slotsHolding_congr hvmos, count_append]
      omega
    · rw [hpmm]
      exact ht.used_iff
  · rw [hpmm]
    apply h.mapped key pte
    by_cases hmem : key ∈ l.map Prod.fst
    · obtain ⟨x, hx, rfl⟩ := mem_map.mp hmem
      rw [hnew x hx] at hpte
      cases hpte
    · rw [← hout key hmem]
      exact hpte

/-- Entries are cleared and the references that they held are given back. -/
lemma Counts.cleared (hl : (l.map Prod.fst).Nodup) (hold : ∀ x ∈ l, pteFrame w.mmu x.1 = some x.2)
    (hslot : ∀ x ∈ l, 0 < slotsHolding w x.2)
    (hc : Cleared (l.map Prod.fst) (l.map Prod.snd) w w') : Counts T w' L := by
  -- first the entries go, then the references
  have hunmap : Counts T { w with mmu := ⟨w.mmu.pmm, w.mmu.mem, w.mmu.tables, w'.mmu.ptes⟩ }
      (l.map Prod.snd ++ L) :=
    h.unmapped hl hold hslot rfl rfl (fun x hx => hc.cleared x.1 (mem_map_of_mem hx))
      hc.other
  exact hunmap.released ⟨hc.vmos, hc.maps, hc.nextId, hc.cr3, hc.mem, hc.tables,
    fun _ hkey => absurd hkey not_mem_nil, fun _ _ => rfl, hc.released⟩

include hT

/-- The references of a clone are taken, for now by the running function. -/
lemma Counts.referenced {pmm : Pmm} (hr : Referenced w.mmu.pmm pmm frames)
    (hslot : ∀ f ∈ frames, 0 < slotsHolding w f)
    (hroom : ∀ f, w.mmu.pmm.refcounts f + frames.count f ≤ 255) :
    Counts T (w.setPmm pmm) (frames ++ L) := by
  have hslots : slotsHolding (w.setPmm pmm) = slotsHolding w := slotsHolding_congr rfl
  have hmaps : mappingsOf (w.setPmm pmm) = mappingsOf w := rfl
  refine ⟨h.slotsFinite, h.ptesFinite, fun f hf => ?_, fun key pte hpte => ?_⟩
  · have hold := counted_of_append hslot hf
    have ht := h.tracked f hold
    have hused := h.used_tracked hT hold
    have hcount := ht.count
    have hrefs := hr.count f ht.inRange hused (hroom f)
    refine ht.moved hr.total ?_ ?_
    · rw [hslots, hmaps, count_append]
      refine hrefs.trans ?_
      omega
    · refine (congrFun hr.used f).trans ?_
      have hpos := ht.used_iff
      rw [hused, eq_comm, decide_eq_true_eq] at hpos
      rw [hused, eq_comm, decide_eq_true_eq]
      exact hpos.trans_le ((Nat.le_add_right _ _).trans_eq hrefs.symm)
  · refine (congrFun hr.used _).trans ?_
    exact h.mapped key pte hpte

lemma Counts.allocated {pages : List ℕ} (ht : Taken w w') (ha : Allocated w w' pages) :
    Counts T w' (pages.map (· / pageSize) ++ L) := by
  have hgrown := h.grown hT ht.grown ht.vmos
  have hptes : ∀ f, mappingsOf w' f = mappingsOf w f := by
    intro f
    rw [mappingsOf, mappingsOf, pteFrame_congr ht.grown.ptes]
  refine ⟨hgrown.slotsFinite, hgrown.ptesFinite, fun f hf => ?_, hgrown.mapped⟩
  by_cases hmem : f ∈ pages.map (· / pageSize)
  · -- the frame was free, so this is its only reference
    obtain ⟨page, hpage, rfl⟩ := mem_map.mp hmem
    obtain ⟨hs, hm, hL⟩ := h.of_free (ha.free page hpage)
    obtain ⟨hlt, hused, hone⟩ := ha.granted page hpage
    have hcount : (pages.map (· / pageSize) ++ L).count (page / pageSize) = 1 := by
      rw [count_append, count_eq_one_of_mem ha.nodup hmem, count_eq_zero.mpr hL]
    refine ⟨hlt, ?_, ?_⟩
    · rw [hone, hcount, slotsHolding_congr ht.vmos, hptes, hs, hm]
    · rw [hused, hcount, eq_comm, decide_eq_true_eq]
      omega
  · have hzero := count_eq_zero.mpr hmem
    have htr := hgrown.tracked f (by
      rcases hf with hf | hf | hf
      · exact .inl hf
      · exact .inr (.inl hf)
      · exact .inr (.inr ((mem_append.mp hf).resolve_left hmem)))
    refine htr.moved rfl ?_ htr.used_iff
    rw [count_append, hzero, htr.count]
    omega

/-- A range has been mapped: each page has a reference and an entry more. -/
lemma Counts.stage {a : MapArgs} {m : Mmu} (hr : Mappable a w)
    (hs : Stage a w 0 a.npages a.npages m) (hmmu : w'.mmu = m)
    (hvmos : w'.vmos = w.vmos) : Counts T w' L := by
  subst hmmu
  let l := (List.range a.npages).map fun j => (a.key j, a.frame w j)
  have hkeys : l.map Prod.fst = (List.range a.npages).map a.key := by
    simp [l, map_map, comp_def]
  have hframes : l.map Prod.snd = (List.range a.npages).map (a.frame w) := by
    simp [l, map_map, comp_def]
  have hnodup : (l.map Prod.fst).Nodup := by
    rw [hkeys]
    refine List.Nodup.map_on (fun i hi j hj heq => ?_) nodup_range
    by_contra hne
    exact hr.key_ne (mem_range.mp hi) (mem_range.mp hj) hne heq
  obtain ⟨hfin, hcount⟩ := refs_extend (g := pteFrame w'.mmu) h.ptesFinite hnodup
    (fun x hx => by
      obtain ⟨j, hj, rfl⟩ := mem_map.mp hx
      rw [pteFrame, hr.unmapped j (mem_range.mp hj)]
      rfl)
    (fun x hx => by
      obtain ⟨j, hj, rfl⟩ := mem_map.mp hx
      rw [pteFrame, hs.inside j (Nat.zero_le j) (mem_range.mp hj)]
      rfl)
    (fun key hkey => by
      rw [pteFrame, pteFrame, hs.outside key]
      intro j _ hj heq
      rw [hkeys] at hkey
      exact hkey (heq ▸ mem_map_of_mem (mem_range.mpr hj)))
  have hmove : ∀ f, mappingsOf w' f =
      mappingsOf w f + ((List.range a.npages).map (a.frame w)).count f := fun f => by
    rw [mappingsOf, mappingsOf, hcount, hframes]
  refine ⟨by rw [slotFrame_congr hvmos]; exact h.slotsFinite, hfin, fun f hf => ?_,
    fun key pte hpte => ?_⟩
  · rw [slotsHolding_congr hvmos] at hf
    have ht := h.tracked f hf
    have hused := h.used_tracked hT hf
    have hpos := ht.used_iff
    rw [hused, eq_comm, decide_eq_true_eq] at hpos
    refine ht.moved hs.total ?_ ?_
    · rw [hs.count f hused, slotsHolding_congr hvmos, hmove, ht.count, range_eq_range',
        Nat.sub_zero]
      omega
    · rw [hs.used f hused, hs.count f hused, eq_comm, decide_eq_true_eq]
      omega
  · by_cases hmem : key ∈ l.map Prod.fst
    · rw [hkeys] at hmem
      obtain ⟨j, hj, rfl⟩ := mem_map.mp hmem
      rw [hs.inside j (Nat.zero_le j) (mem_range.mp hj), Option.some.injEq] at hpte
      rw [← hpte]
      exact hs.used _ (hr.inUse j (mem_range.mp hj)).2.1
    · rw [hs.outside key] at hpte
      · exact hs.used _ (h.mapped key pte hpte)
      · intro j _ hj heq
        rw [hkeys] at hmem
        exact hmem (heq ▸ mem_map_of_mem (mem_range.mpr hj))

omit h

omit hT

/-- The populated slots of an object with their frames. -/
def slotsOf (v : ℕ) (pages : List ℕ) : List ((ℕ × ℕ) × ℕ) :=
  ((List.range pages.length).filter fun i => pages.getD i 0 ≠ 0).map fun i =>
    ((v, i), pages.getD i 0 / pageSize)

lemma slotsOf_snd (v : ℕ) (pages : List ℕ) : (slotsOf v pages).map Prod.snd = framesOf pages := by
  have hpages : (List.range pages.length).map (fun i => pages.getD i 0) = pages := by
    apply ext_getElem
    · simp
    · intro i h₁ h₂
      simp [getD_eq_getElem?_getD, h₂]
  rw [slotsOf, framesOf]
  conv_rhs => rw [← hpages]
  rw [filter_map, map_map, map_map]
  rfl

lemma slotsOf_nodup (v : ℕ) (pages : List ℕ) : ((slotsOf v pages).map Prod.fst).Nodup := by
  rw [slotsOf, map_map]
  refine List.Nodup.map (fun i j hij => ?_) (nodup_range.filter _)
  exact (Prod.mk.inj hij).2

lemma slot_setVmo (w : VmoWorld) (v : ℕ) (o : Option Vmo) (u i : ℕ) :
    (w.setVmo v o).slot u i =
      if u = v then (o.bind fun o => o.pages[i]?).getD 0 else w.slot u i := by
  by_cases hu : u = v
  · subst hu
    simp [VmoWorld.slot, VmoWorld.setVmo]
  · simp [VmoWorld.slot, VmoWorld.setVmo, hu]

lemma slotsHolding_setVmo (v : ℕ) (o : Vmo) (h : FinitelyMany (slotFrame (w.setVmo v none))) :
    FinitelyMany (slotFrame (w.setVmo v (some o))) ∧ ∀ f,
      slotsHolding (w.setVmo v (some o)) f =
        slotsHolding (w.setVmo v none) f + (framesOf o.pages).count f := by
  have hmem : ∀ x ∈ slotsOf v o.pages, ∃ i, x = ((v, i), o.pages.getD i 0 / pageSize) ∧
      o.pages.getD i 0 ≠ 0 := by
    intro x hx
    obtain ⟨i, hi, rfl⟩ := mem_map.mp hx
    exact ⟨i, rfl, by simpa using (mem_filter.mp hi).2⟩
  rw [← slotsOf_snd v]
  apply refs_extend h (slotsOf_nodup v o.pages)
  · intro x hx
    obtain ⟨i, rfl, hi⟩ := hmem x hx
    simp [slotFrame, slot_setVmo]
  · intro x hx
    obtain ⟨i, rfl, hi⟩ := hmem x hx
    rw [getD_eq_getElem?_getD] at hi
    simp [slotFrame, slot_setVmo, hi]
  · rintro ⟨u, i⟩ hout
    rw [slotFrame, slotFrame, slot_setVmo, slot_setVmo]
    by_cases hu : u = v
    · subst hu
      have hzero : o.pages.getD i 0 = 0 := by
        by_contra hne
        apply hout
        rw [mem_map]
        refine ⟨((u, i), o.pages.getD i 0 / pageSize), ?_, rfl⟩
        refine mem_map.mpr ⟨i, mem_filter.mpr ⟨mem_range.mpr ?_, by simpa using hne⟩, rfl⟩
        by_contra hlen
        exact hne (by simp [getD_eq_getElem?_getD, getElem?_eq_none (not_lt.mp hlen)])
      rw [getD_eq_getElem?_getD] at hzero
      simp [hzero]
    · simp [hu]

lemma FinitelyMany.setVmo_none (h : FinitelyMany (slotFrame w)) (v : ℕ) :
    FinitelyMany (slotFrame (w.setVmo v none)) := by
  apply Set.Finite.subset h
  rintro ⟨u, i⟩ hne hnone
  apply hne
  rw [slotFrame, slot_setVmo]
  by_cases hu : u = v
  · simp [hu]
  · simp only [hu, if_false]
    exact hnone

lemma setVmo_self {o : Option Vmo} (h : w.vmos v = o) : w.setVmo v o = w := by
  rw [VmoWorld.setVmo, ← h, update_eq_self]

/-- References that the running function holds become those of the slots of a new object. -/
lemma Counts.addSlots (h : Counts T w (framesOf o.pages ++ L)) (hv : w.vmos v = none) :
    Counts T (w.setVmo v (some o)) L := by
  have hw : w.setVmo v none = w := setVmo_self hv
  obtain ⟨hfin, hslots⟩ := slotsHolding_setVmo v o (by rw [hw]; exact h.slotsFinite)
  rw [hw] at hslots
  refine ⟨hfin, h.ptesFinite, fun f hf => ?_, h.mapped⟩
  have ht := h.tracked f (by
    rcases hf with hf | hf | hf
    · exact .inl hf
    · rw [hslots] at hf
      by_cases hzero : 0 < slotsHolding w f
      · exact .inr (.inl hzero)
      · exact .inr (.inr (mem_append_left _ (count_pos_iff.mp (by omega))))
    · exact .inr (.inr (mem_append_right _ hf)))
  have hc := ht.count
  have hmaps : mappingsOf (w.setVmo v (some o)) f = mappingsOf w f := rfl
  rw [count_append] at hc
  refine ht.moved rfl ?_ ht.used_iff
  rw [hslots f, hmaps]
  exact hc.trans (by omega)

/-- An object goes; the running function holds the references of its slots. -/
lemma Counts.removeSlots (h : Counts T w L) (hv : w.vmos v = some o) :
    Counts T (w.setVmo v none) (framesOf o.pages ++ L) := by
  have hfin := FinitelyMany.setVmo_none h.slotsFinite v
  obtain ⟨-, hslots⟩ := slotsHolding_setVmo v o hfin
  rw [setVmo_self hv] at hslots
  refine ⟨hfin, h.ptesFinite, fun f hf => ?_, h.mapped⟩
  have hs := hslots f
  have ht := h.tracked f (by
    rcases hf with hf | hf | hf
    · exact .inl hf
    · exact .inr (.inl (by omega))
    · rcases mem_append.mp hf with hf | hf
      · have := count_pos_iff.mpr hf
        exact .inr (.inl (by omega))
      · exact .inr (.inr hf))
  have hc := ht.count
  have hmaps : mappingsOf (w.setVmo v none) f = mappingsOf w f := rfl
  refine ht.moved rfl ?_ ht.used_iff
  rw [count_append, hmaps]
  exact hc.trans (by omega)

lemma slot_setVmo_pages (hv : w.vmos v = some o) (hpages : o'.pages = o.pages) (u i : ℕ) :
    (w.setVmo v (some o')).slot u i = w.slot u i := by
  rw [slot_setVmo]
  split_ifs with hu
  · rw [hu, VmoWorld.slot, hv]
    simp [hpages]
  · rfl

include h

lemma Counts.setVmo_pages (hv : w.vmos v = some o) (hpages : o'.pages = o.pages)
    : Counts T (w.setVmo v (some o')) L := by
  refine h.kept ?_ rfl rfl (fun _ hf => hf) (fun _ _ => ⟨rfl, rfl⟩)
  funext k
  rw [slotFrame, slotFrame, slot_setVmo_pages hv hpages]

/-- The entries still map the same frames, and the allocator has not changed. -/
lemma Counts.remapped (hvmos : w'.vmos = w.vmos) (hpmm : w'.mmu.pmm = w.mmu.pmm)
    (hptes : ∀ key, (w'.mmu.ptes key).map Pte.phys = (w.mmu.ptes key).map Pte.phys) :
    Counts T w' L := by
  refine h.kept (slotFrame_congr hvmos) ?_ (by rw [hpmm]) (fun f hf => by rw [hpmm]; exact hf)
    (fun f _ => by rw [hpmm]; exact ⟨rfl, rfl⟩)
  funext key
  have hmap : ∀ x : Option Pte, x.map Pte.frame = (x.map Pte.phys).map (· / pageSize) := by
    intro x
    rw [Option.map_map]
    rfl
  rw [pteFrame, pteFrame, hmap, hmap, hptes]

lemma Counts.framesOf_held (hv : w.vmos v = some o) :
    ∀ f ∈ framesOf o.pages, 0 < slotsHolding w f := by
  intro f hf
  obtain ⟨page, hpage, rfl⟩ := mem_map.mp hf
  obtain ⟨hmem, hne⟩ := mem_filter.mp hpage
  obtain ⟨i, hi, rfl⟩ := mem_iff_getElem.mp hmem
  have hslot : w.slot v i = o.pages[i] := by
    rw [VmoWorld.slot, hv]
    simp [hi]
  rw [← hslot] at hne ⊢
  exact h.slotsHolding_pos (of_decide_eq_true hne)

end Counts

end GrahaOS.VmoCounts
