import GrahaOS.VmoRefs

/-!
# What can be read through a virtual memory object

A frame is visible through an object when one of its page slots holds it, or when an entry of one of
its mappings maps it. `Effect` says what an operation through one object does to what is visible
through it and through another one. The lemmas are about operations that give no last reference up
and do not need the reference counts to be exact.
-/

namespace GrahaOS.VmoCow

open PageFrames PageTables VmObjects VmoCounts VmoRefs Function Option

/-- The entry of a page of a mapping of the object. -/
def EntryOf (w : VmoWorld) (x : ℕ) (key : PteKey) : Prop :=
  ∃ mk m cr3 p, w.maps mk = some m ∧ m.vmo = x ∧ cr3Of w mk.1 = some cr3 ∧ p < m.lenPages ∧
    key = m.key cr3 p

/-- The frames that can be read through an object: by its mappings, or by a mapping of a page
slot that is made later. -/
def Visible (w : VmoWorld) (x f : ℕ) : Prop :=
  (∃ i, w.slot x i ≠ 0 ∧ w.slot x i / pageSize = f) ∨
    ∃ key pte, EntryOf w x key ∧ w.mmu.ptes key = some pte ∧ pte.frame = f

/-- What can be read through the object is the same in both states. -/
structure SameView (y : ℕ) (w w' : VmoWorld) : Prop where
  slots : ∀ i, w'.slot y i = w.slot y i
  entries : ∀ key, EntryOf w' y key ↔ EntryOf w y key
  ptes : ∀ key, EntryOf w y key → w'.mmu.ptes key = w.mmu.ptes key
  mem : ∀ f, Visible w y f → w'.mmu.mem f = w.mmu.mem f

lemma SameView.refl (y : ℕ) (w : VmoWorld) : SameView y w w :=
  ⟨fun _ => rfl, fun _ => Iff.rfl, fun _ _ => rfl, fun _ _ => rfl⟩

lemma SameView.visible {y f : ℕ} {w w' : VmoWorld} (h : SameView y w w') (hf : Visible w' y f) :
    Visible w y f := by
  rcases hf with ⟨i, hne, hframe⟩ | ⟨key, pte, hkey, hpte, hframe⟩
  · rw [h.slots] at hne hframe
    exact .inl ⟨i, hne, hframe⟩
  · have hold := (h.entries key).mp hkey
    rw [h.ptes key hold] at hpte
    exact .inr ⟨key, pte, hold, hpte, hframe⟩

/-- Writable entries of the one object do not map what can be read through the other. -/
def Apart (w : VmoWorld) (x y : ℕ) : Prop :=
  ∀ key pte, EntryOf w x key → w.mmu.ptes key = some pte → userWritable pte →
    ¬ Visible w y pte.frame

/-- The structures of the memory manager are consistent with each other. References need not be
counted exactly. -/
structure Sound (w : VmoWorld) : Prop where
  fresh : ∀ v, w.nextId ≤ v → w.vmos v = none
  shape : ∀ v o, w.vmos v = some o → o.refcount < 2 ^ 32 ∧ o.pages.length ≤ 65536
  slots : ∀ v i, w.slot v i ≠ 0 → InUse w.mmu.pmm (w.slot v i / pageSize)
  entries : ∀ key pte, w.mmu.ptes key = some pte → w.mmu.pmm.used pte.frame
  spaces : ∀ pid cr3, cr3Of w pid = some cr3 → cr3 ≠ 0
  /-- A mapping covers populated page slots, and its entries are present. -/
  mapping : ∀ mk m, w.maps mk = some m → mk ∈ mapKeys ∧ w.vmos m.vmo ≠ none ∧
    m.vaddr % pageSize = 0 ∧ m.lenPages ≤ 65536 ∧ ∃ cr3, cr3Of w mk.1 = some cr3 ∧
      ∀ p < m.lenPages, m.slot w p ≠ 0 ∧ w.mmu.ptes (m.key cr3 p) ≠ none ∧
        HasTables w.mmu cr3 (m.vaddr + p * pageSize)
  /-- No entry belongs to two mappings. -/
  disjoint : ∀ mk mk' m m' cr3 cr3' p p', w.maps mk = some m → w.maps mk' = some m' →
    cr3Of w mk.1 = some cr3 → cr3Of w mk'.1 = some cr3' → p < m.lenPages → p' < m'.lenPages →
    m.key cr3 p = m'.key cr3' p' → mk = mk'

/-- Nothing in use is given back. -/
structure Quiet (w w' : VmoWorld) : Prop where
  nextId : w'.nextId = w.nextId
  cr3 : ∀ pid, cr3Of w' pid = cr3Of w pid
  used : ∀ f, w.mmu.pmm.used f → w'.mmu.pmm.used f
  inUse : ∀ f, InUse w.mmu.pmm f → InUse w'.mmu.pmm f
  tables : ∀ key, w.mmu.tables key → w'.mmu.tables key

section Sound

variable {w w' : VmoWorld} {x y cr3 : ℕ} {mk : ℕ × ℕ} {m : Mapping}

variable (h : Sound w)
include h

lemma Sound.entry_present {key : PteKey} (hkey : EntryOf w x key) :
    ∃ pte, w.mmu.ptes key = some pte := by
  obtain ⟨mk, m, cr3, p, hm, -, hcr3, hp, rfl⟩ := hkey
  obtain ⟨-, -, -, -, c, hc, hpages⟩ := h.mapping mk m hm
  obtain rfl : cr3 = c := mem_unique hcr3 hc
  exact ne_none_iff_exists'.mp (hpages p hp).2.1

lemma Sound.mapped {p : ℕ} (hm : w.maps mk = some m) (hcr3 : cr3Of w mk.1 = some cr3)
    (hp : p < m.lenPages) : w.mmu.ptes (m.key cr3 p) ≠ none := by
  obtain ⟨pte, hpte⟩ := h.entry_present ⟨mk, m, cr3, p, hm, rfl, hcr3, hp, rfl⟩
  rw [hpte]
  exact some_ne_none pte

lemma Sound.visible_used {f : ℕ} (hf : Visible w x f) : w.mmu.pmm.used f := by
  rcases hf with ⟨i, hne, rfl⟩ | ⟨key, pte, -, hpte, rfl⟩
  · exact (h.slots x i hne).2.1
  · exact h.entries key pte hpte

lemma Sound.keep (hq : Quiet w w') (hlive : ∀ v, w'.vmos v = none ↔ w.vmos v = none)
    (hshape : ∀ v o, w'.vmos v = some o → o.refcount < 2 ^ 32 ∧ o.pages.length ≤ 65536)
    (hslots : ∀ v i, (w'.slot v i ≠ 0 ↔ w.slot v i ≠ 0) ∧
      (w'.slot v i ≠ w.slot v i → InUse w'.mmu.pmm (w'.slot v i / pageSize)))
    (hptes : ∀ key pte, w'.mmu.ptes key = some pte → w'.mmu.pmm.used pte.frame)
    (hmaps : ∀ mk m, w'.maps mk = some m → w.maps mk = some m ∧ ∀ cr3 p,
      cr3Of w mk.1 = some cr3 → p < m.lenPages → w'.mmu.ptes (m.key cr3 p) ≠ none) :
    Sound w' where
  fresh := fun v hv => (hlive v).mpr (h.fresh v (hq.nextId.symm.trans_le hv))
  shape := hshape
  slots := fun v i hne => by
    by_cases heq : w'.slot v i = w.slot v i
    · rw [heq] at hne ⊢
      exact hq.inUse _ (h.slots v i hne)
    · exact (hslots v i).2 heq
  entries := hptes
  spaces := fun pid cr3 hcr3 => h.spaces pid cr3 ((hq.cr3 pid).symm.trans hcr3)
  mapping := fun mk m hm => by
    obtain ⟨hold, hpresent⟩ := hmaps mk m hm
    obtain ⟨hkey, hobj, hvaddr, hlen, cr3, hcr3, hpages⟩ := h.mapping mk m hold
    refine ⟨hkey, fun hnone => hobj ((hlive _).mp hnone), hvaddr, hlen, cr3,
      (hq.cr3 _).trans hcr3, fun p hp => ?_⟩
    exact ⟨((hslots _ _).1).mpr (hpages p hp).1, hpresent cr3 p hcr3 hp,
      (hpages p hp).2.2.mono hq.tables⟩
  disjoint := fun mk mk' m m' cr3 cr3' p p' hm hm' ht ht' => by
    rw [hq.cr3] at ht ht'
    exact h.disjoint mk mk' m m' cr3 cr3' p p' (hmaps mk m hm).1 (hmaps mk' m' hm').1 ht ht'

/-- A mapping is added over entries that no other mapping has. -/
lemma Sound.addMap (hkey : mk ∈ mapKeys) (hobj : w.vmos m.vmo ≠ none)
    (hvaddr : m.vaddr % pageSize = 0) (hlen : m.lenPages ≤ 65536)
    (hcr3 : cr3Of w mk.1 = some cr3)
    (hpages : ∀ p < m.lenPages, m.slot w p ≠ 0 ∧ w.mmu.ptes (m.key cr3 p) ≠ none ∧
      HasTables w.mmu cr3 (m.vaddr + p * pageSize))
    (hnew : ∀ v p, p < m.lenPages → ¬ EntryOf w v (m.key cr3 p)) :
    Sound (w.setMap mk (some m)) := by
  have hlook : ∀ mk' m', (w.setMap mk (some m)).maps mk' = some m' →
      mk' = mk ∧ m' = m ∨ w.maps mk' = some m' := fun mk' m' hm' =>
    (maps_setMap_cases hm').imp (fun ⟨hmk, heq⟩ => ⟨hmk, (some.inj heq).symm⟩) And.right
  refine ⟨h.fresh, h.shape, h.slots, h.entries, h.spaces, fun mk' m' hm' => ?_, ?_⟩
  · rcases hlook mk' m' hm' with ⟨rfl, rfl⟩ | hold
    · exact ⟨hkey, hobj, hvaddr, hlen, cr3, hcr3, hpages⟩
    · exact h.mapping mk' m' hold
  intro mk₁ mk₂ m₁ m₂ c₁ c₂ p₁ p₂ hm₁ hm₂ ht₁ ht₂ hp₁ hp₂ heq
  rcases hlook mk₁ m₁ hm₁ with ⟨rfl, rfl⟩ | hold₁
  · rcases hlook mk₂ m₂ hm₂ with ⟨rfl, rfl⟩ | hold₂
    · rfl
    · obtain rfl : cr3 = c₁ := mem_unique hcr3 ht₁
      exact absurd ⟨mk₂, m₂, c₂, p₂, hold₂, rfl, ht₂, hp₂, heq⟩ (hnew m₂.vmo p₁ hp₁)
  · rcases hlook mk₂ m₂ hm₂ with ⟨rfl, rfl⟩ | hold₂
    · obtain rfl : cr3 = c₂ := mem_unique hcr3 ht₂
      exact absurd ⟨mk₁, m₁, c₁, p₁, hold₁, rfl, ht₁, hp₁, heq.symm⟩ (hnew m₁.vmo p₂ hp₂)
    · exact h.disjoint mk₁ mk₂ m₁ m₂ c₁ c₂ p₁ p₂ hold₁ hold₂ ht₁ ht₂ hp₁ hp₂ heq

end Sound

/-- What is read through the object in the second state was read through it in the first, or is
stored through it by the operation. -/
def OwnView (x : ℕ) (op : VmoOp) (w w' : VmoWorld) : Prop :=
  ∀ f, Visible w' x f → ∃ g, Visible w x g ∧ (w'.mmu.mem f = w.mmu.mem g ∨
    ∃ pid va value, op = .store pid va value ∧
      w'.mmu.mem f = Function.update (w.mmu.mem g) (va % pageSize) value)

/-- What an operation through `x` does, seen from `x` and from another object `y`. -/
structure Effect (x y : ℕ) (op : VmoOp) (w w' : VmoWorld) : Prop where
  sound : Sound w'
  live : ∀ v, w'.vmos v = none ↔ w.vmos v = none
  view : SameView y w w'
  seen : ∀ f, Visible w' x f → Visible w x f ∨ w.mmu.pmm.used f = false
  writes : ∀ key pte, EntryOf w' x key → w'.mmu.ptes key = some pte → userWritable pte →
    EntryOf w x key ∧ w.mmu.ptes key = some pte ∨ ¬ Visible w y pte.frame
  own : OwnView x op w w'

section Effects

variable {w w' w₁ : VmoWorld} {x y v cr3 : ℕ} {op : VmoOp} {o : Vmo} {m : Mmu} {mk : ℕ × ℕ}
  {value : BitVec 8}

lemma Effect.refl (op : VmoOp) (x y : ℕ) (h : Sound w) : Effect x y op w w where
  sound := h
  live := fun _ => Iff.rfl
  view := SameView.refl y w
  seen := fun _ hf => .inl hf
  writes := fun _ _ hkey hpte _ => .inl ⟨hkey, hpte⟩
  own := fun f hf => ⟨f, hf, .inl rfl⟩

/-- The writable entries of `x` still do not map what is visible through `y`. -/
lemma Effect.apart (he : Effect x y op w w') (h : Apart w x y) : Apart w' x y := by
  intro key pte hkey hpte hw hvis
  have hvis := he.view.visible hvis
  rcases he.writes key pte hkey hpte hw with ⟨hold, hpte'⟩ | hnot
  · exact h key pte hold hpte' hw hvis
  · exact hnot hvis

/-- The writable entries of `y` do not map the frames that are new to `x`: those were free. -/
lemma Effect.apart_other (he : Effect x y op w w') (hs : Sound w) (h : Apart w y x) :
    Apart w' y x := by
  intro key pte hkey hpte hw hvis
  have hold := (he.view.entries key).mp hkey
  rw [he.view.ptes key hold] at hpte
  rcases he.seen _ hvis with hvis | hfree
  · exact h key pte hold hpte hw hvis
  · have hused := hs.entries key pte hpte
    rw [hfree] at hused
    cases hused

lemma entryOf_congr (hmaps : w'.maps = w.maps) (hcr3 : ∀ pid, cr3Of w' pid = cr3Of w pid)
    (key : PteKey) : EntryOf w' x key ↔ EntryOf w x key := by
  simp only [EntryOf, hmaps, hcr3]

/-- The page slots and the contents of what is in use stay as they are. An entry of `x` is an old
one, or maps a page slot and lets nobody write what is visible through `y`. -/
lemma effect_of_entries (h : Sound w) (hsound : Sound w') (hslot : ∀ v i, w'.slot v i = w.slot v i)
    (hlive : ∀ v, w'.vmos v = none ↔ w.vmos v = none)
    (hview : ∀ key, EntryOf w' y key ↔ EntryOf w y key)
    (hptes : ∀ key, EntryOf w y key → w'.mmu.ptes key = w.mmu.ptes key)
    (hmem : ∀ f, w.mmu.pmm.used f → w'.mmu.mem f = w.mmu.mem f)
    (hentries : ∀ key pte, EntryOf w' x key → w'.mmu.ptes key = some pte →
      EntryOf w x key ∧ w.mmu.ptes key = some pte ∨
        (∃ i, w.slot x i ≠ 0 ∧ w.slot x i / pageSize = pte.frame) ∧
          (userWritable pte → ¬ Visible w y pte.frame)) : Effect x y op w w' := by
  have hvisible : ∀ f, Visible w' x f → Visible w x f := by
    rintro f (⟨i, hne, hframe⟩ | ⟨key, pte, hkey, hpte, rfl⟩)
    · rw [hslot] at hne hframe
      exact .inl ⟨i, hne, hframe⟩
    · rcases hentries key pte hkey hpte with ⟨hold, hpte⟩ | ⟨hseen, -⟩
      · exact .inr ⟨key, pte, hold, hpte, rfl⟩
      · exact .inl hseen
  refine ⟨hsound, hlive, ⟨hslot y, hview, hptes, fun f hf => hmem f (h.visible_used hf)⟩,
    fun f hf => .inl (hvisible f hf), fun key pte hkey hpte hw => ?_, fun f hf => ?_⟩
  · exact (hentries key pte hkey hpte).imp_right fun hnew => hnew.2 hw
  · have hf := hvisible f hf
    exact ⟨f, hf, .inl (hmem f (h.visible_used hf))⟩

lemma effect_of_grown (h : Sound w) (hg : Grown w.mmu m) : Effect x y op w { w with mmu := m } := by
  obtain ⟨w', hw'⟩ : ∃ w' : VmoWorld, w' = { w with mmu := m } := ⟨_, rfl⟩
  have hvmos : w'.vmos = w.vmos := by rw [hw']
  have hmaps : w'.maps = w.maps := by rw [hw']
  have hcr3 : ∀ pid, cr3Of w' pid = cr3Of w pid := fun pid => by rw [hw']; rfl
  have hptes : w'.mmu.ptes = w.mmu.ptes := by rw [hw']; exact hg.ptes
  have hslot := slot_congr hvmos
  have hentry : ∀ z key, EntryOf w' z key ↔ EntryOf w z key := fun z => entryOf_congr hmaps hcr3
  have hquiet : Quiet w w' := by
    rw [hw']
    refine ⟨rfl, fun _ => rfl, hg.keeps.used, fun f hf => ?_, hg.tables⟩
    exact ⟨hf.1.trans_eq hg.keeps.total.symm, hg.keeps.used f hf.2.1,
      hf.2.2.trans_eq (hg.keeps.refcounts f hf.2.1).symm⟩
  rw [← hw']
  refine effect_of_entries h ?_ hslot (fun v => by rw [hvmos]) (hentry y) (fun _ _ => by rw [hptes])
    (by rw [hw']; exact hg.mem) fun key pte hkey hpte => ?_
  · refine h.keep hquiet (fun v => by rw [hvmos]) (fun v o hv => ?_) (fun v i => ?_)
      (fun key pte hpte => ?_) (fun mk m hm => ?_)
    · rw [hvmos] at hv
      exact h.shape v o hv
    · rw [hslot]
      exact ⟨Iff.rfl, fun hne => absurd rfl hne⟩
    · rw [hptes] at hpte
      exact hquiet.used _ (h.entries key pte hpte)
    · rw [hmaps] at hm
      refine ⟨hm, fun cr3 p hcr3 hp => ?_⟩
      rw [hptes]
      exact h.mapped hm hcr3 hp
  · rw [hptes] at hpte
    exact .inl ⟨(hentry x key).mp hkey, hpte⟩

/-- The objects are those of before, up to their counts of references. -/
structure SameObjects (w w' : VmoWorld) : Prop where
  slot : ∀ v i, w'.slot v i = w.slot v i
  live : ∀ v, w'.vmos v = none ↔ w.vmos v = none
  shape : ∀ v o, w'.vmos v = some o → o.refcount < 2 ^ 32 ∧ o.pages.length ≤ 65536

lemma sameObjects_setVmo {r : ℕ} (h : Sound w) (hvmos : w'.vmos = w.vmos) (hv : w.vmos v = some o)
    (hr : r < 2 ^ 32) : SameObjects w (w'.setVmo v (some { o with refcount := r })) where
  slot := fun v' i => by
    rw [slot_setVmo_pages (hvmos ▸ hv) (by rfl)]
    exact slot_congr hvmos v' i
  live := fun v' => by
    by_cases hv' : v' = v
    · rw [hv', vmos_setVmo_self, hv]
      simp
    · rw [vmos_setVmo_of_ne _ hv', hvmos]
  shape := fun v' o' ho' => by
    rcases vmos_setVmo_cases ho' with ⟨rfl, heq⟩ | ⟨-, hold⟩
    · rw [← some.inj heq]
      exact ⟨hr, (h.shape _ o hv).2⟩
    · exact h.shape v' o' (hvmos ▸ hold)

lemma entryOf_setMap {m : Mapping} (hfree : w.maps mk = none) (hcr3 : cr3Of w mk.1 = some cr3)
    (key : PteKey) :
    EntryOf (w.setMap mk (some m)) x key ↔
      EntryOf w x key ∨ m.vmo = x ∧ ∃ p < m.lenPages, key = m.key cr3 p := by
  constructor
  · rintro ⟨mk', m', c, p, hm', hx, hc, hp, rfl⟩
    rcases maps_setMap_cases hm' with ⟨rfl, heq⟩ | ⟨-, hold⟩
    · cases heq
      obtain rfl : cr3 = c := mem_unique hcr3 hc
      exact .inr ⟨hx, p, hp, rfl⟩
    · exact .inl ⟨mk', m', c, p, hold, hx, hc, hp, rfl⟩
  · rintro (⟨mk', m', c, p, hm', hx, hc, hp, rfl⟩ | ⟨hx, p, hp, rfl⟩)
    · have hne : mk' ≠ mk := by
        rintro rfl
        rw [hfree] at hm'
        cases hm'
      exact ⟨mk', m', c, p, by rw [maps_setMap_of_ne _ hne]; exact hm', hx, hc, hp, rfl⟩
    · exact ⟨mk, m, cr3, p, maps_setMap_self .., hx, hcr3, hp, rfl⟩

variable (op) in
/-- A range of the page slots of an object is mapped. Where the entries are writable, no frame
of the range is visible through `y`. -/
lemma effect_of_mapped {a : MapArgs} {s offset : ℕ} {prot : Prot} (hy : a.vmo ≠ y) (h : Sound w)
    (hi : Installed a offset prot o s m w w') (hvaddr : a.vaddr % pageSize = 0)
    (hwrite : a.pteFlags.writable → ∀ p < a.npages, ¬ Visible w y (a.frame w p)) :
    Effect a.vmo y op w w' := by
  obtain ⟨hr, hs, hv, hrefs, hkey, hfree, htask, hstart, rfl⟩ := hi
  obtain ⟨w₁, hw₁⟩ : ∃ w₁ : VmoWorld, w₁ = { w with mmu := m } := ⟨_, rfl⟩
  rw [← hw₁]
  obtain ⟨w₂, hw₂⟩ : ∃ w₂, w₂ = w₁.setVmo a.vmo (some { o with refcount := o.refcount + 1 }) :=
    ⟨_, rfl⟩
  obtain ⟨hslot, hlive, hshape⟩ : SameObjects w w₂ :=
    hw₂ ▸ sameObjects_setVmo h (by rw [hw₁]) hv hrefs
  have hmaps : w₂.maps = w.maps := by rw [hw₂, hw₁]; rfl
  have hcr3 : ∀ pid, cr3Of w₂ pid = cr3Of w pid := fun pid => by rw [hw₂, hw₁]; rfl
  have hmmu : w₂.mmu = m := by rw [hw₂, hw₁]; rfl
  -- an entry that a mapping has was present, so it is not in the range
  have hout : ∀ z key, EntryOf w z key → m.ptes key = w.mmu.ptes key := by
    intro z key hent
    obtain ⟨pte, hpte⟩ := h.entry_present hent
    refine hs.outside key fun j _ hj heq => ?_
    rw [heq, hr.unmapped j hj] at hpte
    cases hpte
  have hquiet : Quiet w w₂ := by
    refine ⟨by rw [hw₂, hw₁]; rfl, hcr3, by rw [hmmu]; exact hs.used, fun f hf => ?_,
      by rw [hmmu]; exact hs.tables⟩
    rw [hmmu]
    refine ⟨hf.1.trans_eq hs.total.symm, hs.used f hf.2.1, ?_⟩
    rw [hs.count f hf.2.1]
    exact Nat.add_pos_left hf.2.2 _
  have hentries : ∀ key pte, w₂.mmu.ptes key = some pte → w.mmu.ptes key = some pte ∨
      ∃ p < a.npages, key = a.key p ∧ pte = a.entry w p := by
    intro key pte hpte
    rw [hmmu] at hpte
    by_cases hin : ∃ p < a.npages, key = a.key p
    · obtain ⟨p, hp, rfl⟩ := hin
      rw [hs.inside p (Nat.zero_le _) hp] at hpte
      exact .inr ⟨p, hp, rfl, (some.inj hpte).symm⟩
    · rw [hs.outside key fun j _ hj heq => hin ⟨j, hj, heq⟩] at hpte
      exact .inl hpte
  have hsound : Sound w₂ := by
    refine h.keep hquiet hlive hshape (fun v i => ?_) (fun key pte hpte => ?_) (fun mk mp hmp => ?_)
    · rw [hslot]
      exact ⟨Iff.rfl, fun hne => absurd rfl hne⟩
    · apply hquiet.used
      rcases hentries key pte hpte with hold | ⟨p, hp, -, rfl⟩
      · exact h.entries key pte hold
      · exact (hr.inUse p hp).2.1
    · rw [hmaps] at hmp
      refine ⟨hmp, fun cr3 p hc hp => ?_⟩
      rw [hmmu, hout _ _ ⟨mk, mp, cr3, p, hmp, rfl, hc, hp, rfl⟩]
      exact h.mapped hmp hc hp
  have hfree₂ : w₂.maps (a.pid, s) = none := by rw [hmaps]; exact hfree
  have htask₂ : cr3Of w₂ a.pid = some a.cr3 := (hcr3 _).trans htask
  have hentry : ∀ z key, EntryOf (w₂.setMap (a.pid, s)
      (some ⟨a.vaddr, a.vmo, offset, a.npages, prot⟩)) z key ↔
        EntryOf w z key ∨ a.vmo = z ∧ ∃ p < a.npages, key = a.key p := by
    intro z key
    rw [entryOf_setMap hfree₂ htask₂, entryOf_congr hmaps hcr3]
    rfl
  rw [← hw₂]
  refine effect_of_entries h ?_ hslot hlive (fun key => ?_) (fun key hkey => ?_)
    (by rw [← hmmu] at hs; exact hs.mem) fun key pte hkey hpte => ?_
  · refine hsound.addMap hkey ?_ hvaddr ?_ htask₂ (fun p hp => ⟨?_, ?_, ?_⟩) (fun v p hp hent => ?_)
    · exact fun hnone => some_ne_none o (hv.symm.trans ((hlive _).mp hnone))
    · exact mappable_npages_le hr hv (h.shape a.vmo o hv).2
    · change w₂.slot a.vmo (offset / pageSize + p) ≠ 0
      rw [hslot, ← hstart]
      exact hr.populated p hp
    · change w₂.mmu.ptes (a.key p) ≠ none
      rw [hmmu, hs.inside p (Nat.zero_le _) hp]
      exact some_ne_none _
    · rw [hmmu]
      exact hs.ready p (Nat.zero_le _) hp
    · obtain ⟨pte, hpte⟩ := h.entry_present ((entryOf_congr hmaps hcr3 _).mp hent)
      change w.mmu.ptes (a.key p) = some pte at hpte
      rw [hr.unmapped p hp] at hpte
      cases hpte
  · rw [hentry]
    exact ⟨fun hkey => hkey.resolve_right fun hx => hy hx.1, .inl⟩
  · exact (congrArg (fun u : Mmu => u.ptes key) hmmu).trans (hout y key hkey)
  · rcases hentries key pte hpte with hold | ⟨p, hp, -, rfl⟩
    · rcases (hentry _ _).mp hkey with hkey | ⟨-, p, hp, rfl⟩
      · exact .inl ⟨hkey, hold⟩
      · rw [hr.unmapped p hp] at hold
        cases hold
    · exact .inr ⟨⟨_, hr.populated p hp, rfl⟩, fun hw => hwrite (Bool.and_eq_true_iff.mp hw).2 p hp⟩

lemma vmoUnref_of_shared (hv : w.vmos v = some o) (hrefs : 2 ≤ o.refcount)
    (hlt : o.refcount < 2 ^ 32) :
    vmoUnref w v = w.setVmo v (some { o with refcount := o.refcount - 1 }) := by
  have hcount : (o.refcount + 2 ^ 32 - 1) % 2 ^ 32 = o.refcount - 1 := by omega
  rw [vmoUnref, vmoUnrefAux, hv]
  dsimp only
  rw [hcount, if_neg (by omega)]

/-- The frames lose references, but not their last ones. -/
lemma inUse_of_released {p p' : Pmm} {frames : List ℕ} (hr : Released p p' frames)
    (hmore : ∀ f ∈ frames, InUse p f ∧ frames.count f < p.refcounts f) :
    (∀ f, p'.used f = p.used f) ∧ ∀ f, InUse p f → InUse p' f := by
  have hone : ∀ f ∈ frames, p'.refcounts f = p.refcounts f - frames.count f ∧ p'.used f := by
    intro f hf
    obtain ⟨⟨hlt, hused, -⟩, hcount⟩ := hmore f hf
    obtain ⟨hrefs, hu⟩ := hr.dropped f hf hlt hused hcount.le
    exact ⟨hrefs, by rw [hu]; exact decide_eq_true hcount⟩
  constructor
  · intro f
    by_cases hf : f ∈ frames
    · rw [(hone f hf).2, (hmore f hf).1.2.1]
    · exact (hr.other f hf).1
  · intro f hinUse
    refine ⟨hinUse.1.trans_eq hr.total.symm, ?_⟩
    by_cases hf : f ∈ frames
    · have hcount := (hmore f hf).2
      rw [(hone f hf).1]
      exact ⟨(hone f hf).2, by omega⟩
    · rw [(hr.other f hf).1, (hr.other f hf).2]
      exact hinUse.2

/-- A mapping goes; no frame and no object loses its last reference. -/
lemma effect_of_unmapped {m : Mapping} {frames : List ℕ} (hy : m.vmo ≠ y) (h : Sound w)
    (hm : w.maps mk = some m) (htask : cr3Of w mk.1 = some cr3)
    (hc : Cleared ((List.range m.lenPages).map (m.key cr3)) frames w w₁)
    (hmore : ∀ f ∈ frames, InUse w.mmu.pmm f ∧ frames.count f < w.mmu.pmm.refcounts f)
    (hv : w.vmos m.vmo = some o) (hrefs : 2 ≤ o.refcount) :
    Effect m.vmo y op w (vmoUnref (w₁.setMap mk none) m.vmo) := by
  have hv₁ : (w₁.setMap mk none).vmos m.vmo = some o := by
    change w₁.vmos m.vmo = some o
    rw [hc.vmos]
    exact hv
  have hlt := (h.shape m.vmo o hv).1
  rw [vmoUnref_of_shared hv₁ hrefs hlt]
  obtain ⟨w₂, hw₂⟩ : ∃ w₂, w₂ = (w₁.setMap mk none).setVmo m.vmo
    (some { o with refcount := o.refcount - 1 }) := ⟨_, rfl⟩
  obtain ⟨hslot, hlive, hshape⟩ : SameObjects w w₂ :=
    hw₂ ▸ sameObjects_setVmo h hc.vmos hv ((Nat.sub_le _ _).trans_lt hlt)
  have hmmu : w₂.mmu = w₁.mmu := by rw [hw₂]; rfl
  have hcr3 : ∀ pid, cr3Of w₂ pid = cr3Of w pid := fun pid => by
    rw [hw₂]
    exact hc.cr3 pid
  have hlook : ∀ mk' m', w₂.maps mk' = some m' ↔ mk' ≠ mk ∧ w.maps mk' = some m' := by
    intro mk' m'
    have hmaps : w₂.maps = (w₁.setMap mk none).maps := by rw [hw₂]; rfl
    rw [hmaps, maps_setMap_none, hc.maps]
  -- the entries of another mapping are not among the cleared ones
  have hother : ∀ mk' m' c p, mk' ≠ mk → w.maps mk' = some m' → cr3Of w mk'.1 = some c →
      p < m'.lenPages → w₂.mmu.ptes (m'.key c p) = w.mmu.ptes (m'.key c p) := by
    intro mk' m' c p hne hm' hc' hp
    rw [hmmu]
    refine hc.other _ fun hmem => ?_
    obtain ⟨q, hq, heq⟩ := List.mem_map.mp hmem
    exact hne (h.disjoint mk' mk m' m c cr3 p q hm' hm hc' htask hp (List.mem_range.mp hq) heq.symm)
  have hentry : ∀ z key, EntryOf w₂ z key → EntryOf w z key ∧ w₂.mmu.ptes key = w.mmu.ptes key := by
    rintro z key ⟨mk', m', c, p, hm', hz, hc', hp, rfl⟩
    obtain ⟨hne, hold⟩ := (hlook mk' m').mp hm'
    rw [hcr3] at hc'
    exact ⟨⟨mk', m', c, p, hold, hz, hc', hp, rfl⟩, hother mk' m' c p hne hold hc' hp⟩
  have hstay : ∀ key, EntryOf w y key → EntryOf w₂ y key := by
    rintro key ⟨mk', m', c, p, hm', hz, hc', hp, rfl⟩
    have hne : mk' ≠ mk := by
      rintro rfl
      rw [hm] at hm'
      exact hy (some.inj hm' ▸ hz)
    exact ⟨mk', m', c, p, (hlook mk' m').mpr ⟨hne, hm'⟩, hz, (hcr3 _).trans hc', hp, rfl⟩
  obtain ⟨hused, hinUse⟩ := inUse_of_released hc.released hmore
  have hquiet : Quiet w w₂ := by
    refine ⟨by rw [hw₂]; exact hc.nextId, hcr3, fun f hf => ?_, ?_, fun key hkey => ?_⟩
    · rw [hmmu, hused]
      exact hf
    · rw [hmmu]
      exact hinUse
    · rw [hmmu, hc.tables]
      exact hkey
  rw [← hw₂]
  refine effect_of_entries h ?_ hslot hlive
    (fun key => ⟨fun hkey => (hentry y key hkey).1, hstay key⟩)
    (fun key hkey => (hentry y key (hstay key hkey)).2) (fun f _ => by rw [hmmu, hc.mem])
    fun key pte hkey hpte => ?_
  · refine h.keep hquiet hlive hshape (fun v i => ?_) (fun key pte hpte => ?_) (fun mk' m' hm' => ?_)
    · rw [hslot]
      exact ⟨Iff.rfl, fun hne => absurd rfl hne⟩
    · apply hquiet.used
      by_cases hmem : key ∈ (List.range m.lenPages).map (m.key cr3)
      · rw [hmmu, hc.cleared key hmem] at hpte
        cases hpte
      · rw [hmmu, hc.other key hmem] at hpte
        exact h.entries key pte hpte
    · obtain ⟨hne, hold⟩ := (hlook mk' m').mp hm'
      refine ⟨hold, fun c p hc' hp => ?_⟩
      rw [hother mk' m' c p hne hold hc' hp]
      exact h.mapped hold hc' hp
  · obtain ⟨hold, heq⟩ := hentry _ key hkey
    exact .inl ⟨hold, heq ▸ hpte⟩

lemma effect_of_stored {key : PteKey} {pte : Pte} {pid va : ℕ} (h : Sound w) (hapart : Apart w x y)
    (hkey : EntryOf w x key) (hpte : w.mmu.ptes key = some pte) (hw : userWritable pte) :
    Effect x y (.store pid va value) w (storeByte w pte va value) := by
  have hmem : ∀ f, f ≠ pte.frame → (storeByte w pte va value).mmu.mem f = w.mmu.mem f :=
    fun f hf => update_of_ne hf ..
  refine ⟨?_, fun _ => Iff.rfl, ⟨fun _ => rfl, fun _ => Iff.rfl, fun _ _ => rfl, fun f hf => ?_⟩,
    fun f hf => .inl hf, fun key' pte' hkey' hpte' _ => .inl ⟨hkey', hpte'⟩, fun f hf => ?_⟩
  · exact ⟨h.fresh, h.shape, h.slots, h.entries, h.spaces, h.mapping, h.disjoint⟩
  · exact hmem f fun heq => hapart key pte hkey hpte hw (heq ▸ hf)
  · refine ⟨f, hf, ?_⟩
    by_cases heq : f = pte.frame
    · subst heq
      exact .inr ⟨pid, va, value, rfl, update_self ..⟩
    · exact .inl (hmem f heq)

/-- A page has been copied: the page slot `i` of `x` and the entry have the frame of `page`,
which was free. -/
structure Copied (x i : ℕ) (o : Vmo) (key : PteKey) (flags : PteFlags) (page : ℕ)
    (contents : Page) (w w' : VmoWorld) : Prop where
  vmos : w'.vmos = Function.update w.vmos x (some { o with pages := o.pages.set i page })
  maps : w'.maps = w.maps
  quiet : Quiet w w'
  ptes : w'.mmu.ptes = Function.update w.mmu.ptes key (some ⟨page, flags⟩)
  mem : w'.mmu.mem = Function.update w.mmu.mem (page / pageSize) contents
  ne_zero : page ≠ 0
  free : w.mmu.pmm.used (page / pageSize) = false
  granted : InUse w'.mmu.pmm (page / pageSize)

lemma effect_of_copied {i page : ℕ} {key : PteKey} {flags : PteFlags} {pid va : ℕ}
    (hxy : x ≠ y) (h : Sound w) (hkey : EntryOf w x key)
    (hv : w.vmos x = some o) (hslot : w.slot x i ≠ 0)
    (hc : Copied x i o key flags page
      (update (w.mmu.mem (w.slot x i / pageSize)) (va % pageSize) value) w w') :
    Effect x y (.store pid va value) w w' := by
  have hi : i < o.pages.length := by
    by_contra hge
    exact hslot (slot_eq_zero_of_le hv (not_lt.mp hge))
  have hslots : ∀ v j, w'.slot v j = if v = x ∧ j = i then page else w.slot v j := by
    intro v j
    rw [VmoWorld.slot, hc.vmos]
    by_cases hvx : v = x
    · rw [hvx, update_self, VmoWorld.slot, hv]
      by_cases hji : j = i
      · simp [hji, hi]
      · simp [hji, Ne.symm hji]
    · rw [update_of_ne hvx, if_neg (fun hc => hvx hc.1)]
      rfl
  have hlive : ∀ v, w'.vmos v = none ↔ w.vmos v = none := by
    intro v
    rw [hc.vmos]
    by_cases hvx : v = x
    · rw [hvx, update_self, hv]
      simp
    · rw [update_of_ne hvx]
  have hentry : ∀ z key', EntryOf w' z key' ↔ EntryOf w z key' := fun z key' =>
    entryOf_congr hc.maps hc.quiet.cr3 key'
  have hptes : ∀ key', key' ≠ key → w'.mmu.ptes key' = w.mmu.ptes key' := by
    intro key' hne
    rw [hc.ptes, update_of_ne hne]
  have hself : w'.mmu.ptes key = some ⟨page, flags⟩ := by rw [hc.ptes, update_self]
  have hmem : ∀ f, w.mmu.pmm.used f → w'.mmu.mem f = w.mmu.mem f := by
    intro f hf
    rw [hc.mem, update_of_ne]
    rintro rfl
    rw [hc.free] at hf
    cases hf
  -- what is visible through `x` now was so before, or is the copy
  have hvisible : ∀ f, Visible w' x f → Visible w x f ∨ f = page / pageSize := by
    rintro f (⟨j, hne, hframe⟩ | ⟨key', pte, hkey', hpte, hframe⟩)
    · rw [hslots] at hne hframe
      by_cases hji : j = i
      · rw [if_pos ⟨rfl, hji⟩] at hframe
        exact .inr hframe.symm
      · rw [if_neg (fun hc => hji hc.2)] at hne hframe
        exact .inl (.inl ⟨j, hne, hframe⟩)
    · by_cases hk : key' = key
      · rw [hk, hself] at hpte
        exact .inr (hframe ▸ congrArg Pte.frame (some.inj hpte).symm)
      · rw [hptes key' hk] at hpte
        exact .inl (.inr ⟨key', pte, (hentry x key').mp hkey', hpte, hframe⟩)
  have hnot : ∀ key', EntryOf w y key' → key' ≠ key := by
    rintro key' ⟨mk, m, cr3, p, hm, hy, hcr3, hp, rfl⟩ rfl
    obtain ⟨mk', m', cr3', p', hm', hx, hcr3', hp', heq⟩ := hkey
    obtain rfl := h.disjoint mk mk' m m' cr3 cr3' p p' hm hm' hcr3 hcr3' hp hp' heq
    rw [hm] at hm'
    exact hxy (hx.symm.trans ((some.inj hm').symm ▸ hy))
  refine ⟨?_, hlive, ⟨fun j => ?_, hentry y, fun key' hkey' => hptes key' (hnot key' hkey'),
    fun f hf => hmem f (h.visible_used hf)⟩, fun f hf => ?_, fun key' pte hkey' hpte _ => ?_,
    fun f hf => ?_⟩
  · refine h.keep hc.quiet hlive (fun v o' hv' => ?_) (fun v j => ?_) (fun key' pte hpte => ?_)
      (fun mk m hm => ?_)
    · rw [hc.vmos] at hv'
      by_cases hvx : v = x
      · rw [hvx, update_self] at hv'
        rw [← some.inj hv']
        exact ⟨(h.shape x o hv).1, by rw [List.length_set]; exact (h.shape x o hv).2⟩
      · rw [update_of_ne hvx] at hv'
        exact h.shape v o' hv'
    · rw [hslots]
      split_ifs with hcase
      · exact ⟨by simp [hcase, hslot, hc.ne_zero], fun _ => hc.granted⟩
      · exact ⟨Iff.rfl, fun hne => absurd rfl hne⟩
    · by_cases hk : key' = key
      · rw [hk, hself] at hpte
        rw [← some.inj hpte]
        exact hc.granted.2.1
      · rw [hptes key' hk] at hpte
        exact hc.quiet.used _ (h.entries key' pte hpte)
    · rw [hc.maps] at hm
      refine ⟨hm, fun cr3 p hcr3 hp => ?_⟩
      by_cases hk : m.key cr3 p = key
      · rw [hk, hself]
        exact some_ne_none _
      · rw [hptes _ hk]
        exact h.mapped hm hcr3 hp
  · rw [hslots, if_neg (fun hc => hxy hc.1.symm)]
  · rcases hvisible f hf with hf | rfl
    · exact .inl hf
    · exact .inr hc.free
  · by_cases hk : key' = key
    · rw [hk, hself] at hpte
      refine .inr fun hvis => ?_
      have hused := h.visible_used hvis
      rw [← some.inj hpte] at hused
      change w.mmu.pmm.used (page / pageSize) at hused
      rw [hc.free] at hused
      cases hused
    · rw [hptes key' hk] at hpte
      exact .inl ⟨(hentry x key').mp hkey', hpte⟩
  · rcases hvisible f hf with hf | rfl
    · exact ⟨f, hf, .inl (hmem f (h.visible_used hf))⟩
    · refine ⟨w.slot x i / pageSize, .inl ⟨i, hslot, rfl⟩, .inr ⟨pid, va, value, rfl, ?_⟩⟩
      rw [hc.mem, update_self]

end Effects

/-- The mapping that a user address of a task is in. -/
def mappingAt (w : VmoWorld) (pid va : ℕ) : Option Mapping :=
  (vmoFindMapSlotContaining w pid (pageBase va)).bind fun s => w.maps (pid, s)

section Stores

variable {w : VmoWorld} {pid va p : ℕ} {t : Task} {m : Mapping} {o : Vmo} {pte : Pte}

lemma pteKey_eq_key {cr3 : ℕ} (hp : pageBase va = m.vaddr + p * pageSize) :
    pteKey cr3 va = m.key cr3 p := by
  have hpage : (m.vaddr + p * pageSize) / pageSize = va / pageSize := by
    rw [← hp, pageBase, Nat.mul_div_cancel _ (by decide)]
  rw [Mapping.key, pteKey, pteKey, pageNumber, pageNumber, hpage]

lemma mappingAt_spec (h : Sound w) (hm : mappingAt w pid va = some m) :
    ∃ s p, vmoFindMapSlotContaining w pid (pageBase va) = some s ∧ w.maps (pid, s) = some m ∧
      p < m.lenPages ∧ pageBase va = m.vaddr + p * pageSize := by
  obtain ⟨s, hs, hmap⟩ := bind_eq_some_iff.mp hm
  refine ⟨s, (pageBase va - m.vaddr) / pageSize, hs, hmap, ?_⟩
  obtain ⟨-, -, hvaddr, -⟩ := h.mapping _ m hmap
  have hin : m.vaddr ≤ pageBase va ∧ pageBase va < (m.vaddr + m.lenPages * pageSize) % 2 ^ 64 := by
    rw [vmoFindMapSlotContaining] at hs
    split_ifs at hs with hpid
    have := List.find?_some hs
    rw [hmap] at this
    simpa using this
  have hend : pageBase va < m.vaddr + m.lenPages * pageSize := hin.2.trans_le (Nat.mod_le _ _)
  have hbase : pageBase va % pageSize = 0 := Nat.mul_mod_left ..
  have hsize : pageSize = 4096 := rfl
  rw [hsize] at hvaddr hend hbase ⊢
  omega

/-- What a copy of the page in `frame` needs: the object is a copy-on-write clone, the frame is
shared, the task may have another page and there is a free one. -/
structure Copyable (w : VmoWorld) (t : Task) (o : Vmo) (frame : ℕ) : Prop where
  clone : o.flags.cowChild
  shared : 2 ≤ w.mmu.pmm.refcounts frame
  limit : t.memLimitPages = 0 ∨ t.memPagesUsed + 1 ≤ t.memLimitPages
  noFault : w.mmu.pmm.failNth ≤ 0
  reserved : w.mmu.pmm.used 0
  free : ∃ f < w.mmu.pmm.totalPages, w.mmu.pmm.used f = false

lemma rlimitCheckMem_allowed (ht : w.tasks pid = some t)
    (hlimit : t.memLimitPages = 0 ∨ t.memPagesUsed + 1 ≤ t.memLimitPages) :
    (rlimitCheckMem w pid).1 = true := by
  rw [rlimitCheckMem, ht]
  dsimp only
  split_ifs
  · rfl
  · omega
  · rfl

lemma cowTarget_eq {s i : ℕ} (ht : w.tasks pid = some t)
    (hs : vmoFindMapSlotContaining w pid (pageBase va) = some s)
    (hm : w.maps (pid, s) = some m) (hwrite : m.prot.write) (hv : w.vmos m.vmo = some o)
    (hclone : o.flags.cowChild)
    (hi : (m.offset + (pageBase va - m.vaddr)) / pageSize % 2 ^ 32 = i)
    (hslot : w.slot m.vmo i ≠ 0) : cowTarget w pid va true true true = some (t, m, o, i) := by
  have hpage : o.pages.getD i 0 ≠ 0 := by
    rw [VmoWorld.slot, hv] at hslot
    simpa using hslot
  rw [cowTarget, ht, hs]
  simp only [hm, hwrite, hv, hclone, hi, Bool.and_self, Bool.not_true, Bool.false_eq_true, if_false]
  rw [if_neg hpage]

lemma vmoPfDispatch_copies {i : ℕ} (h : Sound w) (ht : w.tasks pid = some t)
    (hv : w.vmos m.vmo = some o) (hslot : w.slot m.vmo i ≠ 0)
    (htarget : cowTarget w pid va true true true = some (t, m, o, i))
    (htables : HasTables w.mmu t.cr3 (pageBase va))
    (hcopy : Copyable w t o (w.slot m.vmo i / pageSize)) :
    ∃ page w', vmoPfDispatch w pid va true true true = (true, w') ∧
      Copied m.vmo i o (pteKey t.cr3 (pageBase va)) (protToPteFlags m.prot) page
        (w.mmu.mem (w.slot m.vmo i / pageSize)) w w' := by
  have hold : o.pages.getD i 0 = w.slot m.vmo i := by
    rw [VmoWorld.slot, hv]
    simp
  have hallowed := rlimitCheckMem_allowed ht hcopy.limit
  have hlimit := rlimitCheckMem_spec w pid
  obtain ⟨f, hf, hfree⟩ := hcopy.free
  have hpage := pmmAllocPage_ne_zero f hcopy.noFault hcopy.reserved hf hfree
  have hgrant := pmmAllocPage_spec w.mmu.pmm
  rw [vmoPfDispatch, htarget]
  dsimp only
  rw [hold]
  generalize rlimitCheckMem w pid = r at hallowed hlimit ⊢
  obtain ⟨allowed, w₁⟩ := r
  dsimp only at hallowed hlimit ⊢
  rw [hallowed, VmoWorld.allocPage, hlimit.mmu]
  generalize pmmAllocPage w.mmu.pmm = r at hpage hgrant ⊢
  obtain ⟨page, pmm⟩ := r
  dsimp only at hpage hgrant ⊢
  rw [if_neg (by simp), if_neg hpage]
  obtain ⟨w₂, hw₂⟩ : ∃ w₂, w₂ = (((w₁.setPmm pmm).setPage (page / pageSize)
      ((w₁.setPmm pmm).mmu.mem (w.slot m.vmo i / pageSize))).unmapPage t.cr3
        (pageBase va)).pageUnref (w.slot m.vmo i) := ⟨_, rfl⟩
  have htables₂ : HasTables w₂.mmu t.cr3 (pageBase va) := by
    rw [hw₂]
    change HasTables w₁.mmu t.cr3 (pageBase va)
    rw [hlimit.mmu]
    exact htables
  have hv₂ : w₂.vmos m.vmo = some o := by
    rw [hw₂]
    change w₁.vmos m.vmo = some o
    rw [hlimit.vmos]
    exact hv
  rw [← hw₂, VmoWorld.mapPage, vmmMapPageByCr3_of_tables htables₂]
  simp only [VmoWorld.setSlot, hv₂]
  -- the allocator: the new frame was free, and the old one keeps a reference
  have hkeeps := hgrant.keeps
  obtain ⟨hlt, hfree, hused, hone⟩ := hgrant.granted hpage (page / pageSize) le_rfl (by omega)
  have hinUse : ∀ f, InUse w.mmu.pmm f → InUse pmm f := fun f hf =>
    ⟨hf.1.trans_eq hkeeps.total.symm, hkeeps.used f hf.2.1,
      hf.2.2.trans_eq (hkeeps.refcounts f hf.2.1).symm⟩
  have holdUse := h.slots m.vmo i hslot
  obtain ⟨hsame, hstill⟩ := inUse_of_released (pmmFreePage_released pmm hslot) (by
    intro f hf
    obtain rfl := List.mem_singleton.mp hf
    rw [List.count_singleton_self, hkeeps.refcounts _ holdUse.2.1]
    exact ⟨hinUse _ holdUse, hcopy.shared⟩)
  have hpmm : w₂.mmu.pmm = pmmFreePage pmm (w.slot m.vmo i) := by rw [hw₂]; rfl
  refine ⟨page, _, rfl, ?_, ?_, ?_, ?_, ?_, hpage, hfree, ?_⟩
  · rw [hw₂]
    change update w₁.vmos m.vmo _ = _
    rw [hlimit.vmos]
  · rw [hw₂]
    exact hlimit.maps
  · refine ⟨?_, fun q => ?_, fun f hf => ?_, fun f hf => ?_, fun key hkey => ?_⟩
    · rw [hw₂]
      exact hlimit.nextId
    · rw [hw₂]
      exact hlimit.cr3 q
    · change w₂.mmu.pmm.used f
      rw [hpmm, hsame]
      exact hkeeps.used f hf
    · change InUse w₂.mmu.pmm f
      rw [hpmm]
      exact hstill f (hinUse f hf)
    · rw [hw₂]
      change w₁.mmu.tables key
      rw [hlimit.mmu]
      exact hkey
  · rw [hw₂]
    change update (update w₁.mmu.ptes _ _) _ _ = _
    rw [hlimit.mmu, update_idem]
  · rw [hw₂]
    change update w₁.mmu.mem _ (w₁.mmu.mem _) = _
    rw [hlimit.mmu]
  · change InUse w₂.mmu.pmm _
    rw [hpmm]
    exact hstill _ ⟨hlt.trans_eq hkeeps.total.symm, hused, by omega⟩

/-- A store through an entry that does not, to a page that can be copied. -/
lemma userStore_copies (value : BitVec 8) (h : Sound w) (ht : w.tasks pid = some t)
    (hm : mappingAt w pid va = some m) (hwrite : m.prot.write) (hv : w.vmos m.vmo = some o)
    (hpte : vmmGetPte w.mmu t.cr3 va = some pte) (hro : userWritable pte = false)
    (hp : p < m.lenPages) (hbase : pageBase va = m.vaddr + p * pageSize)
    (hcopy : Copyable w t o (m.slot w p / pageSize)) :
    ∃ page w', userStore w pid va value = (true, w') ∧
      Copied m.vmo (m.offset / pageSize + p) o (m.key t.cr3 p) (protToPteFlags m.prot) page
        (update (w.mmu.mem (m.slot w p / pageSize)) (va % pageSize) value) w w' := by
  obtain ⟨s, -, hs, hmap, -, -⟩ := mappingAt_spec h hm
  obtain ⟨-, -, -, -, cr3, hcr3, hpages⟩ := h.mapping _ m hmap
  obtain rfl : t.cr3 = cr3 := by
    rw [cr3Of, ht] at hcr3
    exact some.inj hcr3
  obtain ⟨hslot, -, htables⟩ := hpages p hp
  have hindex : (m.offset + (pageBase va - m.vaddr)) / pageSize % 2 ^ 32 =
      m.offset / pageSize + p := by
    rw [hbase, Nat.add_sub_cancel_left, Nat.add_mul_div_right _ _ (by decide)]
    apply Nat.mod_eq_of_lt
    by_contra hge
    refine hslot (slot_eq_zero_of_le hv ?_)
    have hlen := (h.shape m.vmo o hv).2
    omega
  have htarget := cowTarget_eq ht hs hmap hwrite hv hcopy.clone hindex hslot
  obtain ⟨page, w₁, hfault, hc⟩ := vmoPfDispatch_copies h ht hv hslot htarget
    (hbase ▸ htables) hcopy
  rw [hbase] at hc
  have hkey : pteKey t.cr3 va = m.key t.cr3 p := pteKey_eq_key hbase
  have hnew : vmmGetPte w₁.mmu t.cr3 va = some ⟨page, protToPteFlags m.prot⟩ := by
    rw [vmmGetPte, hkey, hc.ptes]
    exact update_self ..
  have hw : userWritable ⟨page, protToPteFlags m.prot⟩ = true := by
    simp [userWritable, protToPteFlags, hwrite]
  refine ⟨page, storeByte w₁ ⟨page, protToPteFlags m.prot⟩ va value, ?_, ?_⟩
  · rw [userStore, ht]
    dsimp only
    rw [hpte]
    dsimp only
    rw [if_neg (by simp [hro]), hfault]
    dsimp only
    rw [hnew]
    exact if_pos hw
  · refine ⟨hc.vmos, hc.maps, ⟨hc.quiet.nextId, hc.quiet.cr3, hc.quiet.used, hc.quiet.inUse,
      hc.quiet.tables⟩, hc.ptes, ?_, hc.ne_zero, hc.free, hc.granted⟩
    change update w₁.mmu.mem (page / pageSize)
      (update (w₁.mmu.mem (page / pageSize)) (va % pageSize) value) = _
    rw [hc.mem, update_idem, update_self]
    rfl

end Stores

end GrahaOS.VmoCow
