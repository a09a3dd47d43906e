import GrahaOS.VmoCounts

/-!
# What the operations on virtual memory objects do to the counts

`Objects` says what ties objects, mapping tables and page-table entries together; with `Counts` it
is kept by the operations, each under a condition on the state that it starts in.
-/

namespace GrahaOS.VmoRefs

open References PageFrames PageTables VmObjects VmoCounts Function List

/-- What ties objects, mapping tables and entries together. `handles` are the references on
objects that are neither a mapping's nor a clone's. -/
structure Objects (handles : ℕ → ℕ) (w : VmoWorld) : Prop where
  fresh : ∀ v, w.nextId ≤ v → w.vmos v = none
  held : ∀ v, 0 < handles v → w.vmos v ≠ none
  /-- An object has a reference for each handle, mapping and clone. -/
  counted : ∀ v o, w.vmos v = some o →
    o.refcount = handles v + refs (mapObject w) v + refs (parentOf w) v ∧
      0 < o.refcount ∧ o.refcount < 2 ^ 32
  source : ∀ v o src, w.vmos v = some o → o.parent = some src → src < v ∧ w.vmos src ≠ none
  shape : ∀ v o, w.vmos v = some o → o.flags.mmio = false ∧
    (o.flags.contiguous → Contiguous o.pages) ∧ o.pages.length ≤ 65536
  mapsFinite : FinitelyMany (mapObject w)
  /-- The entries of a mapping map the frames of its page slots. -/
  mapping : ∀ mk m, w.maps mk = some m → w.vmos m.vmo ≠ none ∧ m.lenPages ≤ 65536 ∧
    ∃ cr3, cr3Of w mk.1 = some cr3 ∧ ∀ p < m.lenPages, m.slot w p ≠ 0 ∧
      (w.mmu.ptes (m.key cr3 p)).map Pte.phys = some (m.slot w p)
  /-- No entry belongs to two mappings. -/
  disjoint : ∀ mk mk' m m' cr3 cr3' p p', w.maps mk = some m → w.maps mk' = some m' →
    cr3Of w mk.1 = some cr3 → cr3Of w mk'.1 = some cr3' → p < m.lenPages → p' < m'.lenPages →
    m.key cr3 p = m'.key cr3' p' → mk = mk'

/-- One handle more. -/
def withHandle (handles : ℕ → ℕ) (v : ℕ) : ℕ → ℕ := Function.update handles v (handles v + 1)

lemma withHandle_apply (handles : ℕ → ℕ) (v u : ℕ) :
    withHandle handles v u = handles u + if u = v then 1 else 0 := by
  rw [withHandle, update_apply]
  split_ifs with hu
  · rw [hu]
  · rw [Nat.add_zero]

section Objects

variable {handles handles' : ℕ → ℕ} {w w' : VmoWorld} {v cr3 : ℕ} {o : Vmo} {m : Mapping}
  {mk : ℕ × ℕ}

variable (h : Objects handles w)
include h

lemma Objects.parentsFinite : FinitelyMany (parentOf w) := by
  apply (Set.finite_lt_nat w.nextId).subset
  intro u hu
  by_contra hge
  exact hu (by rw [parentOf, h.fresh u (not_lt.mp hge)]; rfl)

omit h

lemma mapObject_congr (h : w'.maps = w.maps) : mapObject w' = mapObject w := by
  funext mk
  rw [mapObject, mapObject, h]

lemma parentOf_congr (h : w'.vmos = w.vmos) : parentOf w' = parentOf w := by
  funext u
  rw [parentOf, parentOf, h]

lemma parentOf_setVmo (w : VmoWorld) (v : ℕ) (x : Option Vmo) :
    parentOf (w.setVmo v x) = update (parentOf w) v (x.bind Vmo.parent) := by
  funext u
  by_cases hu : u = v
  · rw [hu, parentOf, vmos_setVmo_self, update_self]
  · rw [parentOf, vmos_setVmo_of_ne w hu, update_of_ne hu]
    rfl

include h

/-- The clones of an object that is stored, or taken away. -/
lemma Objects.refs_parents (v : ℕ) (x : Option Vmo) (u : ℕ) :
    refs (parentOf (w.setVmo v x)) u + (if (w.vmos v).bind Vmo.parent = some u then 1 else 0) =
      refs (parentOf w) u + if x.bind Vmo.parent = some u then 1 else 0 := by
  rw [parentOf_setVmo]
  exact refs_update h.parentsFinite ..

omit h

lemma slot_setVmo_of_ne (h : m.vmo ≠ v) (x : Option Vmo) (p : ℕ) :
    m.slot (w.setVmo v x) p = m.slot w p := by
  rw [Mapping.slot, slot_setVmo, if_neg h]
  rfl

include h

/-- Only what entries map, and not how, matters to the objects. -/
lemma Objects.congr (hvmos : w'.vmos = w.vmos) (hmaps : w'.maps = w.maps)
    (hnext : w.nextId ≤ w'.nextId) (hcr3 : ∀ pid, cr3Of w' pid = cr3Of w pid)
    (hptes : ∀ key phys, (w.mmu.ptes key).map Pte.phys = some phys →
      (w'.mmu.ptes key).map Pte.phys = some phys) :
    Objects handles w' where
  fresh := fun u hu => by
    rw [hvmos]
    exact h.fresh u (hnext.trans hu)
  held := fun u hu => by
    rw [hvmos]
    exact h.held u hu
  counted := fun u x hx => by
    rw [hvmos] at hx
    rw [mapObject_congr hmaps, parentOf_congr hvmos]
    exact h.counted u x hx
  source := fun u x src hx hsrc => by
    rw [hvmos] at hx ⊢
    exact h.source u x src hx hsrc
  shape := fun u x hx => by
    rw [hvmos] at hx
    exact h.shape u x hx
  mapsFinite := by
    rw [mapObject_congr hmaps]
    exact h.mapsFinite
  mapping := fun mk m hm => by
    rw [hmaps] at hm
    obtain ⟨hlive, hlen, cr3, htask, hpages⟩ := h.mapping mk m hm
    refine ⟨by rw [hvmos]; exact hlive, hlen, cr3, by rw [hcr3]; exact htask, fun p hp => ?_⟩
    have hslot : m.slot w' p = m.slot w p := slot_congr hvmos ..
    rw [hslot]
    exact ⟨(hpages p hp).1, hptes _ _ (hpages p hp).2⟩
  disjoint := fun mk mk' m m' cr3 cr3' p p' hm hm' ht ht' => by
    rw [hmaps] at hm hm'
    rw [hcr3] at ht ht'
    exact h.disjoint mk mk' m m' cr3 cr3' p p' hm hm' ht ht'

lemma Objects.cleared_nil {frames : List ℕ} (hc : Cleared [] frames w w') : Objects handles w' :=
  h.congr hc.vmos hc.maps hc.nextId.ge hc.cr3 fun key phys hphys => by
    rw [hc.other key not_mem_nil]
    exact hphys

/-- An object is stored, or taken away when nothing refers to it. The page slots of mappings stay
as they are. -/
lemma Objects.store {x : Option Vmo} (hnew : x ≠ none → v < w.nextId)
    (hheld : ∀ u, 0 < handles' u → (w.setVmo v x).vmos u ≠ none)
    (hcounted : ∀ u y, (w.setVmo v x).vmos u = some y →
      y.refcount = handles' u + refs (mapObject w) u + refs (parentOf (w.setVmo v x)) u ∧
        0 < y.refcount ∧ y.refcount < 2 ^ 32)
    (hsource : ∀ y src, x = some y → y.parent = some src → src < v ∧ w.vmos src ≠ none)
    (hshape : ∀ y, x = some y → y.flags.mmio = false ∧
      (y.flags.contiguous → Contiguous y.pages) ∧ y.pages.length ≤ 65536)
    (hclones : x = none → ∀ u y, w.vmos u = some y → y.parent ≠ some v)
    (hmaps : ∀ mk m, w.maps mk = some m → (x = none → m.vmo ≠ v) ∧
      ∀ p, m.slot (w.setVmo v x) p = m.slot w p) :
    Objects handles' (w.setVmo v x) := by
  have hlive : ∀ u, w.vmos u ≠ none → (x = none → u ≠ v) → (w.setVmo v x).vmos u ≠ none := by
    intro u hu hx
    by_cases huv : u = v
    · rw [huv, vmos_setVmo_self]
      exact fun hnone => hx hnone huv
    · rw [vmos_setVmo_of_ne w huv]
      exact hu
  refine ⟨fun u hu => ?_, hheld, hcounted, fun u y src hy hsrc => ?_, fun u y hy => ?_,
    h.mapsFinite, fun mk m hm => ?_, h.disjoint⟩
  · by_cases huv : u = v
    · rw [huv, vmos_setVmo_self]
      by_contra hx
      exact absurd (hnew hx) (not_lt.mpr (huv ▸ hu))
    · rw [vmos_setVmo_of_ne w huv]
      exact h.fresh u hu
  · rcases vmos_setVmo_cases hy with ⟨rfl, heq⟩ | ⟨-, hold⟩
    · obtain ⟨hlt, hne⟩ := hsource y src heq hsrc
      exact ⟨hlt, hlive src hne fun _ => hlt.ne⟩
    · obtain ⟨hlt, hne⟩ := h.source u y src hold hsrc
      exact ⟨hlt, hlive src hne fun hx heq => hclones hx u y hold (heq ▸ hsrc)⟩
  · rcases vmos_setVmo_cases hy with ⟨-, heq⟩ | ⟨-, hold⟩
    · exact hshape y heq
    · exact h.shape u y hold
  · obtain ⟨hne, hlen, cr3, htask, hpages⟩ := h.mapping mk m hm
    refine ⟨hlive _ hne (hmaps mk m hm).1, hlen, cr3, htask, fun p hp => ?_⟩
    rw [(hmaps mk m hm).2]
    exact hpages p hp

/-- A reference on an object is taken or given up with a handle. -/
lemma Objects.setRefcount {r : ℕ} (hv : w.vmos v = some o)
    (hother : ∀ u ≠ v, handles' u = handles u) (hr : r + handles v = o.refcount + handles' v)
    (hpos : 0 < r) (hlt : r < 2 ^ 32) :
    Objects handles' (w.setVmo v (some { o with refcount := r })) := by
  obtain ⟨o', ho'⟩ : ∃ o', o' = { o with refcount := r } := ⟨_, rfl⟩
  rw [← ho']
  have hparents : parentOf (w.setVmo v (some o')) = parentOf w := by
    rw [parentOf_setVmo, update_eq_self_iff, parentOf, hv, ho']
    rfl
  refine h.store (fun _ => ?_) (fun u hu => ?_) (fun u x hx => ?_) (fun x src hx hsrc => ?_)
    (fun x hx => ?_) nofun fun mk m hm => ⟨nofun, fun p => slot_setVmo_pages hv (by rw [ho']) ..⟩
  · by_contra hge
    rw [h.fresh v (not_lt.mp hge)] at hv
    cases hv
  · by_cases huv : u = v
    · rw [huv, vmos_setVmo_self]
      exact Option.some_ne_none o'
    · rw [vmos_setVmo_of_ne w huv]
      exact h.held u (by rwa [hother u huv] at hu)
  · rw [hparents]
    rcases vmos_setVmo_cases hx with ⟨rfl, heq⟩ | ⟨hu, hx⟩
    · have := (h.counted u o hv).1
      rw [← Option.some.inj heq, ho']
      exact ⟨by dsimp only; omega, hpos, hlt⟩
    · rw [hother u hu]
      exact h.counted u x hx
  · rw [← Option.some.inj hx, ho'] at hsrc
    exact h.source v o src hv hsrc
  · rw [← Option.some.inj hx, ho']
    exact h.shape v o hv

lemma Objects.ref (hv : w.vmos v = some o) (hlt : o.refcount + 1 < 2 ^ 32) :
    Objects (withHandle handles v) (w.setVmo v (some { o with refcount := o.refcount + 1 })) :=
  h.setRefcount hv (fun u hu => by rw [withHandle_apply, if_neg hu, Nat.add_zero])
    (by rw [withHandle_apply, if_pos rfl]; omega) (Nat.succ_pos _) hlt

omit h

lemma Objects.addMap (h : Objects (withHandle handles m.vmo) w) (hfree : w.maps mk = none)
    (hlen : m.lenPages ≤ 65536) (htask : cr3Of w mk.1 = some cr3)
    (hpages : ∀ p < m.lenPages, m.slot w p ≠ 0 ∧
      (w.mmu.ptes (m.key cr3 p)).map Pte.phys = some (m.slot w p))
    (hnew : ∀ mk' m' cr3' p p', w.maps mk' = some m' → cr3Of w mk'.1 = some cr3' →
      p < m.lenPages → p' < m'.lenPages → m.key cr3 p ≠ m'.key cr3' p') :
    Objects handles (w.setMap mk (some m)) := by
  have hobject : mapObject (w.setMap mk (some m)) = update (mapObject w) mk (some m.vmo) := by
    funext mk'
    by_cases hmk : mk' = mk
    · simp [mapObject, VmoWorld.setMap, hmk]
    · simp [mapObject, VmoWorld.setMap, hmk]
  have hlook : ∀ mk' m', (w.setMap mk (some m)).maps mk' = some m' →
      mk' = mk ∧ m' = m ∨ mk' ≠ mk ∧ w.maps mk' = some m' := fun mk' m' hm' =>
    (maps_setMap_cases hm').imp_left fun ⟨hmk, heq⟩ => ⟨hmk, (Option.some.inj heq).symm⟩
  have hlive : w.vmos m.vmo ≠ none := by
    apply h.held
    rw [withHandle_apply, if_pos rfl]
    omega
  constructor
  · exact h.fresh
  · intro u hu
    apply h.held u
    rw [withHandle_apply]
    omega
  · intro u x hx
    have hcount := h.counted u x hx
    have hp : refs (parentOf (w.setMap mk (some m))) u = refs (parentOf w) u := rfl
    rw [withHandle_apply] at hcount
    rw [hp, hobject, refs_take h.mapsFinite (by rw [mapObject, hfree]; rfl)]
    exact ⟨by omega, hcount.2⟩
  · exact h.source
  · exact h.shape
  · rw [hobject]
    exact h.mapsFinite.update mk _
  · intro mk' m' hm'
    rcases hlook mk' m' hm' with ⟨rfl, rfl⟩ | ⟨-, hm'⟩
    · exact ⟨hlive, hlen, cr3, htask, hpages⟩
    · exact h.mapping mk' m' hm'
  · intro mk₁ mk₂ m₁ m₂ c₁ c₂ p₁ p₂ hm₁ hm₂ ht₁ ht₂ hp₁ hp₂ hkey
    rcases hlook mk₁ m₁ hm₁ with ⟨rfl, rfl⟩ | ⟨-, hold₁⟩
    · rcases hlook mk₂ m₂ hm₂ with ⟨rfl, rfl⟩ | ⟨-, hold₂⟩
      · rfl
      · obtain rfl : cr3 = c₁ := Option.mem_unique htask ht₁
        exact absurd hkey (hnew mk₂ m₂ c₂ p₁ p₂ hold₂ ht₂ hp₁ hp₂)
    · rcases hlook mk₂ m₂ hm₂ with ⟨rfl, rfl⟩ | ⟨-, hold₂⟩
      · obtain rfl : cr3 = c₂ := Option.mem_unique htask ht₂
        exact absurd hkey.symm (hnew mk₁ m₁ c₁ p₂ p₁ hold₁ ht₁ hp₂ hp₁)
      · exact h.disjoint mk₁ mk₂ m₁ m₂ c₁ c₂ p₁ p₂ hold₁ hold₂ ht₁ ht₂ hp₁ hp₂ hkey

include h

/-- A mapping goes, and its entries with it; its reference is a handle now. -/
lemma Objects.removeMap {frames : List ℕ} (hm : w.maps mk = some m)
    (htask : cr3Of w mk.1 = some cr3)
    (hc : Cleared ((List.range m.lenPages).map (m.key cr3)) frames w w') :
    Objects (withHandle handles m.vmo) (w'.setMap mk none) := by
  have hobject : mapObject (w'.setMap mk none) = update (mapObject w) mk none := by
    funext mk'
    by_cases hmk : mk' = mk
    · simp [mapObject, VmoWorld.setMap, hmk]
    · simp [mapObject, VmoWorld.setMap, hmk, hc.maps]
  have hlook : ∀ mk' m', (w'.setMap mk none).maps mk' = some m' →
      mk' ≠ mk ∧ w.maps mk' = some m' := fun mk' m' hm' => hc.maps ▸ maps_setMap_none.mp hm'
  have hcr3 : ∀ pid, cr3Of (w'.setMap mk none) pid = cr3Of w pid := hc.cr3
  have hvmos : (w'.setMap mk none).vmos = w.vmos := hc.vmos
  constructor
  · intro u hu
    rw [hvmos]
    exact h.fresh u (hc.nextId.symm.trans_le hu)
  · intro u hu
    rw [hvmos]
    by_cases huv : u = m.vmo
    · rw [huv]
      exact (h.mapping mk m hm).1
    · rw [withHandle_apply, if_neg huv] at hu
      exact h.held u hu
  · intro u x hx
    rw [hvmos] at hx
    have hcount := h.counted u x hx
    have hdrop := refs_drop h.mapsFinite (show mapObject w mk = some m.vmo by rw [mapObject, hm]; rfl) u
    rw [withHandle_apply, hobject, parentOf_congr hvmos]
    exact ⟨by omega, hcount.2⟩
  · intro u x src hx hsrc
    rw [hvmos] at hx ⊢
    exact h.source u x src hx hsrc
  · intro u x hx
    rw [hvmos] at hx
    exact h.shape u x hx
  · rw [hobject]
    exact h.mapsFinite.update mk _
  · intro mk' m' hm'
    obtain ⟨hne, hm'⟩ := hlook mk' m' hm'
    obtain ⟨hlive, hlen, c, ht, hpages⟩ := h.mapping mk' m' hm'
    refine ⟨by rw [hvmos]; exact hlive, hlen, c, by rw [hcr3]; exact ht, fun p hp => ?_⟩
    have hslot : m'.slot (w'.setMap mk none) p = m'.slot w p := slot_congr hvmos ..
    -- an entry of another mapping is not among the cleared ones
    have hout : m'.key c p ∉ (List.range m.lenPages).map (m.key cr3) := by
      intro hmem
      obtain ⟨q, hq, heq⟩ := mem_map.mp hmem
      exact hne (h.disjoint mk' mk m' m c cr3 p q hm' hm ht htask hp (mem_range.mp hq) heq.symm)
    rw [hslot]
    refine ⟨(hpages p hp).1, ?_⟩
    change (w'.mmu.ptes (m'.key c p)).map Pte.phys = _
    rw [hc.other _ hout]
    exact (hpages p hp).2
  · intro mk₁ mk₂ m₁ m₂ c₁ c₂ p₁ p₂ hm₁ hm₂ ht₁ ht₂
    rw [hcr3] at ht₁ ht₂
    exact h.disjoint mk₁ mk₂ m₁ m₂ c₁ c₂ p₁ p₂ (hlook mk₁ m₁ hm₁).2 (hlook mk₂ m₂ hm₂).2 ht₁ ht₂

/-- A new object: its first reference is a handle, and where it is a clone a handle on the
source becomes its reference. -/
lemma Objects.addObject (hlt : v < w.nextId) (hnone : w.vmos v = none) (hone : o.refcount = 1)
    (hself : handles' v = 1)
    (hother : ∀ u ≠ v, handles' u + (if o.parent = some u then 1 else 0) = handles u)
    (hsource : ∀ src, o.parent = some src → src < v ∧ w.vmos src ≠ none)
    (hshape : o.flags.mmio = false ∧ (o.flags.contiguous → Contiguous o.pages) ∧
      o.pages.length ≤ 65536) :
    Objects handles' (w.setVmo v (some o)) := by
  have hne : ∀ u, w.vmos u ≠ none → u ≠ v := by
    rintro u hu rfl
    exact hu hnone
  have hcount : ∀ u, refs (parentOf (w.setVmo v (some o))) u =
      refs (parentOf w) u + if o.parent = some u then 1 else 0 := by
    intro u
    have hrefs := h.refs_parents v (some o) u
    rw [hnone] at hrefs
    exact hrefs
  -- nothing refers to the new object
  have hclean : refs (mapObject w) v = 0 ∧ refs (parentOf w) v = 0 := by
    constructor
    · by_contra hne
      obtain ⟨mk, hmk⟩ := (refs_pos_iff h.mapsFinite).mp (Nat.pos_of_ne_zero hne)
      obtain ⟨m, hm, hvmo⟩ := Option.map_eq_some_iff.mp hmk
      exact (h.mapping mk m hm).1 (by rw [hvmo]; exact hnone)
    · by_contra hne
      obtain ⟨c, hc⟩ := (refs_pos_iff h.parentsFinite).mp (Nat.pos_of_ne_zero hne)
      obtain ⟨x, hx, hparent⟩ := Option.bind_eq_some_iff.mp hc
      exact (h.source c x v hx hparent).2 hnone
  refine h.store (fun _ => hlt) (fun u hu => ?_) (fun u x hx => ?_) ?_ ?_ nofun
    fun mk m hm => ⟨nofun, slot_setVmo_of_ne (hne _ (h.mapping mk m hm).1) _⟩
  · by_cases huv : u = v
    · rw [huv, vmos_setVmo_self]
      exact Option.some_ne_none o
    · rw [vmos_setVmo_of_ne w huv]
      have := hother u huv
      exact h.held u (by omega)
  · rw [hcount]
    rcases vmos_setVmo_cases hx with ⟨rfl, heq⟩ | ⟨hu, hold⟩
    · cases heq
      have hself' : o.parent ≠ some u := fun hp => (hsource u hp).2 hnone
      rw [hone, hself, hclean.1, hclean.2, if_neg hself']
      exact ⟨rfl, by decide, by decide⟩
    · have hold := h.counted u x hold
      have := hother u hu
      exact ⟨by omega, hold.2⟩
  · rintro x src ⟨⟩
    exact hsource src
  · rintro x ⟨⟩
    exact hshape

omit h

/-- The last reference is a handle, and the object goes; the reference of a clone on its
source is a handle now. -/
lemma Objects.removeObject (h : Objects (withHandle handles v) w) (hv : w.vmos v = some o)
    (hlast : o.refcount = 1) (hself : handles' v = 0)
    (hother : ∀ u ≠ v, handles' u = handles u + if o.parent = some u then 1 else 0) :
    Objects handles' (w.setVmo v none) := by
  have hcounted := (h.counted v o hv).1
  rw [withHandle_apply, if_pos rfl] at hcounted
  -- no mapping and no clone refers to the object
  have hmaps : ∀ mk m, w.maps mk = some m → m.vmo ≠ v := by
    intro mk m hm hvmo
    have hpos : 0 < refs (mapObject w) v :=
      (refs_pos_iff h.mapsFinite).mpr ⟨mk, by rw [mapObject, hm, Option.map_some, hvmo]⟩
    omega
  have hclones : ∀ c x, w.vmos c = some x → x.parent ≠ some v := by
    intro c x hx hparent
    have hpos : 0 < refs (parentOf w) v :=
      (refs_pos_iff h.parentsFinite).mpr ⟨c, by rw [parentOf, hx]; exact hparent⟩
    omega
  have hcount : ∀ u, refs (parentOf (w.setVmo v none)) u +
      (if o.parent = some u then 1 else 0) = refs (parentOf w) u := by
    intro u
    have hrefs := h.refs_parents v none u
    rw [hv] at hrefs
    exact hrefs
  refine h.store (fun hx => absurd rfl hx) (fun u hu => ?_) (fun u x hx => ?_) nofun nofun
    (fun _ => hclones) fun mk m hm => ⟨fun _ => hmaps mk m hm, slot_setVmo_of_ne (hmaps mk m hm) _⟩
  · have huv : u ≠ v := by
      rintro rfl
      omega
    rw [vmos_setVmo_of_ne w huv]
    rw [hother u huv] at hu
    by_cases hparent : o.parent = some u
    · exact (h.source v o u hv hparent).2
    rw [if_neg hparent] at hu
    apply h.held u
    rw [withHandle_apply]
    omega
  · rcases vmos_setVmo_cases hx with ⟨-, heq⟩ | ⟨huv, hx⟩
    · cases heq
    have hold := h.counted u x hx
    have hc := hcount u
    rw [withHandle_apply, if_neg huv] at hold
    rw [hother u huv]
    exact ⟨by omega, hold.2⟩

end Objects

section Unref

variable {T : ℕ → Prop} {w : VmoWorld} {L : List ℕ} {handles : ℕ → ℕ} {v : ℕ} {o o' : Vmo}

/-- A state that counts right: its objects and the references on frames. -/
structure Good (T : ℕ → Prop) (handles : ℕ → ℕ) (w : VmoWorld) (L : List ℕ) : Prop where
  objects : Objects handles w
  counts : Counts T w L

/-- The release of pages works on the allocator alone. -/
def releasePmm (p : Pmm) (o : Vmo) : Pmm :=
  if o.flags.mmio then p
  else if o.flags.contiguous then pmmFreePages p (o.pages.getD 0 0) o.pages.length
  else o.pages.foldl pmmFreePage p

variable (w)

lemma foldl_pageUnref_eq (pages : List ℕ) :
    pages.foldl VmoWorld.pageUnref w = w.setPmm (pages.foldl pmmFreePage w.mmu.pmm) := by
  induction pages generalizing w with
  | nil => rfl
  | cons page pages ih => rw [foldl_cons, ih]; rfl

lemma releasePages_eq (o : Vmo) : releasePages w o = w.setPmm (releasePmm w.mmu.pmm o) := by
  rw [releasePages, releasePmm]
  split_ifs
  · rfl
  · rfl
  · exact foldl_pageUnref_eq w o.pages

lemma releasePages_setVmo (o : Vmo) (v : ℕ) (x : Option Vmo) :
    releasePages (w.setVmo v x) o = (releasePages w o).setVmo v x := by
  rw [releasePages_eq, releasePages_eq]
  rfl

lemma setVmo_setVmo (v : ℕ) (x y : Option Vmo) : (w.setVmo v x).setVmo v y = w.setVmo v y := by
  simp [VmoWorld.setVmo]

lemma setVmo_comm {u : ℕ} (h : u ≠ v) (x y : Option Vmo) :
    (w.setVmo u x).setVmo v y = (w.setVmo v y).setVmo u x := by
  simp only [VmoWorld.setVmo, update_comm h]

/-- Sources are older than their clones. -/
def SourcesOlder : Prop :=
  ∀ v o src, w.vmos v = some o → o.parent = some src → src < v

variable {w}

lemma SourcesOlder.setVmo (h : SourcesOlder w) (hv : w.vmos v = some o)
    (hparent : o'.parent = o.parent) : SourcesOlder (w.setVmo v (some o')) := by
  intro u x src hx hsrc
  rcases vmos_setVmo_cases hx with ⟨rfl, heq⟩ | ⟨-, hold⟩
  · rw [← Option.some.inj heq, hparent] at hsrc
    exact h u o src hv hsrc
  · exact h u x src hold hsrc

/-- `vmo_unref` on an object leaves younger objects alone. -/
lemma vmoUnrefAux_setVmo (fuel : ℕ) {c : ℕ} (h : SourcesOlder w) (hvc : v < c) (x : Option Vmo) :
    vmoUnrefAux fuel (w.setVmo c x) v = (vmoUnrefAux fuel w v).setVmo c x := by
  induction fuel generalizing w v with
  | zero => rfl
  | succ fuel ih =>
  rw [vmoUnrefAux, vmoUnrefAux, vmos_setVmo_of_ne w (by omega)]
  cases hv : w.vmos v with
  | none => rfl
  | some o =>
  dsimp only
  obtain ⟨o', ho'⟩ : ∃ o', o' = { o with refcount := (o.refcount + 2 ^ 32 - 1) % 2 ^ 32 } :=
    ⟨_, rfl⟩
  rw [← ho']
  split_ifs
  · rw [vmoFreeWith, vmoFreeWith, vmos_setVmo_self, vmos_setVmo_self]
    dsimp only
    cases hparent : o'.parent with
    | none =>
      dsimp only
      rw [setVmo_comm _ (by omega), releasePages_setVmo, setVmo_comm _ (by omega)]
    | some src =>
      have hparent' : o.parent = some src := by rw [← hparent, ho']
      have hsrc : src < v := h v o src hv hparent'
      dsimp only
      rw [setVmo_comm _ (by omega),
        ih (h.setVmo hv (by rw [ho'])) (by omega), releasePages_setVmo,
        setVmo_comm _ (by omega)]
  · exact setVmo_comm _ (by omega) ..

variable (h : Good T (withHandle handles v) w L)
include h

/-- `vmo_free` on an object whose only reference is a handle. What `vmo_unref` does to the
source is a parameter: it gives up a handle and leaves younger objects alone. -/
lemma vmoFreeWith_good {unref : VmoWorld → ℕ → VmoWorld} (hv : w.vmos v = some o)
    (hlast : o.refcount = 1)
    (hsame : o' = { o with refcount := o'.refcount })
    (hgood : ∀ {x : VmoWorld} {src : ℕ}, src < v →
      Good T (withHandle handles src) x (framesOf o.pages ++ L) →
      Good T handles (unref x src) (framesOf o.pages ++ L))
    (hyounger : ∀ {x : VmoWorld} {src : ℕ} (y : Option Vmo), src < v → SourcesOlder x →
      unref (x.setVmo v y) src = (unref x src).setVmo v y) :
    Good T handles (vmoFreeWith unref (w.setVmo v (some o')) v) L := by
  have hcounted := (h.objects.counted v o hv).1
  rw [withHandle_apply, if_pos rfl] at hcounted
  have hzero : handles v = 0 := by omega
  obtain ⟨hmmio, hrun, -⟩ := h.objects.shape v o hv
  have hpages : o'.pages = o.pages := by rw [hsame]
  have hparent : o'.parent = o.parent := by rw [hsame]
  have hframes := h.counts.removeSlots hv
  have hrelease : ∀ {x : VmoWorld}, Good T handles x (framesOf o.pages ++ L) →
      Good T handles (releasePages x o') L := by
    intro x hx
    have hc := releasePages_cleared x (o := o') (by rw [hsame]; exact hmmio)
      (by rw [hsame]; exact hrun)
    rw [hpages] at hc
    exact ⟨hx.objects.cleared_nil hc, hx.counts.released hc⟩
  rw [vmoFreeWith, vmos_setVmo_self]
  dsimp only
  rw [hparent]
  cases hsource : o.parent with
  | none =>
    rw [releasePages_setVmo, setVmo_setVmo, ← releasePages_setVmo]
    refine hrelease ⟨h.objects.removeObject hv hlast hzero fun u _ => ?_, hframes⟩
    simp [hsource]
  | some src =>
  have hsrc := (h.objects.source v o src hv hsource).1
  have holder : SourcesOlder (w.setVmo v none) := by
    intro u x p hx hp
    rcases vmos_setVmo_cases hx with ⟨-, heq⟩ | ⟨-, hold⟩
    · cases heq
    · exact (h.objects.source u x p hold hp).1
  dsimp only
  -- the object can go before its source loses the reference
  rw [← setVmo_setVmo w v none, hyounger _ hsrc holder, releasePages_setVmo, setVmo_setVmo,
    ← releasePages_setVmo, ← hyounger _ hsrc holder, setVmo_setVmo]
  refine hrelease (hgood hsrc ⟨h.objects.removeObject hv hlast ?_ fun u hu => ?_, hframes⟩)
  · rw [withHandle_apply, if_neg (by omega), hzero]
  · rw [withHandle_apply, hsource]
    simp only [Option.some.injEq, eq_comm]

omit h

/-- `vmo_unref` gives a handle up; the last one frees the object, its frames and the reference
on its source. -/
theorem vmoUnrefAux_good (fuel : ℕ) (hfuel : v < fuel) (h : Good T (withHandle handles v) w L) :
    Good T handles (vmoUnrefAux fuel w v) L := by
  induction fuel generalizing w v L handles with
  | zero => omega
  | succ fuel ih =>
  have hlive : w.vmos v ≠ none := h.objects.held v (by rw [withHandle_apply, if_pos rfl]; omega)
  obtain ⟨o, hv⟩ := Option.ne_none_iff_exists'.mp hlive
  obtain ⟨hcounted, hpos, hlt⟩ := h.objects.counted v o hv
  have hdec : (o.refcount + 2 ^ 32 - 1) % 2 ^ 32 = o.refcount - 1 := by omega
  rw [vmoUnrefAux, hv]
  dsimp only
  rw [hdec]
  by_cases hlast : o.refcount - 1 = 0
  · rw [if_pos hlast]
    exact vmoFreeWith_good h hv (by omega) rfl (fun hsrc hx => ih (by omega) hx)
      (fun y hsrc hx => vmoUnrefAux_setVmo fuel hx hsrc y)
  · rw [if_neg hlast]
    refine ⟨h.objects.setRefcount hv (fun u hu => ?_) ?_ (by omega) (by omega),
      h.counts.setVmo_pages hv rfl⟩
    · rw [withHandle_apply, if_neg hu, Nat.add_zero]
    · rw [withHandle_apply, if_pos rfl]
      omega

include h

theorem vmoUnref_good :
    Good T handles (vmoUnref w v) L := vmoUnrefAux_good (v + 1) (Nat.lt_succ_self v) h

theorem vmoFree_good (hv : w.vmos v = some o) (hlast : o.refcount = 1)
    : Good T handles (vmoFree w v) L := by
  have hgood := vmoFreeWith_good h hv hlast (show o = { o with refcount := o.refcount } from rfl)
    (fun _ hx => vmoUnref_good hx) (fun y hsrc hx => vmoUnrefAux_setVmo _ hx hsrc y)
  rw [setVmo_self hv] at hgood
  exact hgood

end Unref

section Operations

variable {T : ℕ → Prop} {w w' : VmoWorld} {L : List ℕ} {handles : ℕ → ℕ} {o : Vmo}
  {v pid src addrHint va : ℕ} {m : Mmu} {a : MapArgs}

lemma Good.remapped (h : Good T handles w L) (hvmos : w'.vmos = w.vmos)
    (hmaps : w'.maps = w.maps) (hnext : w.nextId ≤ w'.nextId)
    (hcr3 : ∀ pid, cr3Of w' pid = cr3Of w pid) (hpmm : w'.mmu.pmm = w.mmu.pmm)
    (hptes : ∀ key, (w'.mmu.ptes key).map Pte.phys = (w.mmu.ptes key).map Pte.phys) :
    Good T handles w' L :=
  ⟨h.objects.congr hvmos hmaps hnext hcr3 fun key phys hphys => by rw [hptes]; exact hphys,
    h.counts.remapped hvmos hpmm hptes⟩

lemma Good.named (h : Good T handles w L) : Good T handles { w with nextId := w.nextId + 1 } L :=
  h.remapped rfl rfl (Nat.le_succ _) (fun _ => rfl) rfl (fun _ => rfl)

/-- Every frame of `T` is in a page slot or mapped. -/
def Referred (T : ℕ → Prop) (w : VmoWorld) : Prop :=
  ∀ f, T f → 0 < slotsHolding w f + mappingsOf w f

lemma Good.used_of_referred (h : Good T handles w L) (hT : Referred T w) :
    ∀ f, T f → w.mmu.pmm.used f := fun f hf =>
  (h.counts.tracked f (.inl hf)).used_of_pos (Nat.add_pos_left (hT f hf) _)

/-- Frames have been taken from the allocator, for tables or for new pages. -/
lemma Objects.taken (h : Objects handles w) (ht : Taken w w') : Objects handles w' :=
  h.congr ht.vmos ht.maps ht.nextId.ge ht.cr3 fun key phys hphys => by
    rw [ht.grown.ptes]
    exact hphys

lemma Objects.handles_fresh (h : Objects handles w) (hv : w.vmos v = none) : handles v = 0 := by
  by_contra hne
  exact h.held v (Nat.pos_of_ne_zero hne) hv

/-- A frame in a page slot is tracked, in `T` or not. -/
lemma Good.mono {T' : ℕ → Prop} (h : Good T handles w [])
    (hT : ∀ f, T' f → T f ∨ 0 < slotsHolding w f) : Good T' handles w [] := by
  refine ⟨h.objects, h.counts.slotsFinite, h.counts.ptesFinite, fun f hf => ?_, h.counts.mapped⟩
  rcases hf with hf | hf | hf
  · rcases hT f hf with hf | hf
    · exact h.counts.tracked f (.inl hf)
    · exact h.counts.tracked f (.inr (.inl hf))
  · exact h.counts.tracked f (.inr (.inl hf))
  · exact absurd hf not_mem_nil

/-- The handle that an operation returns. -/
def grant (handles : ℕ → ℕ) : Option ℕ → ℕ → ℕ
  | none => handles
  | some v => withHandle handles v

theorem vmoCreate_good {sizeBytes : ℕ} {flags : VmoFlags} (headerOk arrayOk : Bool)
    (h : Good T handles w []) (hT : Referred T w) (hmmio : flags.mmio = false) :
    Good T (grant handles (vmoCreate w sizeBytes flags headerOk arrayOk).1)
      (vmoCreate w sizeBytes flags headerOk arrayOk).2 [] := by
  rw [vmoCreate]
  by_cases hsize : sizeBytes = 0 ∨ sizeBytes % pageSize ≠ 0 ∨ vmoMaxSize < sizeBytes
  · rw [if_pos hsize]
    exact h
  rw [if_neg hsize]
  cases headerOk with
  | false => exact h
  | true =>
  cases arrayOk with
  | false => exact h.named
  | true =>
  obtain ⟨w₁, hw₁⟩ : ∃ w₁, w₁ = { w with nextId := w.nextId + 1 } := ⟨_, rfl⟩
  have h₁ : Good T handles w₁ [] := hw₁ ▸ h.named
  have hused : ∀ f, T f → w₁.mmu.pmm.used f := by
    rw [hw₁]
    exact h.used_of_referred hT
  have hnone : w₁.vmos w.nextId = none := by
    rw [hw₁]
    exact h.objects.fresh _ le_rfl
  obtain ⟨htaken, hpages⟩ := createPages_spec w₁ (sizeBytes / pageSize) flags
  simp only [Bool.not_true, Bool.false_eq_true, if_false]
  rw [← hw₁]
  cases hc : createPages w₁ (sizeBytes / pageSize) flags with
  | mk w₂ result =>
  rw [hc] at htaken hpages
  cases result with
  | none =>
    exact ⟨h₁.objects.taken htaken, h₁.counts.grown hused htaken.grown htaken.vmos⟩
  | some pages =>
  obtain ⟨hlen, hrun, halloc⟩ := hpages pages rfl
  dsimp only at htaken halloc ⊢
  have hnone₂ : w₂.vmos w.nextId = none := by rw [htaken.vmos]; exact hnone
  have hbound : sizeBytes / pageSize ≤ 65536 := by
    have hmax : sizeBytes ≤ vmoMaxSize := by
      by_contra hgt
      exact hsize (.inr (.inr (not_le.mp hgt)))
    exact (Nat.div_le_div_right hmax).trans_eq (by decide)
  refine ⟨(h₁.objects.taken htaken).addObject ?_ hnone₂ rfl ?_ (fun u hu => ?_)
    (fun src hsrc => by cases hsrc) ⟨hmmio, hrun, by dsimp only; omega⟩, ?_⟩
  · rw [htaken.nextId, hw₁]
    exact Nat.lt_succ_self _
  · rw [grant, withHandle_apply, if_pos rfl, (h₁.objects.taken htaken).handles_fresh hnone₂]
  · rw [grant, withHandle_apply, if_neg hu]
    simp
  · refine Counts.addSlots ?_ hnone₂
    exact h₁.counts.allocated hused htaken halloc

/-- The counters of an object's frames have room for `frames` more references. -/
def RoomFor (w : VmoWorld) (frames : List ℕ) : Prop :=
  ∀ f, w.mmu.pmm.refcounts f + frames.count f ≤ 255

theorem cloneWith_good (flags : VmoFlags) (h : Good T handles w []) (hT : Referred T w)
    (hv : w.vmos src = some o) (hmmio : flags.mmio = o.flags.mmio)
    (hcont : flags.contiguous = o.flags.contiguous) (hrefs : o.refcount + 1 < 2 ^ 32)
    (hroom : RoomFor w (framesOf o.pages)) :
    Good T (withHandle handles (cloneWith flags w src o).1) (cloneWith flags w src o).2 [] := by
  obtain ⟨w₁, hw₁⟩ : ∃ w₁, w₁ = { w with nextId := w.nextId + 1 } := ⟨_, rfl⟩
  have h₁ : Good T handles w₁ [] := hw₁ ▸ h.named
  have hv₁ : w₁.vmos src = some o := by
    rw [hw₁]
    exact hv
  have hheld := h₁.counts.framesOf_held hv₁
  obtain ⟨pmm, hfold, href⟩ := foldl_pageRef w₁
    (fun page (hpage : page ∈ o.pages.filter (· ≠ 0)) =>
      of_decide_eq_true (mem_filter.mp hpage).2)
  have hused : ∀ f, T f → w₁.mmu.pmm.used f := by
    rw [hw₁]
    exact h.used_of_referred hT
  have hcounts : Counts T (w₁.setPmm pmm) (framesOf o.pages ++ []) :=
    h₁.counts.referenced hused href hheld (by rw [hw₁]; exact hroom)
  have hobjects : Objects handles (w₁.setPmm pmm) :=
    h₁.objects.congr rfl rfl le_rfl (fun _ => rfl) (fun _ _ hphys => hphys)
  have hchild : w₁.vmos w.nextId = none := by
    rw [hw₁]
    exact h.objects.fresh _ le_rfl
  have hne : w.nextId ≠ src := by
    rintro heq
    rw [heq, hv₁] at hchild
    cases hchild
  have hcounted : Objects (withHandle handles src)
      ((w₁.setPmm pmm).setVmo src (some { o with refcount := o.refcount + 1 })) :=
    hobjects.ref hv₁ hrefs
  have hlive : ((w₁.setPmm pmm).setVmo src (some { o with refcount := o.refcount + 1 })).vmos
      w.nextId = none := by
    rw [vmos_setVmo_of_ne _ hne]
    exact hchild
  have hclone : cloneWith flags w src o = (w.nextId,
      ((w₁.setPmm pmm).setVmo src (some { o with refcount := o.refcount + 1 })).setVmo w.nextId
        (some ⟨flags, o.sizeBytes, 1, some src, o.pages⟩)) := by
    rw [cloneWith, ← hw₁, hfold, Nat.mod_eq_of_lt hrefs]
  rw [hclone]
  refine ⟨hcounted.addObject ?_ hlive rfl ?_ (fun u hu => ?_) (fun u hu => ?_) ?_, ?_⟩
  · rw [hw₁]
    exact Nat.lt_succ_self _
  · rw [withHandle_apply, if_pos rfl, h₁.objects.handles_fresh hchild]
  · rw [withHandle_apply, withHandle_apply, if_neg hu]
    simp only [Option.some.injEq, Nat.add_zero, eq_comm]
  · cases hu
    refine ⟨?_, by rw [vmos_setVmo_self]; exact Option.some_ne_none _⟩
    by_contra hge
    rw [h.objects.fresh src (not_lt.mp hge)] at hv
    cases hv
  · obtain ⟨hm, hc, hlen⟩ := h.objects.shape src o hv
    exact ⟨hmmio.trans hm, fun hf => hc (hcont ▸ hf), hlen⟩
  · have hslots : Counts T ((w₁.setPmm pmm).setVmo src
        (some { o with refcount := o.refcount + 1 })) (framesOf o.pages ++ []) :=
      hcounts.setVmo_pages hv₁ rfl
    exact Counts.addSlots hslots hlive

lemma cloneFails_good (h : Good T handles w []) (headerOk : Bool) :
    Good T (grant handles (cloneFails w headerOk).1) (cloneFails w headerOk).2 [] := by
  rw [cloneFails]
  cases headerOk with
  | false => exact h
  | true => exact h.named

/-- A clone that may be taken: the counters of the source and of its frames have room. -/
def CloneRoom (w : VmoWorld) (src : ℕ) : Prop :=
  ∀ o, w.vmos src = some o → o.refcount + 1 < 2 ^ 32 ∧ RoomFor w (framesOf o.pages)

theorem vmoCloneShared_good (headerOk arrayOk : Bool) (h : Good T handles w []) (hT : Referred T w)
    (hroom : CloneRoom w src) :
    Good T (grant handles (vmoCloneShared w src headerOk arrayOk).1)
      (vmoCloneShared w src headerOk arrayOk).2 [] := by
  rw [vmoCloneShared]
  cases hv : w.vmos src with
  | none => exact h
  | some o =>
    split_ifs
    · exact cloneFails_good h headerOk
    · exact cloneWith_good _ h hT hv rfl rfl (hroom o hv).1 (hroom o hv).2

theorem vmoCloneCow_good (headerOk arrayOk : Bool) (h : Good T handles w []) (hT : Referred T w)
    (hroom : CloneRoom w src) :
    Good T (grant handles (vmoCloneCow w src headerOk arrayOk).1)
      (vmoCloneCow w src headerOk arrayOk).2 [] := by
  rw [vmoCloneCow]
  cases hv : w.vmos src with
  | none => exact h
  | some o =>
  dsimp only
  split_ifs
  · exact cloneFails_good h headerOk
  have hgood := cloneWith_good { o.flags with cowChild := true, zeroed := false }
    h hT hv rfl rfl (hroom o hv).1 (hroom o hv).2
  obtain ⟨mmu, hdown, hdemoted⟩ := downgradeAll_demoted src
    (cloneWith { o.flags with cowChild := true, zeroed := false } w src o).2
  rw [hdown]
  exact hgood.remapped rfl rfl le_rfl (fun _ => rfl) hdemoted.pmm hdemoted.phys

/-- A call of `vmo_map` that may be made: the page slots of the range are populated, the
entries at a given address are free, and the counters have room. -/
structure MapRoom (w : VmoWorld) (o : Vmo) (t : Task) (v addrHint offset len : ℕ) : Prop where
  refs : o.refcount + 1 < 2 ^ 32
  populated : ∀ p < len / pageSize, w.slot v (offset / pageSize + p) ≠ 0
  unmapped : addrHint ≠ 0 → ∀ p < len / pageSize,
    vmmGetPte w.mmu t.cr3 (addrHint + p * pageSize) = none
  room : RoomFor w ((List.range (len / pageSize)).map fun p =>
    w.slot v (offset / pageSize + p) / pageSize)

lemma slot_eq_zero_of_le {i : ℕ} (hv : w.vmos v = some o) (hi : o.pages.length ≤ i) :
    w.slot v i = 0 := by
  rw [VmoWorld.slot, hv]
  simp [hi]

lemma MapRoom.mappable {t : Task} {offset len : ℕ} {prot : Prot}
    (hroom : MapRoom w o t v addrHint offset len) (hv : w.vmos v = some o)
    (hmmio : o.flags.mmio = false) (hlen : o.pages.length ≤ 65536)
    (hinUse : ∀ i, w.slot v i ≠ 0 → InUse w.mmu.pmm (w.slot v i / pageSize))
    (haddr : mapAddr w t addrHint len ≠ 0) :
    Mappable (mapArgs w o t v pid addrHint offset len prot) w := { hroom with
  mmio := hmmio
  short := by
    by_contra hlong
    refine hroom.populated 65536 ?_ (slot_eq_zero_of_le hv (hlen.trans (Nat.le_add_left _ _)))
    exact lt_trans (by norm_num) (not_le.mp hlong)
  inUse := fun j hj => hinUse _ (hroom.populated j hj)
  unmapped := fun j hj => by
    by_cases hhint : addrHint = 0
    · have hreserve : mapAddr w t addrHint len = vmmReserveVaByCr3 w.mmu t.cr3 len :=
        if_neg (not_not.mpr hhint)
      change vmmGetPte w.mmu t.cr3 (mapAddr w t addrHint len + j * pageSize) = none
      rw [hreserve] at haddr ⊢
      exact vmmReserveVaByCr3_spec haddr hj
    · have hgiven : mapAddr w t addrHint len = addrHint := if_pos hhint
      change vmmGetPte w.mmu t.cr3 (mapAddr w t addrHint len + j * pageSize) = none
      rw [hgiven]
      exact hroom.unmapped hhint j hj }

/-- The entries of a range that is mapped now were free, so those of the mappings are as they
were. -/
lemma Objects.stage (h : Objects handles w) (hr : Mappable a w)
    (hs : Stage a w 0 a.npages a.npages m) : Objects handles { w with mmu := m } :=
  h.congr rfl rfl le_rfl (fun _ => rfl) fun key phys hphys => by
    rw [hs.outside key fun j _ hj heq => ?_]
    · exact hphys
    · rw [heq, hr.unmapped j hj] at hphys
      cases hphys

lemma mappable_npages_le (hr : Mappable a w) (hv : w.vmos a.vmo = some o)
    (hlen : o.pages.length ≤ 65536) : a.npages ≤ 65536 := by
  by_contra hlong
  refine hr.populated 65536 (not_le.mp hlong) (slot_eq_zero_of_le hv ?_)
  exact hlen.trans (Nat.le_add_left _ _)

/-- The entries of a range are installed, and the mapping has its slot and a reference on the
object. -/
structure Installed (a : MapArgs) (offset : ℕ) (prot : Prot) (o : Vmo) (s : ℕ) (m : Mmu)
    (w w' : VmoWorld) : Prop where
  ready : Mappable a w
  stage : Stage a w 0 a.npages a.npages m
  vmo : w.vmos a.vmo = some o
  refs : o.refcount + 1 < 2 ^ 32
  key : (a.pid, s) ∈ mapKeys
  free : w.maps (a.pid, s) = none
  task : cr3Of w a.pid = some a.cr3
  start : a.startPage = offset / pageSize
  world : w' = (VmoWorld.setVmo { w with mmu := m } a.vmo
    (some { o with refcount := o.refcount + 1 })).setMap (a.pid, s)
      (some ⟨a.vaddr, a.vmo, offset, a.npages, prot⟩)

/-- A call of `vmo_map` that may be made changes nothing but the allocator, or installs the
range. -/
theorem vmoMap_spec {offset len : ℕ} (prot : Prot)
    (hroom : ∀ o t, w.vmos v = some o → w.tasks pid = some t →
      (offset + len) % 2 ^ 64 ≤ o.sizeBytes →
        MapRoom w o t v addrHint offset len ∧ o.flags.mmio = false)
    (hlen : ∀ o, w.vmos v = some o → o.pages.length ≤ 65536)
    (hinUse : ∀ i, w.slot v i ≠ 0 → InUse w.mmu.pmm (w.slot v i / pageSize)) :
    (∃ m, vmoMap w v pid addrHint offset len prot = (0, { w with mmu := m }) ∧ Grown w.mmu m) ∨
      ∃ o t s a m w', w.tasks pid = some t ∧ (offset + len) % 2 ^ 64 ≤ o.sizeBytes ∧
        a = mapArgs w o t v pid addrHint offset len prot ∧ Installed a offset prot o s m w w' ∧
        vmoMap w v pid addrHint offset len prot = (a.vaddr, w') := by
  rcases vmoMap_cases w v pid addrHint offset len prot with hsame | ⟨o, t, s, a, hv, ht, hkey,
    hfree, ha, hsize, hzero, hend⟩
  · exact .inl ⟨w.mmu, hsame, Grown.refl _⟩
  obtain ⟨hmapRoom, hmmio⟩ := hroom o t hv ht hsize
  have hr : Mappable a w := by
    rw [ha] at hzero ⊢
    exact hmapRoom.mappable hv hmmio (hlen o hv) hinUse hzero
  rcases mapLoop_spec hr with ⟨m, hloop, hstage⟩ | ⟨m, hloop, hgrown⟩
  · rcases hend with ⟨w', hloop', -⟩ | ⟨w', hloop', hmap⟩
    · rw [hloop] at hloop'
      cases hloop'
    rw [hloop, Except.ok.injEq] at hloop'
    subst hloop'
    have hshort := mappable_npages_le hr (by rw [ha]; exact hv) (hlen o hv)
    rw [vmoRef_setMap (w := { w with mmu := m }) hv hmapRoom.refs,
      Nat.mod_eq_of_lt (hshort.trans_lt (by norm_num))] at hmap
    subst ha
    exact .inr ⟨o, t, s, _, m, _, ht, hsize, rfl, ⟨hr, hstage, hv, hmapRoom.refs, hkey, hfree,
      congrArg _ ht, rfl, rfl⟩, hmap⟩
  · rcases hend with ⟨w', hloop', hmap⟩ | ⟨w', hloop', -⟩
    · rw [hloop, Except.error.injEq] at hloop'
      subst hloop'
      exact .inl ⟨m, hmap, hgrown⟩
    · rw [hloop] at hloop'
      cases hloop'

/-- The range is mapped: the references of its entries are counted, and the mapping has one on
the object. -/
lemma Good.mapped {s offset : ℕ} {prot : Prot} (h : Good T handles w []) (hT : Referred T w)
    (hi : Installed a offset prot o s m w w') : Good T handles w' [] := by
  obtain ⟨hr, hs, hv, hrefs, -, hfree, htask, hstart, rfl⟩ := hi
  obtain ⟨w', hw'⟩ : ∃ w' : VmoWorld, w' = { w with mmu := m } := ⟨_, rfl⟩
  rw [← hw']
  have hobjects : Objects handles w' := hw' ▸ h.objects.stage hr hs
  have hcounts : Counts T w' [] := hw' ▸ h.counts.stage (h.used_of_referred hT) hr hs rfl rfl
  have hv' : w'.vmos a.vmo = some o := by rw [hw']; exact hv
  have hvmos : w'.vmos = w.vmos := by rw [hw']
  have hmaps : w'.maps = w.maps := by rw [hw']
  have hcr3 : ∀ pid, cr3Of w' pid = cr3Of w pid := fun pid => by rw [hw']; rfl
  have hrefd : Objects (withHandle handles a.vmo)
      (w'.setVmo a.vmo (some { o with refcount := o.refcount + 1 })) :=
    hobjects.ref hv' hrefs
  have hslots : Counts T (w'.setVmo a.vmo (some { o with refcount := o.refcount + 1 })) [] :=
    hcounts.setVmo_pages hv' rfl
  have hslot : ∀ p, (w'.setVmo a.vmo (some { o with refcount := o.refcount + 1 })).slot a.vmo
      (offset / pageSize + p) = w.slot a.vmo (a.startPage + p) := by
    intro p
    have hsame : (w'.setVmo a.vmo (some { o with refcount := o.refcount + 1 })).slot a.vmo
        (offset / pageSize + p) = w'.slot a.vmo (offset / pageSize + p) :=
      slot_setVmo_pages hv' (by rfl) _ _
    rw [hsame, slot_congr hvmos, hstart]
  refine ⟨hrefd.addMap (by rw [← hmaps] at hfree; exact hfree)
    (mappable_npages_le hr hv (h.objects.shape a.vmo o hv).2.2) ((hcr3 a.pid).trans htask)
    (fun p hp => ?_) ?_, hslots.remapped rfl rfl (fun _ => rfl)⟩
  · change (w'.setVmo a.vmo _).slot a.vmo (offset / pageSize + p) ≠ 0 ∧
      (w'.mmu.ptes (a.key p)).map Pte.phys =
        some ((w'.setVmo a.vmo _).slot a.vmo (offset / pageSize + p))
    rw [hslot, hw', hs.inside p (Nat.zero_le _) hp]
    exact ⟨hr.populated p hp, rfl⟩
  · -- the entries of another mapping are present, those of the range were not
    intro mk' m' cr3' p p' hm' ht' hp hp' hkey
    have hold : w.maps mk' = some m' := by rw [← hmaps]; exact hm'
    obtain ⟨-, -, c, hc, hpages⟩ := h.objects.mapping mk' m' hold
    obtain rfl : c = cr3' := Option.some.inj (hc.symm.trans ((hcr3 mk'.1).symm.trans ht'))
    have hpte := (hpages p' hp').2
    rw [← hkey] at hpte
    change (w.mmu.ptes (a.key p)).map Pte.phys = _ at hpte
    rw [hr.unmapped p hp] at hpte
    cases hpte

theorem vmoMap_good {offset len : ℕ} (prot : Prot) (h : Good T handles w [])
    (hT : Referred T w) (hroom : ∀ o t, w.vmos v = some o → w.tasks pid = some t →
      (offset + len) % 2 ^ 64 ≤ o.sizeBytes → MapRoom w o t v addrHint offset len) :
    Good T handles (vmoMap w v pid addrHint offset len prot).2 [] := by
  have hshape := h.objects.shape v
  rcases vmoMap_spec prot (fun o t hv ht hsize => ⟨hroom o t hv ht hsize, (hshape o hv).1⟩)
      (fun o hv => (hshape o hv).2.2) (fun i => h.counts.slot_inUse) with
    ⟨m, hmap, hgrown⟩ | ⟨o, t, s, a, m, w', -, -, -, hinstalled, hmap⟩
  · rw [hmap]
    refine ⟨h.objects.congr rfl rfl le_rfl (fun _ => rfl) fun key phys hphys => ?_,
      h.counts.grown (h.used_of_referred hT) hgrown rfl⟩
    rw [hgrown.ptes]
    exact hphys
  · rw [hmap]
    exact h.mapped hT hinstalled

theorem vmoUnmap_good (pid vaddr len : ℕ) (h : Good T handles w []) :
    Good T handles (vmoUnmap w pid vaddr len).2 [] := by
  rcases vmoUnmap_cases w pid vaddr len with hsame | ⟨t, s, m, ht, -, hm, hunmap⟩
  · rw [hsame]
    exact h
  rw [hunmap]
  obtain ⟨hlive, hlen, cr3, hcr3, hpages⟩ := h.objects.mapping _ m hm
  obtain rfl : t.cr3 = cr3 := by
    rw [cr3Of, ht] at hcr3
    exact Option.some.inj hcr3
  obtain ⟨o, hv⟩ := Option.ne_none_iff_exists'.mp hlive
  have hmmio : (w.vmos m.vmo).any (·.flags.mmio) = false := by
    rw [hv]
    exact (h.objects.shape m.vmo o hv).1
  rw [hmmio]
  have hc := unmapLoop_cleared pid t.cr3
    (fun p (hp : p ∈ List.range m.lenPages) => (hpages p (mem_range.mp hp)).1)
  -- the entries and the frames of their page slots
  obtain ⟨l, hl⟩ : ∃ l, l = (List.range m.lenPages).map
    fun p => (m.key t.cr3 p, m.slot w p / pageSize) := ⟨_, rfl⟩
  have hkeys : l.map Prod.fst = (List.range m.lenPages).map (m.key t.cr3) := by
    rw [hl, map_map]
    rfl
  have hframes : l.map Prod.snd = (List.range m.lenPages).map (m.slot w · / pageSize) := by
    rw [hl, map_map]
    rfl
  have hnodup : (l.map Prod.fst).Nodup := by
    rw [hkeys]
    refine List.Nodup.map_on (fun i hi j hj heq => ?_) nodup_range
    have hi := mem_range.mp hi
    have hj := mem_range.mp hj
    exact pteKey_injOn (by omega) (by omega) heq
  have hentries : ∀ x ∈ l, pteFrame w.mmu x.1 = some x.2 := by
    intro x hx
    obtain ⟨p, hp, rfl⟩ := mem_map.mp (hl ▸ hx)
    obtain ⟨pte, hpte, hphys⟩ := Option.map_eq_some_iff.mp (hpages p (mem_range.mp hp)).2
    rw [pteFrame, hpte, ← hphys]
    rfl
  have hslots : ∀ x ∈ l, 0 < slotsHolding w x.2 := by
    intro x hx
    obtain ⟨p, hp, rfl⟩ := mem_map.mp (hl ▸ hx)
    exact h.counts.slotsHolding_pos (hpages p (mem_range.mp hp)).1
  have hcounts := h.counts.cleared hnodup hentries hslots (by rw [hkeys, hframes]; exact hc)
  exact vmoUnref_good ⟨h.objects.removeMap hm hcr3 hc, hcounts.remapped rfl rfl (fun _ => rfl)⟩

theorem vmoPfDispatch_good {user write present : Bool} (h : Good T handles w [])
    (hnone : cowTarget w pid va user write present = none) :
    Good T handles (vmoPfDispatch w pid va user write present).2 [] := by
  rw [vmoPfDispatch, hnone]
  exact h

theorem userStore_good (value : BitVec 8) (h : Good T handles w [])
    (hnone : ∀ t pte, w.tasks pid = some t → vmmGetPte w.mmu t.cr3 va = some pte →
      userWritable pte = false → cowTarget w pid va true true true = none) :
    Good T handles (userStore w pid va value).2 [] := by
  rw [userStore]
  cases ht : w.tasks pid with
  | none => exact h
  | some t =>
  dsimp only
  cases hpte : vmmGetPte w.mmu t.cr3 va with
  | none => exact h
  | some pte =>
    dsimp only
    cases hw : userWritable pte with
    | true => exact h.remapped rfl rfl le_rfl (fun _ => rfl) rfl (fun _ => rfl)
    | false =>
      rw [vmoPfDispatch, hnone t pte ht hpte hw]
      exact h

end Operations

end GrahaOS.VmoRefs
