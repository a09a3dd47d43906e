import GrahaOS.CapHistory
import GrahaOS.CascadeReach

/-!
# Child lists and parent indices

The cascade follows child lists, while derivation is recorded by parent indices. `Linked` says that
the two agree. Creation, derivation and revocation keep this agreement. Destruction keeps it for an
object that is in no list and has none; for any other object it leaves a link to an empty slot.
-/

namespace GrahaOS.ChildLists

open CapRegistry Revoke CapHistory CascadeReach Function

/-- Following `next_sibling_idx` from `cur` visits the listed slots and ends. -/
def SiblingChain (ptrs : ℕ → Option CapObject) : ℕ → List ℕ → Prop
  | cur, [] => cur = idxNone
  | cur, j :: js => cur = j ∧ j ≠ idxNone ∧
      ∃ o, ptrs j = some o ∧ SiblingChain ptrs o.nextSiblingIdx js

/-- Child lists and parent indices agree. -/
structure Linked (r : Registry) : Prop where
  bounded : ∀ i o, r.ptrs i = some o → i < capObjectCapacity
  parents : ∀ i o, r.ptrs i = some o →
    o.parentIdx = idxNone ∨ ∃ parent, r.ptrs o.parentIdx = some parent
  children : ∀ p parent, r.ptrs p = some parent →
    ∃ kids, SiblingChain r.ptrs parent.firstChildIdx kids ∧
      ∀ j, j ∈ kids ↔ ∃ o, r.ptrs j = some o ∧ o.parentIdx = p

variable {r r' : Registry} {i cur p : ℕ} {o obj parent : CapObject} {kids : List ℕ}

lemma Linked.ne_none (h : Linked r) (ho : r.ptrs i = some o) : i ≠ idxNone := by
  intro hi
  have hlt := h.bounded i o ho
  rw [hi] at hlt
  exact absurd hlt (by decide)

lemma SiblingChain.congr {ptrs ptrs' : ℕ → Option CapObject}
    (h : SiblingChain ptrs cur kids)
    (hsame : ∀ j ∈ kids, ∀ o, ptrs j = some o →
      ∃ o', ptrs' j = some o' ∧ o'.nextSiblingIdx = o.nextSiblingIdx) :
    SiblingChain ptrs' cur kids := by
  induction kids generalizing cur with
  | nil => exact h
  | cons j js ih =>
    obtain ⟨hcur, hne, o, ho, hrest⟩ := h
    obtain ⟨o', ho', hnext⟩ := hsame j List.mem_cons_self o ho
    refine ⟨hcur, hne, o', ho', ?_⟩
    rw [hnext]
    exact ih hrest fun k hk => hsame k (List.mem_cons_of_mem j hk)

theorem linked_init : Linked capObjectInit := by
  have hzero : ∀ i o, capObjectInit.ptrs i = some o → i = 0 ∧ o = sentinel := by
    intro i o ho
    by_cases hi : i = 0
    · refine ⟨hi, ?_⟩
      have hs : some sentinel = some o := by simpa [capObjectInit, hi] using ho
      exact (Option.some.inj hs).symm
    · simp [capObjectInit, hi] at ho
  refine ⟨?_, ?_, ?_⟩
  · intro i o ho
    obtain ⟨rfl, -⟩ := hzero i o ho
    decide
  · intro i o ho
    obtain ⟨-, rfl⟩ := hzero i o ho
    exact .inl rfl
  · intro p parent hp
    obtain ⟨rfl, rfl⟩ := hzero p parent hp
    refine ⟨[], rfl, ?_⟩
    intro j
    constructor
    · intro hj
      cases hj
    · rintro ⟨o, ho, hparent⟩
      obtain ⟨-, rfl⟩ := hzero j o ho
      exact absurd hparent (by decide)

lemma linked_of_keeps (h : Linked r) (hk : Keeps r r') : Linked r' := by
  refine ⟨?_, ?_, ?_⟩
  · intro i o' ho'
    obtain ⟨o, ho, -⟩ := hk.back ho'
    exact h.bounded i o ho
  · intro i o' ho'
    obtain ⟨o, ho, hre⟩ := hk.back ho'
    rw [hre.parentIdx]
    rcases h.parents i o ho with hnone | ⟨parent, hparent⟩
    · exact .inl hnone
    · obtain ⟨parent', hparent', -⟩ := (hk o.parentIdx).2 parent hparent
      exact .inr ⟨parent', hparent'⟩
  · intro p parent' hp'
    obtain ⟨parent, hp, hre⟩ := hk.back hp'
    obtain ⟨kids, hchain, hkids⟩ := h.children p parent hp
    refine ⟨kids, ?_, ?_⟩
    · rw [hre.firstChildIdx]
      refine hchain.congr ?_
      intro j _ o ho
      obtain ⟨o', ho', hre'⟩ := (hk j).2 o ho
      exact ⟨o', ho', hre'.nextSiblingIdx⟩
    · intro j
      rw [hkids j]
      constructor
      · rintro ⟨o, ho, hpar⟩
        obtain ⟨o', ho', hre'⟩ := (hk j).2 o ho
        exact ⟨o', ho', hre'.parentIdx.trans hpar⟩
      · rintro ⟨o', ho', hpar⟩
        obtain ⟨o, ho, hre'⟩ := hk.back ho'
        exact ⟨o, ho, hre'.parentIdx.symm.trans hpar⟩

lemma Linked.parent_ne_free (h : Linked r) {slot : ℕ} (hfree : r.ptrs slot = none)
    (hslot : slot < capObjectCapacity) (ho : r.ptrs i = some o) : o.parentIdx ≠ slot := by
  intro heq
  rcases h.parents i o ho with hnone | ⟨parent, hparent⟩
  · rw [heq] at hnone
    rw [hnone] at hslot
    exact absurd hslot (by decide)
  · rw [heq, hfree] at hparent
    cases hparent

/-- A new object in a free slot, spliced at the head of its parent's list if it has a
parent; everything else keeps its links. -/
structure Grows (r r' : Registry) (slot : ℕ) (obj : CapObject) : Prop where
  free : r.ptrs slot = none
  inTable : slot < capObjectCapacity
  new : r'.ptrs slot = some obj
  leaf : obj.firstChildIdx = idxNone
  empty : ∀ i, i ≠ slot → r.ptrs i = none → r'.ptrs i = none
  old : ∀ i o, r.ptrs i = some o → ∃ o', r'.ptrs i = some o' ∧ o'.parentIdx = o.parentIdx ∧
    o'.nextSiblingIdx = o.nextSiblingIdx ∧
    (i ≠ obj.parentIdx → o'.firstChildIdx = o.firstChildIdx)
  spliced : obj.parentIdx = idxNone ∨ ∃ parent parent', r.ptrs obj.parentIdx = some parent ∧
    r'.ptrs obj.parentIdx = some parent' ∧ parent'.firstChildIdx = slot ∧
    obj.nextSiblingIdx = parent.firstChildIdx

namespace Grows

variable {r r' : Registry} {slot : ℕ} {obj : CapObject}

variable (g : Grows r r' slot obj)
include g

lemma cases {o' : CapObject} (ho' : r'.ptrs i = some o') : (i = slot ∧ o' = obj) ∨
    ∃ o, r.ptrs i = some o ∧ o'.parentIdx = o.parentIdx ∧
      (i ≠ obj.parentIdx → o'.firstChildIdx = o.firstChildIdx) := by
  by_cases hi : i = slot
  · rw [hi, g.new] at ho'
    exact .inl ⟨hi, (Option.some.inj ho').symm⟩
  cases ho : r.ptrs i with
  | none =>
    rw [g.empty i hi ho] at ho'
    cases ho'
  | some o =>
    obtain ⟨o₁, ho₁, hparent, -, hfirst⟩ := g.old i o ho
    rw [ho₁] at ho'
    cases ho'
    exact .inr ⟨o, rfl, hparent, hfirst⟩

lemma chain (h : SiblingChain r.ptrs cur kids) : SiblingChain r'.ptrs cur kids := by
  refine h.congr ?_
  intro j _ o ho
  obtain ⟨o', ho', -, hnext, -⟩ := g.old j o ho
  exact ⟨o', ho', hnext⟩

/-- The members of a list other than the new object's own parent's are as before. -/
lemma mem_iff (hp : obj.parentIdx ≠ p) (j : ℕ) : (∃ o, r.ptrs j = some o ∧ o.parentIdx = p) ↔
      ∃ o', r'.ptrs j = some o' ∧ o'.parentIdx = p := by
  constructor
  · rintro ⟨o, ho, hpar⟩
    obtain ⟨o', ho', hparent, -⟩ := g.old j o ho
    exact ⟨o', ho', hparent.trans hpar⟩
  · rintro ⟨o', ho', hpar⟩
    rcases g.cases ho' with ⟨-, rfl⟩ | ⟨o, ho, hparent, -⟩
    · exact absurd hpar hp
    · exact ⟨o, ho, hparent.symm.trans hpar⟩

end Grows

theorem linked_grows {slot : ℕ} (h : Linked r) (g : Grows r r' slot obj) : Linked r' := by
  have hself : obj.parentIdx ≠ slot := by
    intro heq
    rcases g.spliced with hnone | ⟨parent, -, hparent, -⟩
    · have hlt := g.inTable
      rw [← heq, hnone] at hlt
      exact absurd hlt (by decide)
    · rw [heq, g.free] at hparent
      cases hparent
  refine ⟨?_, ?_, ?_⟩
  · intro i o' ho'
    rcases g.cases ho' with ⟨rfl, -⟩ | ⟨o, ho, -⟩
    · exact g.inTable
    · exact h.bounded i o ho
  · intro i o' ho'
    rcases g.cases ho' with ⟨-, rfl⟩ | ⟨o, ho, hparent, -⟩
    · rcases g.spliced with hnone | ⟨-, parent', -, hp', -⟩
      · exact .inl hnone
      · exact .inr ⟨parent', hp'⟩
    · rw [hparent]
      rcases h.parents i o ho with hnone | ⟨parent, hp⟩
      · exact .inl hnone
      · obtain ⟨parent', hp', -⟩ := g.old _ parent hp
        exact .inr ⟨parent', hp'⟩
  · intro p parent' hp'
    rcases g.cases hp' with ⟨rfl, rfl⟩ | ⟨parent, hp, -, hfirst⟩
    · refine ⟨[], g.leaf, ?_⟩
      intro j
      rw [← g.mem_iff hself j]
      constructor
      · intro hj
        cases hj
      · rintro ⟨o, ho, hpar⟩
        exact absurd hpar (h.parent_ne_free g.free g.inTable ho)
    · obtain ⟨kids, hchain, hkids⟩ := h.children p parent hp
      by_cases hown : p = obj.parentIdx
      · subst p
        rcases g.spliced with hnone | ⟨parent₀, parent₁, hp₀, hp₁, hhead, hnext⟩
        · exact absurd hnone (h.ne_none hp)
        rw [hp] at hp₀
        cases hp₀
        rw [hp'] at hp₁
        cases hp₁
        refine ⟨slot :: kids, ⟨hhead, ?_, obj, g.new, ?_⟩, ?_⟩
        · intro hslot
          have hlt := g.inTable
          rw [hslot] at hlt
          exact absurd hlt (by decide)
        · rw [hnext]
          exact g.chain hchain
        · intro j
          rw [List.mem_cons, hkids j]
          constructor
          · rintro (rfl | ⟨o, ho, hpar⟩)
            · exact ⟨obj, g.new, rfl⟩
            · obtain ⟨o', ho', hparent, -⟩ := g.old j o ho
              exact ⟨o', ho', hparent.trans hpar⟩
          · rintro ⟨o', ho', hpar⟩
            rcases g.cases ho' with ⟨rfl, -⟩ | ⟨o, ho, hparent, -⟩
            · exact .inl rfl
            · exact .inr ⟨o, ho, hparent.symm.trans hpar⟩
      · refine ⟨kids, ?_, ?_⟩
        · rw [hfirst hown]
          exact g.chain hchain
        · intro j
          rw [hkids j]
          exact g.mem_iff (Ne.symm hown) j

lemma grows_install {slot : ℕ} (hslot : findFreeSlot r = some slot) (a : CreateArgs) :
    Grows r (install r slot (newObject a idxNone)) slot (newObject a idxNone) := by
  obtain ⟨-, hcap, hfree⟩ := findFreeSlot_spec hslot
  refine ⟨hfree, hcap, by simp [install], rfl, ?_, ?_, .inl rfl⟩
  · intro i hi ho
    simpa [install, hi] using ho
  · intro i o ho
    have hi : i ≠ slot := by
      intro hi
      rw [hi, hfree] at ho
      cases ho
    exact ⟨o, by simpa [install, hi] using ho, rfl, rfl, fun _ => rfl⟩

lemma grows_attach {slot : ℕ} (hslot : findFreeSlot r = some slot)
    (hparent : r.ptrs p = some parent) (a : CreateArgs) :
    Grows r (attach r slot (newObject a p) p parent) slot
      { newObject a p with nextSiblingIdx := parent.firstChildIdx } := by
  obtain ⟨-, hcap, hfree⟩ := findFreeSlot_spec hslot
  have hne : ∀ {i o}, r.ptrs i = some o → i ≠ slot := by
    intro i o ho hi
    rw [hi, hfree] at ho
    cases ho
  have hslotp : slot ≠ p := (hne hparent).symm
  refine ⟨hfree, hcap, by simp [attach, hslotp], rfl, ?_, ?_, ?_⟩
  · intro i hi ho
    have hip : i ≠ p := by
      intro hip
      rw [hip, hparent] at ho
      cases ho
    simpa [attach, hi, hip] using ho
  · intro i o ho
    by_cases hip : i = p
    · subst i
      rw [hparent] at ho
      cases ho
      exact ⟨{ parent with firstChildIdx := slot }, by simp [attach], rfl, rfl,
        fun hown => absurd rfl hown⟩
    · exact ⟨o, by simpa [attach, hip, hne ho] using ho, rfl, rfl, fun _ => rfl⟩
  · exact .inr ⟨parent, { parent with firstChildIdx := slot }, hparent, by simp [attach, newObject],
      rfl, rfl⟩

/-- Destruction is admitted only for an object in no child list and without one. -/
def DestroysUnlinked (r : Registry) : CapOp → Prop
  | .destroy idx => ∀ o ∈ r.ptrs idx, o.parentIdx = idxNone ∧ o.firstChildIdx = idxNone
  | _ => True

lemma Linked.no_children (h : Linked r) (hp : r.ptrs p = some parent)
    (hfirst : parent.firstChildIdx = idxNone) (ho : r.ptrs i = some o) : o.parentIdx ≠ p := by
  intro hpar
  obtain ⟨kids, hchain, hkids⟩ := h.children p parent hp
  have hmem : i ∈ kids := (hkids i).mpr ⟨o, ho, hpar⟩
  cases kids with
  | nil => cases hmem
  | cons j js =>
    obtain ⟨hcur, hne, -⟩ := hchain
    exact hne (hcur.symm.trans hfirst)

lemma linked_cleared (h : Linked r) {idx : ℕ} (hidx : r.ptrs idx = some obj)
    (hparent : obj.parentIdx = idxNone) (hfirst : obj.firstChildIdx = idxNone) :
    Linked { r with ptrs := update r.ptrs idx none } := by
  have hobj : ∀ {i o}, update r.ptrs idx none i = some o → i ≠ idx ∧ r.ptrs i = some o := by
    intro i o ho
    by_cases hi : i = idx
    · simp [hi] at ho
    · exact ⟨hi, by simpa [hi] using ho⟩
  have hkeep : ∀ {i o}, i ≠ idx → r.ptrs i = some o → update r.ptrs idx none i = some o := by
    intro i o hi ho
    simpa [hi] using ho
  refine ⟨?_, ?_, ?_⟩
  · intro i o ho
    exact h.bounded i o (hobj ho).2
  · intro i o ho
    have ho' := (hobj ho).2
    rcases h.parents i o ho' with hnone | ⟨parent, hp⟩
    · exact .inl hnone
    · exact .inr ⟨parent, hkeep (h.no_children hidx hfirst ho') hp⟩
  · intro p parent hp
    have hp' := (hobj hp).2
    obtain ⟨kids, hchain, hkids⟩ := h.children p parent hp'
    have hmember : ∀ j ∈ kids, j ≠ idx := by
      rintro j hj rfl
      obtain ⟨o, ho, hpar⟩ := (hkids j).mp hj
      rw [hidx] at ho
      cases ho
      exact h.ne_none hp' (hpar.symm.trans hparent)
    refine ⟨kids, hchain.congr ?_, ?_⟩
    · intro j hj o ho
      exact ⟨o, hkeep (hmember j hj) ho, rfl⟩
    · intro j
      constructor
      · intro hj
        obtain ⟨o, ho, hpar⟩ := (hkids j).mp hj
        exact ⟨o, hkeep (hmember j hj) ho, hpar⟩
      · rintro ⟨o, ho, hpar⟩
        exact (hkids j).mpr ⟨o, (hobj ho).2, hpar⟩

theorem linked_step (r : Registry) (op : CapOp) (h : Linked r) (hop : DestroysUnlinked r op) :
    Linked (capStep r op) := by
  have heffect := capStep_effect r op
  generalize capStep r op = r' at heffect
  cases heffect with
  | same => exact h
  | root slab a _ _ hslot => exact linked_grows h (grows_install hslot a)
  | child a x parent _ _ hslot hparent _ _ _ =>
    exact linked_grows h (grows_attach hslot hparent _)
  | revoked idx _ hkeeps => exact linked_of_keeps h hkeeps
  | cleared idx hdestroy _ =>
  subst hdestroy
  cases hidx : r.ptrs idx with
  | none =>
    rw [← hidx, update_eq_self]
    exact h
  | some obj =>
    obtain ⟨hparent, hfirst⟩ := hop obj hidx
    exact linked_cleared h hidx hparent hfirst

lemma SiblingChain.inList_iff {ptrs : ℕ → Option CapObject}
    (h : SiblingChain ptrs cur kids) (j : ℕ) : InList ptrs cur j ↔ j ∈ kids := by
  induction kids generalizing cur with
  | nil =>
    have hcur : cur = idxNone := h
    refine ⟨fun hj => ?_, fun hj => absurd hj List.not_mem_nil⟩
    cases hj with
    | here hne => exact absurd hcur hne
    | next hne => exact absurd hcur hne
  | cons k ks ih =>
    obtain ⟨rfl, hne, o, ho, hrest⟩ := h
    rw [List.mem_cons, ← ih hrest]
    constructor
    · intro hj
      cases hj with
      | here => exact .inl rfl
      | next _ ho' hj =>
        rw [ho] at ho'
        cases ho'
        exact .inr hj
    · rintro (rfl | hj)
      · exact .here hne
      · exact .next hne ho hj

end GrahaOS.ChildLists
