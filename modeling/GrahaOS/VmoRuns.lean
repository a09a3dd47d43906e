import GrahaOS.VmoRefs

/-!
# Reference counts of frames over runs

Tasks create, map, unmap, clone and write to virtual memory objects in any order.

Some paths miscount. A page populated on demand by `vmo_map` gets one reference for its slot and its
entry together. A resolved copy-on-write fault does the same with the private frame, and keeps the
slot's reference on the shared one. A mapping at an address that is in use overwrites an entry whose
reference is lost. The pages of an object for device memory are never counted. And the counters are
8 and 32 bits wide. `Tame` keeps off these paths.
-/

namespace GrahaOS.VmoRuns

open Runs References PageFrames PageTables VmObjects VmoCounts VmoRefs Function

/-- The objects and address spaces, and the references on objects that the tasks hold. -/
structure Ledger where
  world : VmoWorld
  handles : ℕ → ℕ

/-- The references that the tasks hold after an operation. -/
def handlesAfter (handles : ℕ → ℕ) (op : VmoOp) (created : Option ℕ) : ℕ → ℕ :=
  match op with
  | .unref v | .free v => Function.update handles v (handles v - 1)
  | _ => grant handles created

def step (s : Ledger) (op : VmoOp) : Ledger :=
  let (created, world) := perform s.world op
  ⟨world, handlesAfter s.handles op created⟩

/-- References are given up by those who hold them: `vmo_unref` by a holder, and `vmo_free` by
the only one. -/
def Owned (s : Ledger) : VmoOp → Prop
  | .unref v => 0 < s.handles v
  | .free v => 0 < s.handles v ∧ ∀ o, s.world.vmos v = some o → o.refcount = 1
  | _ => True

/-- The operation keeps off the paths that miscount. -/
def Tame (w : VmoWorld) : VmoOp → Prop
  | .create _ flags _ _ => flags.mmio = false
  | .map v pid addrHint offset len _ => ∀ o t, w.vmos v = some o → w.tasks pid = some t →
      (offset + len) % 2 ^ 64 ≤ o.sizeBytes → MapRoom w o t v addrHint offset len
  | .cloneCow src _ _ | .cloneShared src _ _ => CloneRoom w src
  | .fault pid va user write present => cowTarget w pid va user write present = none
  | .store pid va _ => ∀ t pte, w.tasks pid = some t → vmmGetPte w.mmu t.cr3 va = some pte →
      userWritable pte = false → cowTarget w pid va true true true = none
  | _ => True

def Allowed (s : Ledger) (op : VmoOp) : Prop := Owned s op ∧ Tame s.world op

/-- There are no objects yet, and every entry maps a frame that is in use. -/
structure Booted (w : VmoWorld) : Prop where
  objects : ∀ v, w.vmos v = none
  mappings : ∀ mk, w.maps mk = none
  entries : FinitelyMany w.mmu.ptes
  mapped : ∀ key pte, w.mmu.ptes key = some pte → w.mmu.pmm.used pte.frame

/-- The page slots and the entries that refer to a frame. -/
noncomputable def referrers (w : VmoWorld) (f : ℕ) : ℕ := slotsHolding w f + mappingsOf w f

lemma withHandle_release {handles : ℕ → ℕ} {v : ℕ} (hv : 0 < handles v) :
    withHandle (update handles v (handles v - 1)) v = handles := by
  funext u
  rw [withHandle_apply, update_apply]
  split_ifs with hu
  · subst hu
    omega
  · rfl

/-- One operation keeps the objects and the counts. -/
theorem step_good {T : ℕ → Prop} {s : Ledger} {op : VmoOp}
    (h : Good T s.handles s.world []) (hT : Referred T s.world) (hok : Allowed s op) :
    Good T (step s op).handles (step s op).world [] := by
  obtain ⟨hown, htame⟩ := hok
  cases op with
  | create sizeBytes flags headerOk arrayOk => exact vmoCreate_good headerOk arrayOk h hT htame
  | map v pid addrHint offset len prot => exact vmoMap_good prot h hT htame
  | unmap pid vaddr len => exact vmoUnmap_good pid vaddr len h
  | cloneCow src headerOk arrayOk => exact vmoCloneCow_good headerOk arrayOk h hT htame
  | cloneShared src headerOk arrayOk => exact vmoCloneShared_good headerOk arrayOk h hT htame
  | fault pid va user write present => exact vmoPfDispatch_good h htame
  | store pid va value => exact userStore_good value h htame
  | unref v =>
    have hrel : Good T (withHandle (update s.handles v (s.handles v - 1)) v) s.world [] := by
      rw [withHandle_release hown]
      exact h
    exact vmoUnref_good hrel
  | free v =>
    have hrel : Good T (withHandle (update s.handles v (s.handles v - 1)) v) s.world [] := by
      rw [withHandle_release hown.1]
      exact h
    obtain ⟨o, hv⟩ := Option.ne_none_iff_exists'.mp (h.objects.held v hown.1)
    exact vmoFree_good hrel hv (hown.2 o hv)

lemma Booted.good {w : VmoWorld} (h : Booted w) : Good (fun _ => False) (fun _ => 0) w [] := by
  have hslots : ∀ k, slotFrame w k = none := fun k => by
    rw [slotFrame, VmoWorld.slot, h.objects]
    rfl
  constructor
  · exact
      { fresh := fun v _ => h.objects v
        held := fun _ hv => absurd hv (lt_irrefl 0)
        counted := fun v o hv => by rw [h.objects v] at hv; cases hv
        source := fun v o _ hv => by rw [h.objects v] at hv; cases hv
        shape := fun v o hv => by rw [h.objects v] at hv; cases hv
        mapsFinite := by
          apply Set.finite_empty.subset
          intro mk hmk
          exact hmk (by rw [mapObject, h.mappings]; rfl)
        mapping := fun mk m hm => by rw [h.mappings mk] at hm; cases hm
        disjoint := fun mk _ m _ _ _ _ _ hm => by rw [h.mappings mk] at hm; cases hm }
  · refine ⟨?_, ?_, fun f hf => ?_, h.mapped⟩
    · apply Set.finite_empty.subset
      intro k hk
      exact hk (hslots k)
    · apply h.entries.subset
      intro key hkey hnone
      exact hkey (by rw [pteFrame, hnone]; rfl)
    · rcases hf with hf | hf | hf
      · exact hf.elim
      · have hzero : slotsHolding w f = 0 := by
          rw [slotsHolding, refs, funext hslots]
          simp
        omega
      · exact absurd hf List.not_mem_nil

/-- Objects and counts are in order in every state that a tame run reaches. -/
theorem reached_good {w : VmoWorld} (hw : Booted w) {ops : List VmoOp}
    (hops : Guarded step Allowed ⟨w, fun _ => 0⟩ ops) :
    Good (fun _ => False) (run step ⟨w, fun _ => 0⟩ ops).handles
      (run step ⟨w, fun _ => 0⟩ ops).world [] :=
  invariant_run (fun s : Ledger => Good (fun _ => False) s.handles s.world [])
    (fun _ _ h hok => step_good h (fun _ hf => hf.elim) hok) hw.good hops

/-- In every state that a tame run reaches, a frame in a page slot is in use and has a
reference for each slot that holds it and for each entry that maps it; every entry maps a
frame that is in use; and when the last of the slots and entries of such a frame is gone, the
frame is free. -/
theorem vmo_frames_are_counted {w : VmoWorld} (hw : Booted w) {ops : List VmoOp}
    (hops : Guarded step Allowed ⟨w, fun _ => 0⟩ ops) : let s := run step ⟨w, fun _ => 0⟩ ops
    (∀ f, 0 < slotsHolding s.world f → s.world.mmu.pmm.used f ∧
      s.world.mmu.pmm.refcounts f = slotsHolding s.world f + mappingsOf s.world f) ∧
    (∀ key pte, s.world.mmu.ptes key = some pte → s.world.mmu.pmm.used pte.frame) ∧
    ∀ f, 0 < slotsHolding s.world f → ∀ more,
      Guarded step (fun s op => Allowed s op ∧ 0 < referrers s.world f) s more →
      referrers (run step s more).world f = 0 → (run step s more).world.mmu.pmm.used f = false := by
  intro s
  have hgood : Good (fun _ => False) s.handles s.world [] := reached_good hw hops
  refine ⟨fun f hf => ⟨hgood.counts.used_slot hf, ?_⟩, hgood.counts.mapped, ?_⟩
  · exact (hgood.counts.tracked f (.inr (.inl hf))).count
  · intro f hf more hmore hgone
    have hstart : Good (· = f) s.handles s.world [] := hgood.mono fun g hg => .inr (hg ▸ hf)
    have hend := invariant_run (fun s : Ledger => Good (· = f) s.handles s.world [])
      (fun _ _ h hok => step_good h (fun g hg => hg ▸ hok.2) hok.1) hstart hmore
    rw [(hend.counts.tracked f (.inl rfl)).used]
    simpa [referrers] using hgone

/-- Sixteen frames, the first of them in use, and one task without a memory limit. -/
def bootWorld : VmoWorld where
  mmu :=
    { pmm := ⟨fun byte => if byte = 0 then 1 else 0, fun f => if f = 0 then 1 else 0, 16, 1, 0, 0,
        Nat.zero_le _⟩
      mem := fun _ _ => 0
      tables := fun _ => false
      ptes := fun _ => none }
  vmos := fun _ => none
  nextId := 0
  maps := fun _ => none
  tasks := fun pid => if pid = 0 then some ⟨1, 0, 0⟩ else none

lemma bootWorld_booted : Booted bootWorld where
  objects := fun _ => rfl
  mappings := fun _ => rfl
  entries := Set.finite_empty.subset fun _ hkey => hkey rfl
  mapped := fun _ _ hpte => by cases hpte

/-- Read and write access. -/
def readWrite : Prot := ⟨true, true, false⟩

/-- An object of one page is created and mapped. -/
def eagerOps : List VmoOp :=
  [.create 4096 ⟨true, false, false, false, false⟩ true true, .map 0 0 0 0 4096 readWrite]

/-- The state after the object has been created. -/
def eagerState : Ledger := run step ⟨bootWorld, fun _ => 0⟩ (eagerOps.take 1)

lemma eagerState_counts (f : ℕ) : eagerState.world.mmu.pmm.refcounts f ≤ 1 := by
  have hcounts : eagerState.world.mmu.pmm.refcounts =
      update (fun f => if f = 0 then 1 else 0) 1 1 := rfl
  rw [hcounts, update_apply]
  split_ifs <;> omega

lemma eagerState_mapRoom {o : Vmo} {t : Task} (hv : eagerState.world.vmos 0 = some o) :
    MapRoom eagerState.world o t 0 0 0 4096 where
  refs := by
    obtain rfl : (⟨⟨true, false, false, false, false⟩, 4096, 1, none, [4096]⟩ : Vmo) = o :=
      Option.some.inj hv
    decide
  populated := by decide
  unmapped := fun h => absurd rfl h
  room := fun f => by
    have hframe := eagerState_counts f
    have hlen := List.count_le_length (l := (List.range (4096 / pageSize)).map fun p =>
      eagerState.world.slot 0 (0 / pageSize + p) / pageSize) (a := f)
    have hone : ((List.range (4096 / pageSize)).map fun p =>
      eagerState.world.slot 0 (0 / pageSize + p) / pageSize).length = 1 := by decide
    omega

lemma eagerOps_allowed : Guarded step Allowed ⟨bootWorld, fun _ => 0⟩ eagerOps := by
  refine ⟨⟨trivial, rfl⟩, ⟨trivial, ?_⟩, trivial⟩
  intro o t hv _ _
  exact eagerState_mapRoom hv

theorem eager_page_is_counted :
    Booted bootWorld ∧ Guarded step Allowed ⟨bootWorld, fun _ => 0⟩ eagerOps ∧
      slotsHolding (run step ⟨bootWorld, fun _ => 0⟩ eagerOps).world 1 +
        mappingsOf (run step ⟨bootWorld, fun _ => 0⟩ eagerOps).world 1 = 2 := by
  refine ⟨bootWorld_booted, eagerOps_allowed, ?_⟩
  have hgood := reached_good bootWorld_booted eagerOps_allowed
  have hslot : (run step ⟨bootWorld, fun _ => 0⟩ eagerOps).world.slot 0 0 = 4096 := by decide
  have hpos := hgood.counts.slotsHolding_pos (show _ ≠ 0 by rw [hslot]; decide)
  rw [hslot] at hpos
  have hcount := ((vmo_frames_are_counted bootWorld_booted eagerOps_allowed).1 1 hpos).2
  exact hcount.symm.trans (by decide)

/-- An object of one page that is populated on demand, mapped and unmapped. -/
def onDemandOps : List VmoOp :=
  [.create 4096 ⟨true, true, false, false, false⟩ true true, .map 0 0 0 0 4096 readWrite,
    .unmap 0 userSearchBottom 4096]

/-- The slot and the entry of a page populated on demand have one reference together, so the
frame is free after the page has been unmapped, while the slot still holds it. -/
theorem unmapped_page_is_free_in_its_slot :
    Booted bootWorld ∧ Guarded step Owned ⟨bootWorld, fun _ => 0⟩ onDemandOps ∧
      ∃ f, 0 < slotsHolding (run step ⟨bootWorld, fun _ => 0⟩ onDemandOps).world f ∧
        (run step ⟨bootWorld, fun _ => 0⟩ onDemandOps).world.mmu.pmm.used f = false := by
  obtain ⟨w, hw⟩ : ∃ w, w = (run step ⟨bootWorld, fun _ => 0⟩ onDemandOps).world := ⟨_, rfl⟩
  have hslot : w.slot 0 0 = 4096 := by rw [hw]; decide
  have hother : ∀ v i, w.slot v i ≠ 0 → v = 0 ∧ i = 0 := by
    intro v i hne
    rw [hw] at hne
    cases v with
    | zero =>
      cases i with
      | zero => exact ⟨rfl, rfl⟩
      | succ i => exact absurd rfl hne
    | succ v => exact absurd rfl hne
  have hfinite : FinitelyMany (slotFrame w) := by
    apply (Set.finite_singleton (0, 0)).subset
    intro k hk
    by_contra hne
    refine hk (if_pos ?_)
    by_contra hzero
    obtain ⟨hv, hi⟩ := hother k.1 k.2 hzero
    exact hne (Prod.ext hv hi)
  refine ⟨bootWorld_booted, ⟨trivial, trivial, trivial, trivial⟩, 1, ?_, by decide⟩
  rw [← hw]
  apply (refs_pos_iff hfinite).mpr
  exact ⟨(0, 0), by rw [slotFrame, hslot]; rfl⟩

end GrahaOS.VmoRuns
