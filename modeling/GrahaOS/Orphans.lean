import GrahaOS.CascadeExact

/-!
# Collecting the objects of a dead task

`revoke_collect_orphans` of `kernel/cap/revoke.c`: a sweep over all slots up to the high-water mark
that revokes the objects a task owned, with the cascade of each eager one. It passes over objects
that a cascade has marked, and nothing is missed, because that cascade has followed their child
lists. A child list whose member was destroyed leads to whatever object has taken the slot since.
-/

namespace GrahaOS.Orphans

open Token CapRegistry Revoke CapHistory CascadeReach CascadeExact Runs

/-- The object is live, owned by the task and not immortal. -/
def Orphaned (pid : ℤ) (o : CapObject) : Prop :=
  o.deleted = false ∧ o.ownerPid = pid ∧ hasFlag o.flags flagImmortal = false

instance (pid : ℤ) (o : CapObject) : Decidable (Orphaned pid o) :=
  inferInstanceAs (Decidable (_ ∧ _ ∧ _))

/-- One turn of the sweep. The truncation marks of its cascades are gathered; the source
logs them. -/
def sweepTurn (pid : ℤ) (c : Cascade) (i : ℕ) : Cascade :=
  match c.reg.ptrs i with
  | none => c
  | some obj =>
    if Orphaned pid obj then
      let reg := updateSlot c.reg i invalidate
      if hasFlag obj.flags flagEagerRevoke then
        let k := revokeCascade reg i
        ⟨k.reg, c.count + 1 + k.count, c.truncated || k.truncated⟩
      else ⟨reg, c.count + 1, c.truncated⟩
    else c

variable (r : Registry)

/-- The slots that the sweep visits. -/
def sweptSlots : List ℕ := List.range' 1 (min r.count capObjectCapacity - 1)

def revokeCollectOrphans (pid : ℤ) : Cascade :=
  if pid = pidKernel then ⟨r, 0, false⟩ else (sweptSlots r).foldl (sweepTurn pid) ⟨r, 0, false⟩

/-- The operations on the registry, with the collection at the death of a task. -/
inductive RegistryOp
  | cap (op : CapOp)
  | collect (pid : ℤ)

def registryStep : RegistryOp → Registry
  | .cap op => capStep r op
  | .collect pid => (revokeCollectOrphans r pid).reg

/-- The registry after the operations. -/
def reached (ops : List RegistryOp) : Registry := run registryStep capObjectInit ops

/-- `j` was derived from `i`, directly or through others, by the parent indices. -/
inductive Derived (r : Registry) (i : ℕ) : ℕ → Prop
  | child {j : ℕ} {o : CapObject} (hj : r.ptrs j = some o) (hp : o.parentIdx = i) : Derived r i j
  | deeper {k j : ℕ} {o : CapObject} (hk : Derived r i k) (hj : r.ptrs j = some o)
      (hp : o.parentIdx = k) : Derived r i j

/-- The object is owned by the task or was derived from one that is. -/
def Concerned (pid : ℤ) (i : ℕ) : Prop :=
  (∃ o, r.ptrs i = some o ∧ o.ownerPid = pid) ∨
    ∃ k o, r.ptrs k = some o ∧ o.ownerPid = pid ∧ Derived r k i

/-- No object that the task owned is left, and no other object has changed. -/
structure Collected (r r' : Registry) (pid : ℤ) : Prop where
  complete : ∀ i o, r'.ptrs i = some o → ¬Orphaned pid o
  sound : ∀ i, r'.ptrs i ≠ r.ptrs i → Concerned r pid i

/-- The task is not the kernel, or the kernel has nothing to lose; and every live object
that the child lists of its eager objects lead to concerns it. -/
def Clear (pid : ℤ) : Prop :=
  (pid = pidKernel → ∀ i o, r.ptrs i = some o → ¬Orphaned pid o) ∧
  (pid ≠ pidKernel → ∀ i o, r.ptrs i = some o → Orphaned pid o →
    hasFlag o.flags flagEagerRevoke = true → ∀ j o', Reach r i j → r.ptrs j = some o' →
      o'.deleted = false → Concerned r pid j)

/-- Slot 0 is immortal and every object lies below the high-water mark. -/
structure Bounded (r : Registry) : Prop where
  sentinel : SentinelImmortal r
  below : ∀ i o, r.ptrs i = some o → i < r.count ∧ i < capObjectCapacity

variable {r r' : Registry} {pid : ℤ} {i : ℕ} {obj o : CapObject} {marked : List ℕ} {c c' : Cascade}

lemma Bounded.stamped (h : Bounded r) (hs : Stamped r r') : Bounded r' where
  sentinel := by
    intro o' ho'
    obtain ⟨o, ho, hre⟩ := hs.keeps.back ho'
    rw [hre.hasFlag_eq (by decide)]
    exact h.sentinel o ho
  below := by
    intro i o' ho'
    obtain ⟨o, ho, -⟩ := hs.keeps.back ho'
    rw [hs.count]
    exact h.below i o ho

lemma sweepTurn_stamped (pid : ℤ) (c : Cascade) (i : ℕ) :
    Stamped c.reg (sweepTurn pid c i).reg := by
  have hinvalidated : Stamped c.reg (updateSlot c.reg i invalidate) :=
    Stamped.updateSlot i Restamped.invalidate
  unfold sweepTurn
  cases c.reg.ptrs i with
  | none => exact Stamped.refl _
  | some obj =>
    simp only
    split_ifs
    · exact hinvalidated.trans (revokeCascade_stamped _ _)
    · exact hinvalidated
    · exact Stamped.refl _

lemma revokeCollectOrphans_stamped (r : Registry) (pid : ℤ) :
    Stamped r (revokeCollectOrphans r pid).reg := by
  unfold revokeCollectOrphans
  split_ifs
  · exact Stamped.refl r
  · exact List.foldlRecOn (motive := fun c : Cascade => Stamped r c.reg) _ _ (Stamped.refl r)
      fun c hc i _ => hc.trans (sweepTurn_stamped pid c i)

lemma below_published {slot : ℕ} (h : Bounded r) (hslot : findFreeSlot r = some slot)
    (hcount : r'.count = if r.count ≤ slot then slot + 1 else r.count)
    (hold : ∀ i ≠ slot, ∀ o', r'.ptrs i = some o' → ∃ o, r.ptrs i = some o) :
    ∀ i o', r'.ptrs i = some o' → i < r'.count ∧ i < capObjectCapacity := by
  intro i o' ho'
  rw [hcount]
  by_cases hi : i = slot
  · subst hi
    refine ⟨?_, (findFreeSlot_spec hslot).2.1⟩
    split_ifs <;> omega
  · obtain ⟨o, ho⟩ := hold i hi o' ho'
    obtain ⟨hlt, hcap⟩ := h.below i o ho
    refine ⟨?_, hcap⟩
    split_ifs <;> omega

lemma bounded_capStep (h : Bounded r) (op : CapOp) : Bounded (capStep r op) := by
  refine ⟨sentinelImmortal_step r op h.sentinel, ?_⟩
  by_cases hrevoke : ∃ idx, op = .revoke idx
  · obtain ⟨idx, rfl⟩ := hrevoke
    exact (h.stamped (capObjectRevoke_stamped r idx)).below
  have heffect := capStep_effect r op
  generalize capStep r op = r' at heffect
  cases heffect with
  | same => exact h.below
  | @root slot slab a hop htakes hslot =>
    refine below_published h hslot rfl fun i hi o' ho' => ⟨o', ?_⟩
    simpa [install, hi] using ho'
  | @child slot a x parent hop htakes hslot hparent hpos hcap hchecks =>
    refine below_published h hslot rfl fun i hi o' ho' => ?_
    by_cases hp : i = a.parentIdx
    · exact ⟨parent, hp ▸ hparent⟩
    · exact ⟨o', by simpa [attach, hi, hp] using ho'⟩
  | revoked idx hop => exact absurd ⟨idx, hop⟩ hrevoke
  | cleared idx hop hpos =>
    intro i o' ho'
    by_cases hi : i = idx
    · simp [hi] at ho'
    · exact h.below i o' (by simpa [hi] using ho')

lemma bounded_reached (ops : List RegistryOp) : Bounded (reached ops) := by
  refine invariant_run_all Bounded ?_ ?_ ops
  · intro r op h
    cases op with
    | cap op => exact bounded_capStep h op
    | collect pid =>
      exact h.stamped (revokeCollectOrphans_stamped r pid)
  · have hzero : ∀ i o, capObjectInit.ptrs i = some o → i = 0 ∧ o = sentinel := by
      intro i o ho
      simp only [capObjectInit] at ho
      split_ifs at ho with hi
      exact ⟨hi, (Option.some.inj ho).symm⟩
    refine ⟨?_, ?_⟩
    · intro o ho
      rw [(hzero 0 o ho).2]
      decide
    · intro i o ho
      rw [(hzero i o ho).1]
      decide

/-- The cascade from an object marks what is reached from it, and all of it unless it
reports truncation; only the root itself may also get the truncation mark. -/
lemma revokeCascade_reach {root : ℕ} (hrange : ¬(root = 0 ∨ capObjectCapacity ≤ root))
    (hroot : r.ptrs root = some obj) :
    ∃ marked, (∀ j ≠ root, (revokeCascade r root).reg.ptrs j = (markAll r marked).ptrs j) ∧
      (∀ x ∈ marked, Reach r root x) ∧
      ((revokeCascade r root).truncated = false → ∀ x, Reach r root x → x ∈ marked) := by
  obtain ⟨marked, hreg, hsound, hall⟩ := cascadeFrom_reach hroot
  refine ⟨marked, ?_, hsound, ?_⟩
  · intro j hj
    simp only [revokeCascade, if_neg hrange, hroot]
    split_ifs
    · simp [updateSlot, hj, hreg]
    · rw [hreg]
  · intro htr
    refine hall ?_
    simp only [revokeCascade, if_neg hrange, hroot] at htr
    split_ifs at htr with hmark
    · rw [hmark] at htr
      cases htr
    · exact htr

/-- What a turn that revokes an object has done. -/
structure Revoked (pid : ℤ) (c c' : Cascade) (i : ℕ) (obj : CapObject) (marked : List ℕ) :
    Prop where
  object : c.reg.ptrs i = some obj
  orphaned : Orphaned pid obj
  deleted : ∃ o, c'.reg.ptrs i = some o ∧ o.deleted = true
  others : ∀ j ≠ i, c'.reg.ptrs j = (markAll c.reg marked).ptrs j
  sound : ∀ x ∈ marked, hasFlag obj.flags flagEagerRevoke = true ∧ Reach c.reg i x
  untruncated : c'.truncated = false → c.truncated = false
  all : c'.truncated = false → hasFlag obj.flags flagEagerRevoke = true →
    ∀ x, Reach c.reg i x → x ∈ marked

lemma sweepTurn_cases (pid : ℤ) (c : Cascade) (hrange : ¬(i = 0 ∨ capObjectCapacity ≤ i)) :
    (sweepTurn pid c i = c ∧ ∀ o, c.reg.ptrs i = some o → ¬Orphaned pid o) ∨
      ∃ obj marked, Revoked pid c (sweepTurn pid c i) i obj marked := by
  cases hobj : c.reg.ptrs i with
  | none => exact .inl ⟨by simp [sweepTurn, hobj], by simp⟩
  | some obj =>
  by_cases horphan : Orphaned pid obj
  swap
  · refine .inl ⟨by simp [sweepTurn, hobj, horphan], ?_⟩
    rintro o ho
    exact Option.some.inj ho ▸ horphan
  right
  have hkeeps : Keeps c.reg (updateSlot c.reg i invalidate) :=
    Keeps.updateSlot i Restamped.invalidate
  have hself : (updateSlot c.reg i invalidate).ptrs i = some (invalidate obj) :=
    updateSlot_self invalidate hobj
  by_cases heager : hasFlag obj.flags flagEagerRevoke = true
  · obtain ⟨marked, hothers, hsound, hall⟩ := revokeCascade_reach hrange hself
    obtain ⟨o, ho, hre⟩ := ((revokeCascade_stamped (updateSlot c.reg i invalidate) i).keeps
      i).2 _ hself
    have hturn : sweepTurn pid c i =
        ⟨(revokeCascade (updateSlot c.reg i invalidate) i).reg,
          c.count + 1 + (revokeCascade (updateSlot c.reg i invalidate) i).count,
          c.truncated || (revokeCascade (updateSlot c.reg i invalidate) i).truncated⟩ := by
      simp [sweepTurn, hobj, horphan, heager]
    rw [hturn]
    refine ⟨obj, marked, hobj, horphan, ⟨o, ho, hre.deleted rfl⟩, ?_, ?_, ?_, ?_⟩
    · intro j hj
      rw [hothers j hj]
      simp [markAll, updateSlot, hj]
    · exact fun x hx => ⟨heager, (reach_keeps_iff hkeeps i x).mp (hsound x hx)⟩
    · exact fun htr => (Bool.or_eq_false_iff.mp htr).1
    · exact fun htr _ x hx => hall (Bool.or_eq_false_iff.mp htr).2 x
        ((reach_keeps_iff hkeeps i x).mpr hx)
  · have hturn : sweepTurn pid c i = ⟨updateSlot c.reg i invalidate, c.count + 1, c.truncated⟩ := by
      simp [sweepTurn, hobj, horphan, heager]
    rw [hturn]
    refine ⟨obj, [], hobj, horphan, ⟨_, hself, rfl⟩, ?_, by simp, id, fun _ h => absurd h heager⟩
    intro j hj
    simp [markAll, updateSlot, hj]

/-- An object from which the sweep starts a cascade if it comes to it first. -/
def Starts (r : Registry) (pid : ℤ) (i : ℕ) : Prop :=
  ∃ o, r.ptrs i = some o ∧ Orphaned pid o ∧ hasFlag o.flags flagEagerRevoke = true

def Dead (r : Registry) (i : ℕ) : Prop := ∃ o, r.ptrs i = some o ∧ o.deleted = true

lemma Dead.keeps (hk : Keeps r r') (h : Dead r i) : Dead r' i := by
  obtain ⟨o, ho, hdeleted⟩ := h
  obtain ⟨o', ho', hre⟩ := (hk i).2 o ho
  exact ⟨o', ho', hre.deleted hdeleted⟩

lemma Orphaned.back {o' : CapObject} (hre : Restamped o o') (h : Orphaned pid o') :
    Orphaned pid o := by
  obtain ⟨hlive, howner, himm⟩ := h
  refine ⟨?_, hre.ownerPid ▸ howner, (hre.hasFlag_eq (by decide)).symm.trans himm⟩
  by_contra hdeleted
  rw [hre.deleted (by simpa using hdeleted)] at hlive
  cases hlive

/-- The state of a sweep that has visited the listed slots. -/
structure Swept (r : Registry) (pid : ℤ) (visited : List ℕ) (c : Cascade) : Prop where
  keeps : Keeps r c.reg
  visited : ∀ i ∈ visited, ∀ o, c.reg.ptrs i = some o → ¬Orphaned pid o
  changed : ∀ j o, r.ptrs j = some o → c.reg.ptrs j ≠ some o →
    o.ownerPid = pid ∨ (o.deleted = false ∧ ∃ i, Starts r pid i ∧ Reach r i j)
  closed : c.truncated = false → ∀ i, Starts r pid i → Dead c.reg i → ∀ j, Reach r i j →
    Dead c.reg j

lemma dead_marked {x : ℕ} (hx : x ∈ marked) (ho : r.ptrs x = some o) :
    Dead (markAll r marked) x := by
  refine ⟨invalidateLive o, by simp [markAll, hx, ho], ?_⟩
  unfold invalidateLive
  split_ifs with hdeleted
  · exact hdeleted
  · rfl

lemma Revoked.starts (h : Revoked pid c c' i obj marked) (hk : Keeps r c.reg)
    (heager : hasFlag obj.flags flagEagerRevoke = true) : Starts r pid i := by
  obtain ⟨o, ho, hre⟩ := hk.back h.object
  exact ⟨o, ho, h.orphaned.back hre, (hre.hasFlag_eq (by decide)).symm.trans heager⟩

lemma Revoked.dead (h : Revoked pid c c' i obj marked) (hk : Keeps r c.reg)
    (htr : c'.truncated = false) (heager : hasFlag obj.flags flagEagerRevoke = true) {j : ℕ}
    (hj : Reach r i j) : Dead c'.reg j := by
  by_cases hself : j = i
  · exact hself ▸ h.deleted
  have hreach : Reach c.reg i j := (reach_keeps_iff hk i j).mpr hj
  obtain ⟨o, ho, -⟩ := hreach.exists_object
  obtain ⟨o', ho', hdeleted⟩ := dead_marked (h.all htr heager j hreach) ho
  exact ⟨o', (h.others j hself).trans ho', hdeleted⟩

lemma Swept.turn {visited : List ℕ} (h : Swept r pid visited c)
    (hrange : ¬(i = 0 ∨ capObjectCapacity ≤ i)) :
    Swept r pid (i :: visited) (sweepTurn pid c i) := by
  have hturn := (sweepTurn_stamped pid c i).keeps
  rcases sweepTurn_cases pid c hrange with ⟨hsame, hnot⟩ | ⟨obj, marked, hrev⟩
  · rw [hsame]
    refine ⟨h.keeps, ?_, h.changed, h.closed⟩
    intro k hk o ho
    rcases List.mem_cons.mp hk with rfl | hk
    · exact hnot o ho
    · exact h.visited k hk o ho
  · refine ⟨h.keeps.trans hturn, ?_, ?_, ?_⟩
    · intro k hk o' ho' horphan
      obtain ⟨o, ho, hre⟩ := hturn.back ho'
      rcases List.mem_cons.mp hk with rfl | hk
      · obtain ⟨o₁, ho₁, hdeleted⟩ := hrev.deleted
        rw [ho'] at ho₁
        cases ho₁
        rw [horphan.1] at hdeleted
        cases hdeleted
      · exact h.visited k hk o ho (horphan.back hre)
    · intro j o ho hchanged
      by_cases hbefore : c.reg.ptrs j = some o
      swap
      · exact h.changed j o ho hbefore
      by_cases hj : j = i
      · subst hj
        have hobj := hrev.object
        rw [hbefore] at hobj
        cases hobj
        exact .inl hrev.orphaned.2.1
      · rw [hrev.others j hj] at hchanged
        by_cases hmarked : j ∈ marked
        swap
        · exact absurd (by simp [markAll, hmarked, hbefore]) hchanged
        obtain ⟨heager, hreach⟩ := hrev.sound j hmarked
        refine .inr ⟨?_, i, hrev.starts h.keeps heager, (reach_keeps_iff h.keeps i j).mp hreach⟩
        by_contra hdeleted
        refine hchanged ?_
        simp [markAll, hmarked, hbefore, invalidateLive, hdeleted]
    · intro htr k hk hdead j hj
      by_cases hbefore : Dead c.reg k
      · exact (h.closed (hrev.untruncated htr) k hk hbefore j hj).keeps hturn
      by_cases hself : k = i
      · subst hself
        obtain ⟨o, ho, -, heager⟩ := hk
        obtain ⟨o', ho', hre⟩ := (h.keeps k).2 o ho
        have hobj := hrev.object
        rw [ho'] at hobj
        cases hobj
        exact hrev.dead h.keeps htr ((hre.hasFlag_eq (by decide)).trans heager) hj
      · -- the cascade that has just marked `k` has followed its child list too
        obtain ⟨o', ho', hdeleted⟩ := hdead
        rw [hrev.others k hself] at ho'
        by_cases hmarked : k ∈ marked
        swap
        · exact absurd ⟨o', by simpa [markAll, hmarked] using ho', hdeleted⟩ hbefore
        obtain ⟨heager, hreach⟩ := hrev.sound k hmarked
        exact hrev.dead h.keeps htr heager (((reach_keeps_iff h.keeps i k).mp hreach).trans hj)

lemma swept_foldl (slots : List ℕ) : ∀ {visited : List ℕ} {c : Cascade},
    (∀ i ∈ slots, ¬(i = 0 ∨ capObjectCapacity ≤ i)) → Swept r pid visited c →
      Swept r pid (slots.reverse ++ visited) (slots.foldl (sweepTurn pid) c) := by
  induction slots with
  | nil =>
    intro visited c _ h
    exact h
  | cons i slots ih =>
    intro visited c hrange h
    have hturn := h.turn (hrange i List.mem_cons_self)
    have hrest := ih (fun k hk => hrange k (List.mem_cons_of_mem i hk)) hturn
    simpa using hrest

lemma swept_collect (r : Registry) (hpid : pid ≠ pidKernel) :
    Swept r pid (sweptSlots r).reverse (revokeCollectOrphans r pid) := by
  have hstart : Swept r pid [] ⟨r, 0, false⟩ := by
    refine ⟨Keeps.refl r, by simp, fun j o ho hne => absurd ho hne, ?_⟩
    rintro - i ⟨o, ho, horphan, -⟩ ⟨o', ho', hdeleted⟩
    have hobj : r.ptrs i = some o' := ho'
    rw [ho] at hobj
    cases hobj
    rw [horphan.1] at hdeleted
    cases hdeleted
  have hrange : ∀ i ∈ sweptSlots r, ¬(i = 0 ∨ capObjectCapacity ≤ i) := by
    intro i hi
    rw [sweptSlots, List.mem_range'_1] at hi
    omega
  have hswept := swept_foldl (sweptSlots r) hrange hstart
  rw [List.append_nil] at hswept
  rw [revokeCollectOrphans, if_neg hpid]
  exact hswept

/-- The sweep comes to every object below the high-water mark. -/
lemma none_orphaned (h : Bounded r) (hpid : pid ≠ pidKernel)
    (ho : (revokeCollectOrphans r pid).reg.ptrs i = some o) : ¬Orphaned pid o := by
  have hswept := swept_collect r hpid
  obtain ⟨o₀, ho₀, hre⟩ := hswept.keeps.back ho
  intro horphan
  by_cases hzero : i = 0
  · subst hzero
    have himm := (horphan.back hre).2.2
    rw [h.sentinel o₀ ho₀] at himm
    cases himm
  · refine hswept.visited i ?_ o ho horphan
    obtain ⟨hcount, hcap⟩ := h.below i o₀ ho₀
    rw [List.mem_reverse, sweptSlots, List.mem_range'_1]
    omega

/-- In every registry that operations lead to, a collection that meets the condition leaves
no live object of the task and changes no object that does not concern it; and if none of
its cascades was truncated, a collection that does so meets the condition. -/
theorem orphans_are_collected (ops : List RegistryOp) (pid : ℤ) :
    (Clear (reached ops) pid →
      Collected (reached ops) (revokeCollectOrphans (reached ops) pid).reg pid) ∧
    ((revokeCollectOrphans (reached ops) pid).truncated = false →
      Collected (reached ops) (revokeCollectOrphans (reached ops) pid).reg pid →
        Clear (reached ops) pid) := by
  have hbounded := bounded_reached ops
  generalize reached ops = r at hbounded
  by_cases hpid : pid = pidKernel
  · have hsame : (revokeCollectOrphans r pid).reg = r := by simp [revokeCollectOrphans, hpid]
    rw [hsame]
    refine ⟨fun hclear => ⟨hclear.1 hpid, fun i hne => absurd rfl hne⟩, fun _ hcollected => ?_⟩
    exact ⟨fun _ => hcollected.complete, fun hne => absurd hpid hne⟩
  · have hswept := swept_collect r hpid
    constructor
    · intro hclear
      refine ⟨fun i o ho => none_orphaned hbounded hpid ho, ?_⟩
      intro j hchanged
      cases ho : r.ptrs j with
      | none => exact absurd (((hswept.keeps j).1 ho).trans ho.symm) hchanged
      | some o =>
        rw [ho] at hchanged
        rcases hswept.changed j o ho hchanged with howner | ⟨hlive, i, ⟨obj, hobj, horphan, heager⟩,
          hreach⟩
        · exact Or.inl ⟨o, ho, howner⟩
        · exact hclear.2 hpid i obj hobj horphan heager j o hreach ho hlive
    · intro htr hcollected
      refine ⟨fun heq => absurd heq hpid, ?_⟩
      intro _ i obj hobj horphan heager j o hreach ho hlive
      refine hcollected.sound j ?_
      obtain ⟨o', ho', hre⟩ := (hswept.keeps i).2 obj hobj
      have hdead : Dead (revokeCollectOrphans r pid).reg i := by
        refine ⟨o', ho', ?_⟩
        by_contra hlive'
        refine none_orphaned hbounded hpid ho' ⟨by simpa using hlive', ?_, ?_⟩
        · exact hre.ownerPid.trans horphan.2.1
        · exact (hre.hasFlag_eq (by decide)).trans horphan.2.2
      obtain ⟨o'', ho'', hdeleted⟩ :=
        hswept.closed htr i ⟨obj, hobj, horphan, heager⟩ hdead j hreach
      rw [ho'', ho]
      intro heq
      rw [Option.some.inj heq, hlive] at hdeleted
      cases hdeleted

/-- Task 7 has an eager object and a copy derived from it. -/
def ownCopy : List RegistryOp := [.cap (.create true eagerArgs), .cap (.derive true (copyArgs 1))]

theorem own_copy_is_collected :
    Clear (reached ownCopy) 7 ∧
      Collected (reached ownCopy) (revokeCollectOrphans (reached ownCopy) 7).reg 7 := by
  have howned : ∀ j o, (reached ownCopy).ptrs j = some o → 0 < j → o.ownerPid = 7 := by
    intro j o ho hpos
    have hlt : j < 3 := ((bounded_reached ownCopy).below j o ho).1
    have hall : ∀ j < 3, 0 < j → ∀ o ∈ (reached ownCopy).ptrs j, o.ownerPid = 7 := by decide
    exact hall j hlt hpos o ho
  have hclear : Clear (reached ownCopy) 7 := by
    refine ⟨fun h => absurd h (by decide), ?_⟩
    intro _ i obj _ _ _ j o hreach ho _
    refine Or.inl ⟨o, ho, howned j o ho (Nat.pos_of_ne_zero ?_)⟩
    rintro rfl
    obtain ⟨o', ho', hmortal⟩ := hreach.exists_object
    rw [(bounded_reached ownCopy).sentinel o' ho'] at hmortal
    cases hmortal
  exact ⟨hclear, (orphans_are_collected ownCopy 7).1 hclear⟩

/-- An object of task 9 that was derived from nothing. -/
def strangerArgs : CreateArgs := { eagerArgs with flags := 0#8, audience := some [9], ownerPid := 9 }

/-- Task 7 derives an object from its eager one, the derived object is destroyed, and task 9
gets the slot. -/
def reusedSlot : List RegistryOp :=
  [.cap (.create true eagerArgs), .cap (.derive true (copyArgs 1)), .cap (.destroy 2),
    .cap (.create true strangerArgs)]

/-- The collection for task 7 revokes the object of task 9. -/
theorem stranger_is_revoked :
    (reached reusedSlot).ptrs 2 = some (newObject strangerArgs idxNone) ∧
      (revokeCollectOrphans (reached reusedSlot) 7).reg.ptrs 2 =
        some (invalidate (newObject strangerArgs idxNone)) ∧
      ¬Concerned (reached reusedSlot) 7 2 := by
  have hstranger : (reached reusedSlot).ptrs 2 = some (newObject strangerArgs idxNone) := rfl
  have hnone : (reached reusedSlot).ptrs idxNone = none := rfl
  refine ⟨hstranger, rfl, ?_⟩
  rintro (⟨o, ho, howner⟩ | ⟨k, o, hk, -, hderived⟩)
  · rw [hstranger] at ho
    rw [← Option.some.inj ho] at howner
    exact absurd howner (by decide)
  cases hderived with
  | child hj hp =>
    rw [hstranger] at hj
    rw [← hp, ← Option.some.inj hj] at hk
    exact absurd (hk.symm.trans hnone) (by simp)
  | deeper hbetween hj hp =>
    rw [hstranger] at hj
    rw [← hp, ← Option.some.inj hj] at hbetween
    have hempty : ∀ o, (reached reusedSlot).ptrs idxNone ≠ some o := by simp [hnone]
    cases hbetween with
    | child hj' => exact hempty _ hj'
    | deeper _ hj' => exact hempty _ hj'

end GrahaOS.Orphans
