import GrahaOS.ChildLists

/-!
# What an eager revocation reaches

When the child lists agree with the parent indices, the cascade visits exactly the objects below its
root that are not cut off by an immortal one, unless its queue overflows, which it reports. After
the destruction of a linked object the walk can stop at an empty slot before the end of a list, and
it does not report that.
-/

namespace GrahaOS.CascadeExact

open Token CapRegistry Revoke CapHistory CascadeReach ChildLists Runs

/-- `j` hangs below `root` by parent indices, with no immortal object on the way. -/
inductive Below (r : Registry) (root : ℕ) : ℕ → Prop
  | child {j : ℕ} {o : CapObject} (hj : r.ptrs j = some o) (hp : o.parentIdx = root)
      (hm : hasFlag o.flags flagImmortal = false) : Below r root j
  | deeper {i j : ℕ} {o : CapObject} (hi : Below r root i) (hj : r.ptrs j = some o)
      (hp : o.parentIdx = i) (hm : hasFlag o.flags flagImmortal = false) : Below r root j

variable {r r' : Registry} {root j idx : ℕ} {obj : CapObject}

lemma Below.exists_object (h : Below r root j) : ∃ o, r.ptrs j = some o := by
  cases h with
  | child hj => exact ⟨_, hj⟩
  | deeper _ hj => exact ⟨_, hj⟩

/-- Where child lists and parent indices agree, both lead to the same objects. -/
lemma reach_iff_below (hl : Linked r) (hroot : r.ptrs root = some obj) (j : ℕ) :
    Reach r root j ↔ Below r root j := by
  have hlists : ∀ i obj, r.ptrs i = some obj → ∀ j o, r.ptrs j = some o →
      (InList r.ptrs obj.firstChildIdx j ↔ o.parentIdx = i) := by
    intro i obj hobj j o hj
    obtain ⟨kids, hchain, hkids⟩ := hl.children i obj hobj
    rw [hchain.inList_iff, hkids]
    constructor
    · rintro ⟨o', hj', hp⟩
      rw [hj] at hj'
      exact Option.some.inj hj' ▸ hp
    · exact fun hp => ⟨o, hj, hp⟩
  constructor
  · intro h
    induction h with
    | child hroot' hlist hj hm => exact .child hj ((hlists _ _ hroot' _ _ hj).mp hlist) hm
    | deeper _ hobj hlist hj hm ih => exact .deeper ih hj ((hlists _ _ hobj _ _ hj).mp hlist) hm
  · intro h
    induction h with
    | child hj hp hm => exact .child hroot ((hlists _ _ hroot _ _ hj).mpr hp) hj hm
    | deeper hi hj hp hm ih =>
      obtain ⟨obj', hobj'⟩ := hi.exists_object
      exact .deeper ih hobj' ((hlists _ _ hobj' _ _ hj).mpr hp) hj hm

/-- The whole cascade marks only what is below the root, and all of it unless it
reports truncation. -/
theorem cascadeFrom_spec (hl : Linked r) (hroot : r.ptrs root = some obj) :
    ∃ marked, (cascadeFrom r obj).reg = markAll r marked ∧ (∀ x ∈ marked, Below r root x) ∧
      ((cascadeFrom r obj).truncated = false → ∀ x, Below r root x → x ∈ marked) := by
  obtain ⟨marked, hreg, hsound, hall⟩ := cascadeFrom_reach hroot
  refine ⟨marked, hreg, fun x hx => (reach_iff_below hl hroot x).mp (hsound x hx), ?_⟩
  intro htr x hx
  exact hall htr x ((reach_iff_below hl hroot x).mpr hx)

lemma below_of_keeps (hk : Keeps r r') (h : Below r root j) : Below r' root j := by
  induction h with
  | @child j o hj hp hm =>
    obtain ⟨o', ho', hre⟩ := (hk j).2 o hj
    exact Below.child ho' (hre.parentIdx.trans hp) ((hre.hasFlag_eq (by decide)).trans hm)
  | @deeper i j o _ hj hp hm ih =>
    obtain ⟨o', ho', hre⟩ := (hk j).2 o hj
    exact Below.deeper ih ho' (hre.parentIdx.trans hp) ((hre.hasFlag_eq (by decide)).trans hm)

lemma below_keeps_iff (hk : Keeps r r') (root j : ℕ) : Below r' root j ↔ Below r root j := by
  refine ⟨?_, below_of_keeps hk⟩
  intro h
  induction h with
  | @child j o' hj hp hm =>
    obtain ⟨o, ho, hre⟩ := hk.back hj
    exact Below.child ho (hre.parentIdx.symm.trans hp) ((hre.hasFlag_eq (by decide)).symm.trans hm)
  | @deeper i j o' _ hj hp hm ih =>
    obtain ⟨o, ho, hre⟩ := hk.back hj
    exact Below.deeper ih ho (hre.parentIdx.symm.trans hp)
      ((hre.hasFlag_eq (by decide)).symm.trans hm)

/-- Exactly the object and what is below it is invalidated, if it was not before. -/
def InvalidatesExactly (r r' : Registry) (idx : ℕ) : Prop :=
  (∀ j, r.ptrs j = none → r'.ptrs j = none) ∧
    ∀ j o, r.ptrs j = some o →
      (j = idx ∨ Below r idx j → r'.ptrs j = some (invalidateLive o)) ∧
      (¬(j = idx ∨ Below r idx j) → r'.ptrs j = some o)

/-- Marking everything below an object just invalidated. -/
lemma invalidatesExactly_markAll (hobj : r.ptrs idx = some obj) (hlive : obj.deleted = false)
    {marked : List ℕ} (hmarked : ∀ x, x ∈ marked ↔ Below r idx x) :
    InvalidatesExactly r (markAll (updateSlot r idx invalidate) marked) idx := by
  have hroot : invalidateLive obj = invalidate obj := by simp [invalidateLive, hlive]
  have hagain : invalidateLive (invalidate obj) = invalidate obj := by
    simp [invalidateLive, invalidate]
  refine ⟨?_, ?_⟩
  · intro j hj
    have hne : j ≠ idx := by
      rintro rfl
      rw [hobj] at hj
      cases hj
    simp [markAll, updateSlot, hne, hj]
  · intro j o ho
    by_cases hj : j = idx
    · subst j
      rw [hobj] at ho
      cases ho
      refine ⟨fun _ => ?_, fun hnot => absurd (.inl rfl) hnot⟩
      by_cases hmem : idx ∈ marked <;> simp [markAll, updateSlot, hmem, hobj, hroot, hagain]
    · constructor
      · rintro (heq | hbelow)
        · exact absurd heq hj
        · simp [markAll, updateSlot, hj, (hmarked j).mpr hbelow, ho]
      · intro hnot
        have hmem : j ∉ marked := fun hmem => hnot (.inr ((hmarked j).mp hmem))
        simp [markAll, updateSlot, hj, hmem, ho]

/-- A successful eager revocation reports truncation or reaches exactly its targets. -/
theorem eager_revoke_of_linked (hl : Linked r) (hpos : 0 < idx) (hobj : r.ptrs idx = some obj)
    (himm : hasFlag obj.flags flagImmortal = false)
    (heager : hasFlag obj.flags flagEagerRevoke = true) (hlive : obj.deleted = false) :
    ((revokeCascade (updateSlot r idx invalidate) idx).truncated = true ∧
      ∃ o', (capObjectRevoke r idx).2.ptrs idx = some o' ∧
        hasFlag o'.flags flagCascadeTruncated = true) ∨
    InvalidatesExactly r (capObjectRevoke r idx).2 idx := by
  have hkeeps : Keeps r (updateSlot r idx invalidate) := Keeps.updateSlot idx Restamped.invalidate
  have hcap := hl.bounded idx obj hobj
  have hrange : ¬(idx = 0 ∨ capObjectCapacity ≤ idx) := by omega
  have hroot : (updateSlot r idx invalidate).ptrs idx = some (invalidate obj) :=
    updateSlot_self invalidate hobj
  have hrevoke : (capObjectRevoke r idx).2 =
      (revokeCascade (updateSlot r idx invalidate) idx).reg := by
    rw [capObjectRevoke, if_neg hrange]
    simp [hobj, himm, hlive, heager]
  have hcascade : revokeCascade (updateSlot r idx invalidate) idx =
      if (cascadeFrom (updateSlot r idx invalidate) (invalidate obj)).truncated then
        { cascadeFrom (updateSlot r idx invalidate) (invalidate obj) with
          reg := updateSlot (cascadeFrom (updateSlot r idx invalidate) (invalidate obj)).reg idx
            setTruncated }
      else cascadeFrom (updateSlot r idx invalidate) (invalidate obj) := by
    rw [revokeCascade, if_neg hrange]
    simp only [hroot]
  obtain ⟨marked, hreg, hsound, hcomplete⟩ :=
    cascadeFrom_spec (linked_of_keeps hl hkeeps) hroot
  rw [hrevoke, hcascade]
  generalize cascadeFrom (updateSlot r idx invalidate) (invalidate obj) = c at *
  by_cases htr : c.truncated = true
  · left
    rw [if_pos htr]
    refine ⟨htr, ?_⟩
    obtain ⟨o', ho', -⟩ := (markAll_keeps (updateSlot r idx invalidate) marked idx).2 _ hroot
    rw [← hreg] at ho'
    refine ⟨setTruncated o', updateSlot_self setTruncated ho', ?_⟩
    simp only [setTruncated]
    generalize o'.flags = f
    revert f
    decide
  · right
    rw [if_neg htr, hreg]
    apply invalidatesExactly_markAll hobj hlive
    intro x
    rw [← below_keeps_iff hkeeps idx x]
    exact ⟨hsound x, hcomplete (by simpa using htr) x⟩

/-- The sentinel of slot 0 stays immortal. -/
def SentinelImmortal (r : Registry) : Prop :=
  ∀ o, r.ptrs 0 = some o → hasFlag o.flags flagImmortal = true

lemma sentinelImmortal_step (r : Registry) (op : CapOp) (h : SentinelImmortal r) :
    SentinelImmortal (capStep r op) := by
  intro o' ho'
  rcases (capStep_effect r op).slot ho' with ⟨o, ho, hev⟩ | ⟨-, -, hslot, -⟩
  · rw [hev.hasFlag_eq (by decide)]
    exact h o ho
  · exact absurd (findFreeSlot_spec hslot).1 (lt_irrefl 0)

/-- In every state reached by a run that destroys only unlinked objects, an eager
revocation of an object that is live and not immortal either reports truncation, or
invalidates exactly that object and the live objects below it and leaves every other
object as it was. -/
theorem eager_revoke_invalidates_exactly {ops : List CapOp}
    (hrun : Guarded capStep DestroysUnlinked capObjectInit ops) {idx : ℕ} {obj : CapObject}
    (hobj : (run capStep capObjectInit ops).ptrs idx = some obj)
    (himm : hasFlag obj.flags flagImmortal = false)
    (heager : hasFlag obj.flags flagEagerRevoke = true) (hlive : obj.deleted = false) :
    ((revokeCascade (updateSlot (run capStep capObjectInit ops) idx invalidate) idx).truncated =
        true ∧
      ∃ o', (capObjectRevoke (run capStep capObjectInit ops) idx).2.ptrs idx = some o' ∧
        hasFlag o'.flags flagCascadeTruncated = true) ∨
    InvalidatesExactly (run capStep capObjectInit ops)
      (capObjectRevoke (run capStep capObjectInit ops) idx).2 idx := by
  have hl : Linked (run capStep capObjectInit ops) :=
    invariant_run Linked linked_step linked_init hrun
  have hsent : SentinelImmortal (run capStep capObjectInit ops) := by
    refine invariant_run_all SentinelImmortal sentinelImmortal_step ?_ ops
    intro o ho
    obtain rfl : sentinel = o := by simpa [capObjectInit] using ho
    decide
  have hpos : 0 < idx := by
    rcases Nat.eq_zero_or_pos idx with rfl | hpos
    · rw [hsent obj hobj] at himm
      cases himm
    · exact hpos
  exact eager_revoke_of_linked hl hpos hobj himm heager hlive

/-- A task's object that it may derive from and that revokes eagerly. -/
def eagerArgs : CreateArgs where
  kind := .file
  rights := rightRead ||| rightDerive
  audience := some [7]
  flags := flagEagerRevoke
  kindData := 0
  ownerPid := 7

/-- A copy of the object in a slot for the same task. -/
def copyArgs (parentIdx : ℕ) : DeriveArgs where
  parentIdx := parentIdx
  callerPid := 7
  rightsSubset := rightRead ||| rightDerive
  audienceSubset := none
  flagsSubset := 0#8

theorem eager_revoke_reaches_child :
    InvalidatesExactly (run capStep capObjectInit [.create true eagerArgs, .derive true (copyArgs 1)])
      (capObjectRevoke (run capStep capObjectInit
        [.create true eagerArgs, .derive true (copyArgs 1)]) 1).2 1 := by
  rcases @eager_revoke_invalidates_exactly
    [.create true eagerArgs, .derive true (copyArgs 1)] ⟨trivial, trivial, trivial⟩ 1
    { newObject eagerArgs idxNone with firstChildIdx := 2 } rfl (by decide) (by decide) rfl with
    ⟨htr, -⟩ | hexact
  · exact absurd htr (by decide)
  · exact hexact

/-- Destroying one of two children of an inner object hides the other one from the
cascade, which reports nothing. -/
theorem eager_revoke_misses_sibling_of_destroyed :
    ∃ ops idx obj j o, (run capStep capObjectInit ops).ptrs idx = some obj ∧
      hasFlag obj.flags flagImmortal = false ∧ hasFlag obj.flags flagEagerRevoke = true ∧
      obj.deleted = false ∧
      (revokeCascade (updateSlot (run capStep capObjectInit ops) idx invalidate) idx).truncated =
        false ∧
      Below (run capStep capObjectInit ops) idx j ∧
      (capObjectRevoke (run capStep capObjectInit ops) idx).2.ptrs j = some o ∧
      o.deleted = false := by
  let inner := derivedArgs (newObject eagerArgs idxNone) (copyArgs 1)
  let leaf := derivedArgs (newObject inner 1) (copyArgs 2)
  refine ⟨[.create true eagerArgs, .derive true (copyArgs 1), .derive true (copyArgs 2),
    .derive true (copyArgs 2), .destroy 4], 1,
    { newObject eagerArgs idxNone with firstChildIdx := 2 }, 3, newObject leaf 2,
    rfl, by decide, by decide, rfl, by decide, ?_, rfl, rfl⟩
  refine Below.deeper ?_ rfl rfl (by decide)
  exact Below.child rfl rfl (by decide)

end GrahaOS.CascadeExact
