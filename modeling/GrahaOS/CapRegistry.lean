import GrahaOS.Masks
import GrahaOS.Token

/-!
# The capability object registry

`kernel/cap/object.c`: a table of at most `CAP_OBJECT_CAPACITY` objects; slot 0 is the kernel's
sentinel. Each operation holds the registry lock for its whole effect and is one transition here. An
object's audience is a list of at most eight pids. The slab allocator is represented by its outcome.
Every derived object is spliced at the head of its parent's child list, and destroying an object
only clears its slot.
-/

namespace GrahaOS.CapRegistry

open Masks Token

def capObjectCapacity : ℕ := 65536

def idxNone : ℕ := 0xFFFFFFFF

def capAudienceMax : ℕ := 8

/-- `audience_set` with its count. -/
structure Audience where
  pids : List ℤ
  bound : pids.length ≤ capAudienceMax
deriving DecidableEq

/-- `cap_object_t`, without its watcher list. -/
structure CapObject where
  kind : CapKind
  deleted : Bool
  generation : BitVec 32
  rightsBitmap : BitVec 64
  kindData : ℕ
  audienceSet : Audience
  flags : BitVec 8
  parentIdx : ℕ
  ownerPid : ℤ
  firstChildIdx : ℕ
  nextSiblingIdx : ℕ
deriving DecidableEq

/-- `g_cap_object_ptrs` and `g_cap_object_count`. -/
@[ext]
structure Registry where
  ptrs : ℕ → Option CapObject
  count : ℕ

/-- The entries of a `PID_NONE`-terminated array that the kernel reads. -/
def terminated (src : List ℤ) : List ℤ :=
  (src.take capAudienceMax).takeWhile (· ≠ pidNone)

lemma terminated_length_le (src : List ℤ) : (terminated src).length ≤ capAudienceMax :=
  (List.takeWhile_sublist _).length_le.trans (List.length_take_le _ _)

/-- `cap_object_copy_audience`; a missing array stands for the fallback pid. -/
def copyAudience (src : Option (List ℤ)) (fallbackPid : ℤ) : Audience :=
  match src with
  | none => ⟨[fallbackPid], by simp [capAudienceMax]⟩
  | some pids => ⟨terminated pids, terminated_length_le pids⟩

/-- The slot 0 object that `cap_object_init` installs. -/
def sentinel : CapObject where
  kind := .none
  deleted := false
  generation := 1#32
  rightsBitmap := rightsAll
  kindData := 0
  audienceSet := ⟨[pidPublic], by decide⟩
  flags := flagImmortal ||| flagPublic
  parentIdx := idxNone
  ownerPid := pidKernel
  firstChildIdx := idxNone
  nextSiblingIdx := idxNone

/-- The registry after `cap_object_init`. -/
def capObjectInit : Registry where
  ptrs := fun i => if i = 0 then some sentinel else none
  count := 1

def capObjectGet (r : Registry) (idx : ℕ) : Option CapObject :=
  if capObjectCapacity ≤ idx then none else r.ptrs idx

def validateAudience (obj : CapObject) (pid : ℤ) : Bool :=
  hasFlag obj.flags flagPublic || obj.audienceSet.pids.contains pid

/-- `cap_token_resolve`. The pointer it returns is represented by the slot it was
read from. -/
def capTokenResolve (r : Registry) (callingPid : ℤ) (tok : CapToken)
    (requiredRights : BitVec 64) : Option ℕ :=
  if capTokenIsNull tok then none
  else if capTokenIdx tok = 0 ∨ capObjectCapacity ≤ capTokenIdx tok then none
  else match r.ptrs (capTokenIdx tok) with
    | none => none
    | some obj =>
      if obj.deleted then none
      else if obj.generation ≠ capTokenGen tok then none
      else if !validateAudience obj callingPid then none
      else if obj.rightsBitmap &&& requiredRights ≠ requiredRights then none
      else some (capTokenIdx tok)

variable {r : Registry} {parent : CapObject}

theorem capTokenResolve_eq_some {pid : ℤ} {tok : CapToken} {rights : BitVec 64} {i : ℕ}
    (h : capTokenResolve r pid tok rights = some i) :
    i = capTokenIdx tok ∧ 0 < i ∧ i < capObjectCapacity ∧ ∃ obj, r.ptrs i = some obj ∧
      obj.deleted = false ∧ obj.generation = capTokenGen tok ∧
      validateAudience obj pid = true ∧ Within rights obj.rightsBitmap := by
  unfold capTokenResolve at h
  split_ifs at h with hnull hrange
  cases hobj : r.ptrs (capTokenIdx tok) with
  | none => simp [hobj] at h
  | some obj =>
  simp only [hobj] at h
  split_ifs at h with hdel hgen haud hrights
  obtain rfl : capTokenIdx tok = i := by simpa using h
  push Not at hrange
  refine ⟨rfl, Nat.pos_of_ne_zero hrange.1, hrange.2, obj, hobj, ?_, ?_, ?_, ?_⟩
  · simpa using hdel
  · simpa using hgen
  · simpa using haud
  · simpa [Within] using hrights

def findFreeSlotFrom (ptrs : ℕ → Option CapObject) : (fuel i : ℕ) → Option ℕ
  | 0, _ => none
  | fuel + 1, i =>
    match ptrs i with
    | none => some i
    | some _ => findFreeSlotFrom ptrs fuel (i + 1)

/-- `cap_object_find_free_slot_locked`: the lowest free slot from 1 on. -/
def findFreeSlot (r : Registry) : Option ℕ :=
  findFreeSlotFrom r.ptrs (capObjectCapacity - 1) 1

lemma findFreeSlotFrom_spec {ptrs : ℕ → Option CapObject} {fuel i slot : ℕ}
    (h : findFreeSlotFrom ptrs fuel i = some slot) :
    i ≤ slot ∧ slot < i + fuel ∧ ptrs slot = none := by
  induction fuel generalizing i with
  | zero => simp [findFreeSlotFrom] at h
  | succ fuel ih =>
  rw [findFreeSlotFrom] at h
  cases hi : ptrs i with
  | none =>
    obtain rfl : i = slot := by simpa [hi] using h
    exact ⟨le_rfl, by omega, hi⟩
  | some o =>
    rw [hi] at h
    obtain ⟨hlo, hhi, hfree⟩ := ih h
    exact ⟨by omega, by omega, hfree⟩

theorem findFreeSlot_spec {slot : ℕ} (h : findFreeSlot r = some slot) :
    0 < slot ∧ slot < capObjectCapacity ∧ r.ptrs slot = none := by
  obtain ⟨hlo, hhi, hfree⟩ := findFreeSlotFrom_spec h
  have hcap : capObjectCapacity = 65536 := rfl
  exact ⟨by omega, by omega, hfree⟩

variable (r)

def linkChild (parentIdx childIdx : ℕ) : Registry :=
  if parentIdx = idxNone ∨ capObjectCapacity ≤ parentIdx then r
  else if childIdx = 0 ∨ capObjectCapacity ≤ childIdx then r
  else match r.ptrs parentIdx, r.ptrs childIdx with
    | some parent, some _ =>
      let linked := Function.update r.ptrs childIdx ((r.ptrs childIdx).map
        fun c : CapObject => { c with nextSiblingIdx := parent.firstChildIdx })
      { r with ptrs := Function.update linked parentIdx ((linked parentIdx).map
          fun p : CapObject => { p with firstChildIdx := childIdx }) }
    | _, _ => r

/-- The arguments of `cap_object_create` other than the parent index. -/
structure CreateArgs where
  kind : CapKind
  rights : BitVec 64
  audience : Option (List ℤ)
  flags : BitVec 8
  kindData : ℕ
  ownerPid : ℤ

/-- The object body that `cap_object_create` fills in before it takes the lock. -/
def newObject (a : CreateArgs) (parentIdx : ℕ) : CapObject where
  kind := a.kind
  deleted := false
  generation := 1#32
  rightsBitmap := a.rights
  kindData := a.kindData
  audienceSet := copyAudience a.audience a.ownerPid
  flags := if (copyAudience a.audience a.ownerPid).pids.contains pidPublic then
      a.flags ||| flagPublic else a.flags
  parentIdx := parentIdx
  ownerPid := a.ownerPid
  firstChildIdx := idxNone
  nextSiblingIdx := idxNone

/-- Publishing an object in a slot, with the high-water mark. -/
def install (slot : ℕ) (obj : CapObject) : Registry where
  ptrs := Function.update r.ptrs slot (some obj)
  count := if r.count ≤ slot then slot + 1 else r.count

def capObjectCreate (slab : Bool) (a : CreateArgs) (parentIdx : ℕ) : Except CapError ℕ × Registry :=
  if slab = false then (.error .enomem, r)
  else match findFreeSlot r with
    | none => (.error .enomem, r)
    | some slot =>
      let installed := install r slot (newObject a parentIdx)
      (.ok slot,
        if parentIdx ≠ idxNone ∧ parentIdx < capObjectCapacity then
          linkChild installed parentIdx slot
        else installed)

/-- Publishing a child: the new object heads its parent's child list. -/
def attach (slot : ℕ) (obj : CapObject) (p : ℕ) (parent : CapObject) : Registry where
  ptrs := Function.update
    (Function.update r.ptrs slot (some { obj with nextSiblingIdx := parent.firstChildIdx }))
    p (some { parent with firstChildIdx := slot })
  count := if r.count ≤ slot then slot + 1 else r.count

variable {r}

lemma linkChild_install {slot p : ℕ} {obj : CapObject} (hslot : 0 < slot)
    (hcap : slot < capObjectCapacity) (hfree : r.ptrs slot = none) (hp : p < capObjectCapacity)
    (hparent : r.ptrs p = some parent) :
    linkChild (install r slot obj) p slot = attach r slot obj p parent := by
  have hne : p ≠ slot := by
    intro h
    rw [h, hfree] at hparent
    cases hparent
  have hnone : p ≠ idxNone := by
    intro h
    rw [h] at hp
    exact absurd hp (by decide)
  have hp' : ¬(p = idxNone ∨ capObjectCapacity ≤ p) := by
    push Not
    exact ⟨hnone, hp⟩
  have hslot' : ¬(slot = 0 ∨ capObjectCapacity ≤ slot) := by omega
  rw [linkChild, if_neg hp', if_neg hslot']
  simp [install, attach, hne, hparent]

variable (r)

/-- What creation without a parent can do. -/
theorem capObjectCreate_root (slab : Bool) (a : CreateArgs) :
    capObjectCreate r slab a idxNone = (.error .enomem, r) ∨
      ∃ slot, slab = true ∧ findFreeSlot r = some slot ∧ capObjectCreate r slab a idxNone =
        (.ok slot, install r slot (newObject a idxNone)) := by
  unfold capObjectCreate
  cases slab with
  | false => exact .inl rfl
  | true =>
    cases hslot : findFreeSlot r with
    | none => exact .inl rfl
    | some slot => exact .inr ⟨slot, rfl, rfl, rfl⟩

/-- What creation under an existing parent can do. -/
theorem capObjectCreate_child (slab : Bool) (a : CreateArgs) {p : ℕ} (hp : p < capObjectCapacity)
    (hparent : r.ptrs p = some parent) :
    capObjectCreate r slab a p = (.error .enomem, r) ∨
      ∃ slot, slab = true ∧ findFreeSlot r = some slot ∧ capObjectCreate r slab a p =
        (.ok slot, attach r slot (newObject a p) p parent) := by
  unfold capObjectCreate
  cases slab with
  | false => exact .inl rfl
  | true =>
  cases hslot : findFreeSlot r with
  | none => exact .inl rfl
  | some slot =>
  obtain ⟨hpos, hcap, hfree⟩ := findFreeSlot_spec hslot
  have hcond : p ≠ idxNone ∧ p < capObjectCapacity := by
    refine ⟨?_, hp⟩
    intro h
    rw [h] at hp
    exact absurd hp (by decide)
  refine .inr ⟨slot, rfl, rfl, ?_⟩
  simp only [Bool.true_eq_false, if_false, if_pos hcond,
    linkChild_install hpos hcap hfree hp hparent]

variable (parent)

def audienceIsSubset (subset : Option (List ℤ)) : Bool :=
  hasFlag parent.flags flagPublic ||
    match subset with
    | none => true
    | some pids => (terminated pids).all fun p =>
        p ≠ pidPublic && parent.audienceSet.pids.contains p

/-- The arguments of the derive functions. -/
structure DeriveArgs where
  parentIdx : ℕ
  callerPid : ℤ
  rightsSubset : BitVec 64
  audienceSubset : Option (List ℤ)
  flagsSubset : BitVec 8

def privilegedFlags : BitVec 8 := flagPublic ||| flagImmortal
def kernelManagedFlags : BitVec 8 := flagShimEphemeral ||| flagCascadeTruncated

/-- The checks of `cap_object_derive_inner` on the parent object, in its order. -/
def deriveChecks (a : DeriveArgs) (allowAudienceExpand : Bool) : Except CapError Unit :=
  if parent.deleted then .error .erevoked
  else if !validateAudience parent a.callerPid then .error .eperm
  else if parent.rightsBitmap &&& rightDerive = 0#64 then .error .eperm
  else if parent.rightsBitmap &&& a.rightsSubset ≠ a.rightsSubset then .error .eperm
  else if parent.flags &&& (a.flagsSubset &&& privilegedFlags) ≠
      a.flagsSubset &&& privilegedFlags then .error .eperm
  else if hasFlag a.flagsSubset kernelManagedFlags then .error .eperm
  else if !allowAudienceExpand && !audienceIsSubset parent a.audienceSubset then .error .eperm
  else .ok ()

/-- The creation arguments that `cap_object_derive_inner` passes on. -/
def derivedArgs (a : DeriveArgs) : CreateArgs where
  kind := parent.kind
  rights := a.rightsSubset
  audience := some (a.audienceSubset.getD [a.callerPid])
  flags := a.flagsSubset
  kindData := parent.kindData
  ownerPid := a.callerPid

variable {parent}

def capObjectDeriveInner (slab : Bool) (a : DeriveArgs) (allowAudienceExpand : Bool)
    : Except CapError ℕ × Registry :=
  if a.parentIdx = 0 ∨ capObjectCapacity ≤ a.parentIdx then (.error .einval, r)
  else match r.ptrs a.parentIdx with
    | none => (.error .einval, r)
    | some parent =>
      match deriveChecks parent a allowAudienceExpand with
      | .error e => (.error e, r)
      | .ok () => capObjectCreate r slab (derivedArgs parent a) a.parentIdx

/-- `cap_object_derive`, and `cap_object_derive_quiet` without its audit record. -/
def capObjectDerive (slab : Bool) (a : DeriveArgs) : Except CapError ℕ × Registry :=
  capObjectDeriveInner r slab a false

def capObjectDeriveInherited (slab : Bool) (a : DeriveArgs) : Except CapError ℕ × Registry :=
  capObjectDeriveInner r slab a true

/-- What derivation can do: fail and change nothing, or attach a new object to a
live parent that passed every check. -/
theorem capObjectDeriveInner_cases (slab : Bool) (a : DeriveArgs) (x : Bool) :
    (∃ e, capObjectDeriveInner r slab a x = (.error e, r)) ∨
      ∃ slot parent, slab = true ∧ findFreeSlot r = some slot ∧
        r.ptrs a.parentIdx = some parent ∧ 0 < a.parentIdx ∧
        a.parentIdx < capObjectCapacity ∧ deriveChecks parent a x = .ok () ∧
        capObjectDeriveInner r slab a x = (.ok slot,
          attach r slot (newObject (derivedArgs parent a) a.parentIdx) a.parentIdx parent) := by
  unfold capObjectDeriveInner
  split_ifs with hrange
  · exact .inl ⟨_, rfl⟩
  push Not at hrange
  cases hparent : r.ptrs a.parentIdx with
  | none => exact .inl ⟨_, rfl⟩
  | some parent =>
  cases hchecks : deriveChecks parent a x with
  | error e => exact .inl ⟨e, by simp only [hchecks]⟩
  | ok u =>
    simp only [hchecks]
    rcases capObjectCreate_child r slab (derivedArgs parent a) hrange.2 hparent with
      hfail | ⟨slot, hslab, hslot, hok⟩
    · exact .inl ⟨_, hfail⟩
    · exact .inr ⟨slot, parent, hslab, hslot, rfl, Nat.pos_of_ne_zero hrange.1, hrange.2,
        hchecks, hok⟩

/-- The facts a derivation has checked about its parent. -/
theorem deriveChecks_ok {a : DeriveArgs} {x : Bool} (h : deriveChecks parent a x = .ok ()) :
    parent.deleted = false ∧ validateAudience parent a.callerPid = true ∧
      Within a.rightsSubset parent.rightsBitmap ∧
      Within (a.flagsSubset &&& privilegedFlags) parent.flags ∧
      (x = true ∨ audienceIsSubset parent a.audienceSubset = true) := by
  unfold deriveChecks at h
  split_ifs at h with hdel haud hder hrights hflags hkern hsub
  refine ⟨by simpa using hdel, by simpa using haud, by simpa [Within] using hrights,
    by simpa [Within] using hflags, ?_⟩
  cases x with
  | true => exact .inl rfl
  | false => exact .inr (by simpa using hsub)

/-- Whether the child's id is appended: the capability is recursively inheritable, its
audience has room and does not name the child yet. -/
def appendsChild (obj : CapObject) (childId : ℤ) : Bool :=
  hasFlag obj.flags flagRecursiveInherit &&
    decide (obj.audienceSet.pids.length < capAudienceMax) &&
    !obj.audienceSet.pids.contains childId

/-- The audience array built for an inherited capability. -/
def inheritAudience (obj : CapObject) (childId : ℤ) : List ℤ :=
  if appendsChild obj childId then obj.audienceSet.pids ++ [childId]
  else obj.audienceSet.pids

def inheritArgs (obj : CapObject) (idx : ℕ) (parentId childId : ℤ) : DeriveArgs where
  parentIdx := idx
  callerPid := parentId
  rightsSubset := obj.rightsBitmap
  audienceSubset := some (inheritAudience obj childId)
  flagsSubset := obj.flags

/-- One iteration of the inheritance loop of `sched_create_user_process`: the index
of the capability derived for the child, if the object is inheritable. -/
def inheritCap (slab : Bool) (idx : ℕ) (parentId childId : ℤ) : Option ℕ × Registry :=
  match capObjectGet r idx with
  | none => (none, r)
  | some obj =>
    if obj.deleted then (none, r)
    else if !hasFlag obj.flags flagInheritable then (none, r)
    else
      let derived := if hasFlag obj.flags flagRecursiveInherit then
          capObjectDeriveInherited r slab (inheritArgs obj idx parentId childId)
        else capObjectDerive r slab (inheritArgs obj idx parentId childId)
      (derived.1.toOption, derived.2)

variable {r}

/-- The inheritance loop over the snapshot of the parent's handles, each with the
outcome of its allocation: the indices to insert in the child's table. -/
def inheritLoop (parentId childId : ℤ) : List (ℕ × Bool) → Registry → List ℕ × Registry
  | [], r => ([], r)
  | (idx, slab) :: rest, r =>
    let one := inheritCap r slab idx parentId childId
    let more := inheritLoop parentId childId rest one.2
    (one.1.toList ++ more.1, more.2)

variable (r)

/-- An inherited capability is a derivation from the object in the snapshot. -/
theorem inheritCap_cases (slab : Bool) (idx : ℕ) (parentId childId : ℤ) :
    (inheritCap r slab idx parentId childId).2 = r ∨
      ∃ obj, r.ptrs idx = some obj ∧ hasFlag obj.flags flagInheritable = true ∧
        (inheritCap r slab idx parentId childId).2 =
          (capObjectDeriveInner r slab (inheritArgs obj idx parentId childId)
            (hasFlag obj.flags flagRecursiveInherit)).2 := by
  unfold inheritCap
  cases hobj : capObjectGet r idx with
  | none => exact .inl rfl
  | some obj =>
  have hptr : r.ptrs idx = some obj := by
    unfold capObjectGet at hobj
    split_ifs at hobj
    exact hobj
  simp only
  split_ifs with hdel hinh hrec
  · exact .inl rfl
  · exact .inl rfl
  · exact .inr ⟨obj, hptr, by simpa using hinh, by rw [hrec]; rfl⟩
  · exact .inr ⟨obj, hptr, by simpa using hinh, by rw [Bool.eq_false_iff.mpr hrec]; rfl⟩

/-- `cap_object_destroy`: the slot is cleared; nothing else in the registry changes.
The kind-specific hooks act on the object's payload, not on the registry. -/
def capObjectDestroy (idx : ℕ) : Registry :=
  if idx = 0 ∨ capObjectCapacity ≤ idx then r
  else { r with ptrs := Function.update r.ptrs idx none }

end GrahaOS.CapRegistry
