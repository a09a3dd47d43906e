import GrahaOS.Revoke
import GrahaOS.Runs

/-!
# Runs of the registry and their history

The registry does not remember what a slot held before, so a run also carries a history that no
operation reads: how many objects each slot has held so far (`epoch`), and, for the object now in a
slot, the objects it was derived from as they were at that moment (`lineage`).

`capStep_effect` says once what a step can do to the registry; the results below use only that.
-/

namespace GrahaOS.CapHistory

open Token CapRegistry Revoke Runs

/-- The operations of a run. Only derivation passes a parent to creation. An
inheritance step is one iteration of the loop at spawn; a run of such steps is the
whole loop. -/
inductive CapOp
  | create (slab : Bool) (a : CreateArgs)
  | derive (slab : Bool) (a : DeriveArgs)
  | inherit (slab : Bool) (idx : ℕ) (parentId : ℤ) (childId : ℕ)
  | revoke (idx : ℕ)
  | destroy (idx : ℕ)

def capStep (r : Registry) : CapOp → Registry
  | .create slab a => (capObjectCreate r slab a idxNone).2
  | .derive slab a => (capObjectDerive r slab a).2
  | .inherit slab idx parentId childId =>
    if childId < maxTasks then (inheritCap r slab idx parentId childId).2 else r
  | .revoke idx => (capObjectRevoke r idx).2
  | .destroy idx => capObjectDestroy r idx

/-- The loop at spawn is a run of inheritance steps. -/
theorem inheritLoop_eq_run {childId : ℕ} (hid : childId < maxTasks) (parentId : ℤ)
    (snapshot : List (ℕ × Bool)) (r : Registry) :
    (inheritLoop parentId childId snapshot r).2 =
      run capStep r (snapshot.map fun e => .inherit e.2 e.1 parentId childId) := by
  induction snapshot generalizing r with
  | nil => rfl
  | cons e rest ih =>
    rw [List.map_cons, run_cons, capStep, if_pos hid]
    exact ih _

/-- Every check before the creation of a derived object passes. -/
def deriveAdmits (r : Registry) (a : DeriveArgs) (allowAudienceExpand : Bool) : Bool :=
  match r.ptrs a.parentIdx with
  | none => false
  | some parent => decide (deriveChecks parent a allowAudienceExpand = .ok ())

/-- The operation gets as far as taking a free slot. -/
def takesSlot (r : Registry) : CapOp → Bool
  | .create slab _ => slab
  | .derive slab a => slab && deriveAdmits r a false
  | .inherit slab idx parentId childId =>
    match r.ptrs idx with
    | none => false
    | some obj => slab && deriveAdmits r (inheritArgs obj idx parentId childId)
        (hasFlag obj.flags flagRecursiveInherit)
  | .revoke _ => false
  | .destroy _ => false

/-- A derivation attempted by an operation: its arguments and whether the audience
may grow. -/
def Derives (r : Registry) (a : DeriveArgs) (x : Bool) : CapOp → Prop
  | .derive _ a' => a = a' ∧ x = false
  | .inherit _ idx parentId childId => childId < maxTasks ∧ ∃ obj, r.ptrs idx = some obj ∧
      a = inheritArgs obj idx parentId childId ∧ x = hasFlag obj.flags flagRecursiveInherit
  | _ => False

/-- What a step can do to the registry. -/
inductive Effect (r : Registry) (op : CapOp) : Registry → Prop
  | same : Effect r op r
  | root {slot : ℕ} (slab : Bool) (a : CreateArgs) (hop : op = .create slab a)
      (htakes : takesSlot r op = true) (hslot : findFreeSlot r = some slot) :
      Effect r op (install r slot (newObject a idxNone))
  | child {slot : ℕ} (a : DeriveArgs) (x : Bool) (parent : CapObject) (hop : Derives r a x op)
      (htakes : takesSlot r op = true) (hslot : findFreeSlot r = some slot)
      (hparent : r.ptrs a.parentIdx = some parent) (hpos : 0 < a.parentIdx)
      (hcap : a.parentIdx < capObjectCapacity) (hchecks : deriveChecks parent a x = .ok ()) :
      Effect r op
        (attach r slot (newObject (derivedArgs parent a) a.parentIdx) a.parentIdx parent)
  | revoked (idx : ℕ) (hop : op = .revoke idx) {r' : Registry} (hkeeps : Keeps r r') :
      Effect r op r'
  | cleared (idx : ℕ) (hop : op = .destroy idx) (hpos : 0 < idx) :
      Effect r op { r with ptrs := Function.update r.ptrs idx none }

variable {i : ℕ} {r r' : Registry} {op : CapOp}

lemma deriveInner_effect {slab : Bool} {a : DeriveArgs} {x : Bool} (hop : Derives r a x op)
    (htakes : slab = true → deriveAdmits r a x = true → takesSlot r op = true) :
    Effect r op (capObjectDeriveInner r slab a x).2 := by
  rcases capObjectDeriveInner_cases r slab a x with
    ⟨e, hfail⟩ | ⟨slot, parent, hslab, hslot, hparent, hpos, hcap, hchecks, hok⟩
  · rw [hfail]
    exact Effect.same
  · rw [hok]
    have hadmits : deriveAdmits r a x = true := by simp [deriveAdmits, hparent, hchecks]
    exact Effect.child a x parent hop (htakes hslab hadmits) hslot hparent hpos hcap hchecks

/-- Every step has one of the listed effects. -/
theorem capStep_effect (r : Registry) (op : CapOp) : Effect r op (capStep r op) := by
  cases op with
  | create slab a =>
    rw [capStep]
    rcases capObjectCreate_root r slab a with hfail | ⟨slot, hslab, hslot, hok⟩
    · rw [hfail]
      exact Effect.same
    · rw [hok]
      exact Effect.root slab a rfl hslab hslot
  | derive slab a =>
    refine deriveInner_effect ⟨rfl, rfl⟩ ?_
    intro hslab hadmits
    simp [takesSlot, hslab, hadmits]
  | inherit slab idx parentId childId =>
    rw [capStep]
    split_ifs with hid
    · rcases inheritCap_cases r slab idx parentId childId with hsame | ⟨obj, hobj, -, hder⟩
      · rw [hsame]
        exact Effect.same
      · rw [hder]
        refine deriveInner_effect ⟨hid, obj, hobj, rfl, rfl⟩ ?_
        intro hslab hadmits
        simp [takesSlot, hobj, hslab, hadmits]
    · exact Effect.same
  | revoke idx => exact Effect.revoked idx rfl (capObjectRevoke_stamped r idx).keeps
  | destroy idx =>
    rw [capStep, capObjectDestroy]
    split_ifs with hrange
    · exact Effect.same
    · exact Effect.cleared idx rfl (by omega)

/-- An object that stays in its slot changes only by revocation and by new children. -/
def Evolves (o o' : CapObject) : Prop :=
  Restamped { o with firstChildIdx := o'.firstChildIdx } o'

/-- An object that a step has just published. -/
def Published (r : Registry) (op : CapOp) (o : CapObject) : Prop :=
  (∃ slab a, op = .create slab a ∧ o = newObject a idxNone) ∨
    ∃ a x parent, Derives r a x op ∧ r.ptrs a.parentIdx = some parent ∧
      a.parentIdx < capObjectCapacity ∧ deriveChecks parent a x = .ok () ∧
      o = { newObject (derivedArgs parent a) a.parentIdx with
        nextSiblingIdx := parent.firstChildIdx }

/-- An occupied slot after a step held the same object before, or it is the lowest
free slot and a new object was published in it. -/
theorem Effect.slot (he : Effect r op r') {o' : CapObject} (ho' : r'.ptrs i = some o') :
    (∃ o, r.ptrs i = some o ∧ Evolves o o') ∨
      (r.ptrs i = none ∧ takesSlot r op = true ∧ findFreeSlot r = some i ∧
        Published r op o') := by
  cases he with
  | same => exact .inl ⟨o', ho', Restamped.refl o'⟩
  | @root slot slab a hop htakes hslot =>
    by_cases hi : i = slot
    · subst i
      obtain rfl : newObject a idxNone = o' := by simpa [install] using ho'
      exact .inr ⟨(findFreeSlot_spec hslot).2.2, htakes, hslot, .inl ⟨slab, a, hop, rfl⟩⟩
    · have hsame : r.ptrs i = some o' := by simpa [install, hi] using ho'
      exact .inl ⟨o', hsame, Restamped.refl o'⟩
  | @child slot a x parent hop htakes hslot hparent hpos hcap hchecks =>
    have hfree := (findFreeSlot_spec hslot).2.2
    by_cases hp : i = a.parentIdx
    · subst i
      obtain rfl : { parent with firstChildIdx := slot } = o' := by simpa [attach] using ho'
      exact .inl ⟨parent, hparent, Restamped.refl _⟩
    by_cases hi : i = slot
    · subst i
      have hnew := ho'
      simp only [attach, Function.update_of_ne hp, Function.update_self, Option.some.injEq] at hnew
      exact .inr ⟨hfree, htakes, hslot, .inr ⟨a, x, parent, hop, hparent, hcap, hchecks, hnew.symm⟩⟩
    · have hsame : r.ptrs i = some o' := by simpa [attach, hp, hi] using ho'
      exact .inl ⟨o', hsame, Restamped.refl o'⟩
  | revoked idx hop hkeeps =>
    obtain ⟨o, ho, hre⟩ := hkeeps.back ho'
    refine .inl ⟨o, ho, ?_⟩
    have hlink : { o with firstChildIdx := o'.firstChildIdx } = o := by
      rw [hre.firstChildIdx]
    rw [Evolves, hlink]
    exact hre
  | cleared idx hop hpos =>
    by_cases hi : i = idx
    · simp [hi] at ho'
    · have hsame : r.ptrs i = some o' := by simpa [hi] using ho'
      exact .inl ⟨o', hsame, Restamped.refl o'⟩

/-- One derivation step: the parent as it was, and the pid that inheritance added. -/
structure Link where
  parent : CapObject
  added : Option ℤ

structure History where
  reg : Registry
  epoch : ℕ → ℕ
  lineage : ℕ → List Link

/-- The slot was empty before the step and holds an object after it. -/
def filled (r r' : Registry) (i : ℕ) : Bool := (r.ptrs i).isNone && (r'.ptrs i).isSome

/-- The child pid that an inheritance step appends to the audience. -/
def addedPid (r : Registry) : CapOp → Option ℤ
  | .inherit _ idx _ childId =>
    match r.ptrs idx with
    | some obj => if appendsChild obj childId then some (childId : ℤ) else none
    | none => none
  | _ => none

/-- The lineage of an object just published: its parent, then the parent's lineage. -/
def newLineage (h : History) (op : CapOp) (obj : CapObject) : List Link :=
  if obj.parentIdx = idxNone then []
  else match h.reg.ptrs obj.parentIdx with
    | none => []
    | some parent => ⟨parent, addedPid h.reg op⟩ :: h.lineage obj.parentIdx

variable {h : History}

lemma newLineage_child (op : CapOp) {obj parent : CapObject} {p : ℕ} (hp : obj.parentIdx = p)
    (hne : p ≠ idxNone) (hparent : h.reg.ptrs p = some parent) :
    newLineage h op obj = ⟨parent, addedPid h.reg op⟩ :: h.lineage p := by
  subst p
  rw [newLineage, if_neg hne, hparent]

def step (h : History) (op : CapOp) : History where
  reg := capStep h.reg op
  epoch := fun i =>
    if filled h.reg (capStep h.reg op) i then h.epoch i + 1 else h.epoch i
  lineage := fun i =>
    if filled h.reg (capStep h.reg op) i then
      match (capStep h.reg op).ptrs i with
      | some obj => newLineage h op obj
      | none => []
    else h.lineage i

/-- The history after `cap_object_init`: slot 0 holds its first object. -/
def init : History where
  reg := capObjectInit
  epoch := fun i => if i = 0 then 1 else 0
  lineage := fun _ => []

lemma filled_eq_true : filled r r' i = true ↔ r.ptrs i = none ∧ ∃ o, r'.ptrs i = some o := by
  simp [filled, Option.isNone_iff_eq_none, Option.isSome_iff_exists]

lemma epoch_step_of_some {o : CapObject} (op : CapOp) (ho : h.reg.ptrs i = some o) :
    (step h op).epoch i = h.epoch i := by
  simp [step, filled, ho]

lemma epoch_step_of_none (op : CapOp) (ho : (step h op).reg.ptrs i = none) :
    (step h op).epoch i = h.epoch i := by
  have hnone : (capStep h.reg op).ptrs i = none := ho
  simp [step, filled, hnone]

end GrahaOS.CapHistory
