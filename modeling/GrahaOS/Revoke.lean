import GrahaOS.CapRegistry

/-!
# Revocation and its cascade

`cap_object_revoke` and `kernel/cap/revoke.c`. Revoking marks an object deleted and advances its
generation; an `EAGER_REVOKE` object also starts a breadth-first walk over the child lists with a
queue of `REVOKE_CASCADE_MAX` entries, of which `pending` is the part between the read and the write
position and `tail` the write position.

A walk of a child list ends at its end, at a full queue, or at a link to an empty slot. The seeding
walk reports truncation for the last two, the walk inside the loop only for a full queue.
-/

namespace GrahaOS.Revoke

open Token CapRegistry

def revokeCascadeMax : ℕ := 1024

/-- Applying a function to the object in a slot. -/
def updateSlot (r : Registry) (i : ℕ) (f : CapObject → CapObject) : Registry :=
  { r with ptrs := Function.update r.ptrs i ((r.ptrs i).map f) }

def invalidate (o : CapObject) : CapObject :=
  { o with deleted := true, generation := o.generation + 1 }

/-- The cascade bumps an object only if it is not yet deleted. -/
def invalidateLive (o : CapObject) : CapObject := if o.deleted then o else invalidate o

/-- How a walk along a child list ends. -/
inductive WalkEnd
  | done | full | dangling
deriving DecidableEq

/-- Queueing a child list from `cur` on, with room for `room` more entries. -/
def siblingWalk (ptrs : ℕ → Option CapObject) : (room cur : ℕ) → List ℕ × WalkEnd
  | 0, cur => if cur = idxNone then ([], .done) else ([], .full)
  | room + 1, cur =>
    if cur = idxNone then ([], .done)
    else match ptrs cur with
      | none => ([cur], .dangling)
      | some c =>
        let rest := siblingWalk ptrs room c.nextSiblingIdx
        (cur :: rest.1, rest.2)

/-- The registry, the number of objects invalidated and the truncation mark. -/
structure Cascade where
  reg : Registry
  count : ℕ
  truncated : Bool

/-- The main loop of `revoke_cascade`. It takes at most one turn for each entry ever
queued, so `revokeCascadeMax` turns empty the queue. -/
def cascadeLoop : (fuel : ℕ) → (pending : List ℕ) → (tail : ℕ) → Cascade → Cascade
  | 0, _, _, c => c
  | _ + 1, [], _, c => c
  | fuel + 1, idx :: rest, tail, c =>
    match c.reg.ptrs idx with
    | none => cascadeLoop fuel rest tail c
    | some obj =>
      if hasFlag obj.flags flagImmortal then cascadeLoop fuel rest tail c
      else
        let walk := siblingWalk (updateSlot c.reg idx invalidateLive).ptrs
          (revokeCascadeMax - tail) obj.firstChildIdx
        cascadeLoop fuel (rest ++ walk.1) (tail + walk.1.length)
          { reg := updateSlot c.reg idx invalidateLive
            count := if obj.deleted then c.count else c.count + 1
            truncated := c.truncated || decide (walk.2 = .full) }

def setTruncated (o : CapObject) : CapObject :=
  { o with flags := o.flags ||| flagCascadeTruncated }

/-- Seeding the queue with the children of the root and emptying it. -/
def cascadeFrom (r : Registry) (rootObj : CapObject) : Cascade :=
  let seed := siblingWalk r.ptrs revokeCascadeMax rootObj.firstChildIdx
  cascadeLoop revokeCascadeMax seed.1 seed.1.length ⟨r, 0, decide (seed.2 ≠ .done)⟩

def revokeCascade (r : Registry) (root : ℕ) : Cascade :=
  if root = 0 ∨ capObjectCapacity ≤ root then ⟨r, 0, false⟩
  else match r.ptrs root with
    | none => ⟨r, 0, false⟩
    | some obj =>
      let c := cascadeFrom r obj
      if c.truncated then { c with reg := updateSlot c.reg root setTruncated } else c

def capObjectRevoke (r : Registry) (idx : ℕ) : Except CapError ℕ × Registry :=
  if idx = 0 ∨ capObjectCapacity ≤ idx then (.error .einval, r)
  else match r.ptrs idx with
    | none => (.error .einval, r)
    | some obj =>
      if hasFlag obj.flags flagImmortal then (.error .eperm, r)
      else if obj.deleted then (.error .erevoked, r)
      else if hasFlag obj.flags flagEagerRevoke then
        let c := revokeCascade (updateSlot r idx invalidate) idx
        (.ok (1 + c.count), c.reg)
      else (.ok 1, updateSlot r idx invalidate)

/-- The object differs at most in its deleted flag, which only rises, its generation
and the truncation mark. -/
structure Restamped (o o' : CapObject) : Prop where
  kind : o'.kind = o.kind
  rightsBitmap : o'.rightsBitmap = o.rightsBitmap
  kindData : o'.kindData = o.kindData
  audienceSet : o'.audienceSet = o.audienceSet
  parentIdx : o'.parentIdx = o.parentIdx
  ownerPid : o'.ownerPid = o.ownerPid
  firstChildIdx : o'.firstChildIdx = o.firstChildIdx
  nextSiblingIdx : o'.nextSiblingIdx = o.nextSiblingIdx
  deleted : o.deleted = true → o'.deleted = true
  flags : o'.flags = o.flags ∨ o'.flags = o.flags ||| flagCascadeTruncated

namespace Restamped

theorem refl (o : CapObject) : Restamped o o :=
  ⟨rfl, rfl, rfl, rfl, rfl, rfl, rfl, rfl, id, .inl rfl⟩

theorem trans {a b c : CapObject} (hab : Restamped a b) (hbc : Restamped b c) : Restamped a c where
  kind := hbc.kind.trans hab.kind
  rightsBitmap := hbc.rightsBitmap.trans hab.rightsBitmap
  kindData := hbc.kindData.trans hab.kindData
  audienceSet := hbc.audienceSet.trans hab.audienceSet
  parentIdx := hbc.parentIdx.trans hab.parentIdx
  ownerPid := hbc.ownerPid.trans hab.ownerPid
  firstChildIdx := hbc.firstChildIdx.trans hab.firstChildIdx
  nextSiblingIdx := hbc.nextSiblingIdx.trans hab.nextSiblingIdx
  deleted := fun h => hbc.deleted (hab.deleted h)
  flags := by
    rcases hab.flags with h | h <;> rcases hbc.flags with h' | h'
    · exact .inl (h'.trans h)
    · exact .inr (by rw [h', h])
    · exact .inr (by rw [h', h])
    · exact .inr (by rw [h', h, BitVec.or_assoc, BitVec.or_self])

theorem invalidate (o : CapObject) : Restamped o (Revoke.invalidate o) :=
  ⟨rfl, rfl, rfl, rfl, rfl, rfl, rfl, rfl, fun _ => rfl, .inl rfl⟩

theorem setTruncated (o : CapObject) : Restamped o (Revoke.setTruncated o) :=
  ⟨rfl, rfl, rfl, rfl, rfl, rfl, rfl, rfl, id, .inr rfl⟩

theorem invalidateLive (o : CapObject) : Restamped o (Revoke.invalidateLive o) := by
  unfold Revoke.invalidateLive
  split_ifs
  · exact refl o
  · exact invalidate o

/-- The flags other than the truncation mark are as before. -/
theorem hasFlag_eq {o o' : CapObject} (h : Restamped o o') {f : BitVec 8}
    (hf : flagCascadeTruncated &&& f = 0#8) : hasFlag o'.flags f = hasFlag o.flags f := by
  rcases h.flags with heq | heq
  · rw [heq]
  have hor : (o.flags ||| flagCascadeTruncated) &&& f = o.flags &&& f := by
    apply BitVec.eq_of_getLsbD_eq
    intro i hi
    have hbit := congrArg (fun v : BitVec 8 => v.getLsbD i) hf
    simp only [BitVec.getLsbD_and, BitVec.getLsbD_zero] at hbit
    simp only [BitVec.getLsbD_and, BitVec.getLsbD_or]
    cases hfi : f.getLsbD i <;> simp_all
  rw [heq, hasFlag, hasFlag, hor]

end Restamped

lemma updateSlot_self {r : Registry} {i : ℕ} {o : CapObject} (f : CapObject → CapObject)
    (ho : r.ptrs i = some o) : (updateSlot r i f).ptrs i = some (f o) := by
  simp [updateSlot, ho]

/-- Every slot keeps its object, restamped, and no slot is filled. -/
def Keeps (r r' : Registry) : Prop :=
  ∀ i, (r.ptrs i = none → r'.ptrs i = none) ∧
    ∀ o, r.ptrs i = some o → ∃ o', r'.ptrs i = some o' ∧ Restamped o o'

namespace Keeps

theorem refl (r : Registry) : Keeps r r :=
  fun _ => ⟨id, fun o h => ⟨o, h, Restamped.refl o⟩⟩

theorem trans {a b c : Registry} (hab : Keeps a b) (hbc : Keeps b c) : Keeps a c := by
  intro i
  refine ⟨fun h => (hbc i).1 ((hab i).1 h), ?_⟩
  intro o ho
  obtain ⟨o', ho', hoo'⟩ := (hab i).2 o ho
  obtain ⟨o'', ho'', hoo''⟩ := (hbc i).2 o' ho'
  exact ⟨o'', ho'', hoo'.trans hoo''⟩

/-- An object found afterwards was there before. -/
theorem back {r r' : Registry} (hk : Keeps r r') {i : ℕ} {o' : CapObject}
    (ho' : r'.ptrs i = some o') : ∃ o, r.ptrs i = some o ∧ Restamped o o' := by
  cases ho : r.ptrs i with
  | none =>
    rw [(hk i).1 ho] at ho'
    cases ho'
  | some o =>
    obtain ⟨o₁, ho₁, hre⟩ := (hk i).2 o ho
    rw [ho₁] at ho'
    cases ho'
    exact ⟨o, rfl, hre⟩

theorem updateSlot {r : Registry} (i : ℕ) {f : CapObject → CapObject}
    (hf : ∀ o, Restamped o (f o)) : Keeps r (Revoke.updateSlot r i f) := by
  intro j
  by_cases hj : j = i
  · subst j
    simp only [Revoke.updateSlot, Function.update_self]
    exact ⟨fun h => by simp [h], fun o h => ⟨f o, by simp [h], hf o⟩⟩
  · simp only [Revoke.updateSlot, Function.update_of_ne hj]
    exact ⟨id, fun o h => ⟨o, h, Restamped.refl o⟩⟩

end Keeps

/-- `Keeps`, with the same high-water mark. -/
structure Stamped (r r' : Registry) : Prop where
  keeps : Keeps r r'
  count : r'.count = r.count

namespace Stamped

theorem refl (r : Registry) : Stamped r r := ⟨Keeps.refl r, rfl⟩

theorem trans {a b c : Registry} (hab : Stamped a b) (hbc : Stamped b c) : Stamped a c :=
  ⟨hab.keeps.trans hbc.keeps, hbc.count.trans hab.count⟩

theorem updateSlot {r : Registry} (i : ℕ) {f : CapObject → CapObject}
    (hf : ∀ o, Restamped o (f o)) : Stamped r (Revoke.updateSlot r i f) :=
  ⟨Keeps.updateSlot i hf, rfl⟩

end Stamped

lemma cascadeLoop_stamped (fuel : ℕ) (pending : List ℕ) (tail : ℕ) (c : Cascade) :
    Stamped c.reg (cascadeLoop fuel pending tail c).reg := by
  fun_induction cascadeLoop fuel pending tail c with
  | case1 => exact Stamped.refl _
  | case2 => exact Stamped.refl _
  | case3 fuel idx rest tail c hnone ih => exact ih
  | case4 fuel idx rest tail c obj hobj himm ih => exact ih
  | case5 fuel idx rest tail c obj hobj himm walk ih =>
    exact (Stamped.updateSlot idx Restamped.invalidateLive).trans ih

lemma cascadeFrom_stamped (r : Registry) (rootObj : CapObject) :
    Stamped r (cascadeFrom r rootObj).reg :=
  cascadeLoop_stamped revokeCascadeMax _ _ ⟨r, 0, _⟩

lemma revokeCascade_stamped (r : Registry) (root : ℕ) : Stamped r (revokeCascade r root).reg := by
  unfold revokeCascade
  split_ifs
  · exact Stamped.refl r
  cases hroot : r.ptrs root with
  | none => exact Stamped.refl r
  | some obj =>
    simp only
    split_ifs
    · exact (cascadeFrom_stamped r obj).trans (Stamped.updateSlot root Restamped.setTruncated)
    · exact cascadeFrom_stamped r obj

theorem capObjectRevoke_stamped (r : Registry) (idx : ℕ) : Stamped r (capObjectRevoke r idx).2 := by
  unfold capObjectRevoke
  split_ifs
  · exact Stamped.refl r
  cases hobj : r.ptrs idx with
  | none => exact Stamped.refl r
  | some obj =>
    simp only
    split_ifs
    · exact Stamped.refl r
    · exact Stamped.refl r
    · exact (Stamped.updateSlot idx Restamped.invalidate).trans (revokeCascade_stamped _ _)
    · exact Stamped.updateSlot idx Restamped.invalidate

/-- A refused revocation changes nothing. -/
theorem capObjectRevoke_error {r r' : Registry} {idx : ℕ} {e : CapError}
    (h : capObjectRevoke r idx = (.error e, r')) : r' = r := by
  unfold capObjectRevoke at h
  split_ifs at h
  · exact (Prod.mk.inj h).2.symm
  cases hobj : r.ptrs idx with
  | none =>
    rw [hobj] at h
    exact (Prod.mk.inj h).2.symm
  | some obj =>
    simp only [hobj] at h
    split_ifs at h <;> simp_all

end GrahaOS.Revoke
