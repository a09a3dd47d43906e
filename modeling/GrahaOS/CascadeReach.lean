import GrahaOS.Revoke

/-!
# What a cascade visits

The breadth-first walk of `revoke_cascade` in any registry, whatever its child lists look like.
`Reach` follows the links that the walk follows: the child list of the root, and the child lists of
everything found on the way that is not immortal.
-/

namespace GrahaOS.CascadeReach

open Token CapRegistry Revoke List

/-- Following the sibling links from `cur` comes to `j`. -/
inductive InList (ptrs : ℕ → Option CapObject) : ℕ → ℕ → Prop
  | here {cur : ℕ} (hne : cur ≠ idxNone) : InList ptrs cur cur
  | next {cur j : ℕ} {o : CapObject} (hne : cur ≠ idxNone) (ho : ptrs cur = some o)
      (hj : InList ptrs o.nextSiblingIdx j) : InList ptrs cur j

/-- `j` is found from `root` by child lists, with no immortal object on the way. -/
inductive Reach (r : Registry) (root : ℕ) : ℕ → Prop
  | child {j : ℕ} {obj o : CapObject} (hroot : r.ptrs root = some obj)
      (hlist : InList r.ptrs obj.firstChildIdx j) (hj : r.ptrs j = some o)
      (hm : hasFlag o.flags flagImmortal = false) : Reach r root j
  | deeper {i j : ℕ} {obj o : CapObject} (hi : Reach r root i) (hobj : r.ptrs i = some obj)
      (hlist : InList r.ptrs obj.firstChildIdx j) (hj : r.ptrs j = some o)
      (hm : hasFlag o.flags flagImmortal = false) : Reach r root j

variable {r r' : Registry} {root j : ℕ}

lemma Reach.exists_object (h : Reach r root j) :
    ∃ o, r.ptrs j = some o ∧ hasFlag o.flags flagImmortal = false := by
  cases h with
  | child _ _ hj hm => exact ⟨_, hj, hm⟩
  | deeper _ _ _ hj hm => exact ⟨_, hj, hm⟩

variable (hk : Keeps r r')
include hk

lemma inList_of_keeps {cur : ℕ} (h : InList r.ptrs cur j) : InList r'.ptrs cur j := by
  induction h with
  | here hne => exact .here hne
  | next hne ho _ ih =>
    obtain ⟨o', ho', hre⟩ := (hk _).2 _ ho
    exact .next hne ho' (hre.nextSiblingIdx ▸ ih)

lemma inList_keeps_iff (cur j : ℕ) : InList r'.ptrs cur j ↔ InList r.ptrs cur j := by
  refine ⟨fun h => ?_, inList_of_keeps hk⟩
  induction h with
  | here hne => exact .here hne
  | next hne ho' _ ih =>
    obtain ⟨o, ho, hre⟩ := hk.back ho'
    exact .next hne ho (hre.nextSiblingIdx ▸ ih)

lemma reach_of_keeps (h : Reach r root j) : Reach r' root j := by
  induction h with
  | child hroot hlist hj hm =>
    obtain ⟨obj', hroot', hre⟩ := (hk _).2 _ hroot
    obtain ⟨o', hj', hre'⟩ := (hk _).2 _ hj
    exact .child hroot' (hre.firstChildIdx ▸ inList_of_keeps hk hlist) hj'
      ((hre'.hasFlag_eq (by decide)).trans hm)
  | deeper _ hobj hlist hj hm ih =>
    obtain ⟨obj', hobj', hre⟩ := (hk _).2 _ hobj
    obtain ⟨o', hj', hre'⟩ := (hk _).2 _ hj
    exact .deeper ih hobj' (hre.firstChildIdx ▸ inList_of_keeps hk hlist) hj'
      ((hre'.hasFlag_eq (by decide)).trans hm)

lemma reach_keeps_iff (root j : ℕ) : Reach r' root j ↔ Reach r root j := by
  refine ⟨fun h => ?_, reach_of_keeps hk⟩
  induction h with
  | child hroot' hlist hj' hm =>
    obtain ⟨obj, hroot, hre⟩ := hk.back hroot'
    obtain ⟨o, hj, hre'⟩ := hk.back hj'
    rw [inList_keeps_iff hk, hre.firstChildIdx] at hlist
    exact .child hroot hlist hj ((hre'.hasFlag_eq (by decide)).symm.trans hm)
  | deeper _ hobj' hlist hj' hm ih =>
    obtain ⟨obj, hobj, hre⟩ := hk.back hobj'
    obtain ⟨o, hj, hre'⟩ := hk.back hj'
    rw [inList_keeps_iff hk, hre.firstChildIdx] at hlist
    exact .deeper ih hobj hlist hj ((hre'.hasFlag_eq (by decide)).symm.trans hm)

omit hk

lemma Reach.trans {i : ℕ} (hi : Reach r root i) (hj : Reach r i j) : Reach r root j := by
  induction hj with
  | child hroot hlist hj hm => exact .deeper hi hroot hlist hj hm
  | deeper _ hobj hlist hj hm ih => exact .deeper ih hobj hlist hj hm

lemma siblingWalk_keeps (hk : Keeps r r') (room cur : ℕ) :
    siblingWalk r'.ptrs room cur = siblingWalk r.ptrs room cur := by
  induction room generalizing cur with
  | zero => rfl
  | succ room ih =>
    unfold siblingWalk
    cases ho : r.ptrs cur with
    | none => rw [(hk cur).1 ho]
    | some o =>
      obtain ⟨o', ho', hre⟩ := (hk cur).2 o ho
      simp only [ho', hre.nextSiblingIdx, ih]

/-- A walk queues members of its list, within the room, and all of them unless the room
is used up. -/
theorem siblingWalk_inList (ptrs : ℕ → Option CapObject) (room cur : ℕ) :
    (siblingWalk ptrs room cur).1.length ≤ room ∧
    (∀ j ∈ (siblingWalk ptrs room cur).1, InList ptrs cur j) ∧
    ((siblingWalk ptrs room cur).2 ≠ .full →
      ∀ j, InList ptrs cur j → j ∈ (siblingWalk ptrs room cur).1) := by
  induction room generalizing cur with
  | zero =>
    unfold siblingWalk
    split_ifs with hnone
    · refine ⟨le_rfl, by simp, fun _ j hj => ?_⟩
      cases hj with
      | here hne => exact absurd hnone hne
      | next hne => exact absurd hnone hne
    · exact ⟨le_rfl, by simp, fun hfull => absurd rfl hfull⟩
  | succ room ih =>
    unfold siblingWalk
    by_cases hnone : cur = idxNone
    · rw [if_pos hnone]
      refine ⟨Nat.zero_le _, by simp, fun _ j hj => ?_⟩
      cases hj with
      | here hne => exact absurd hnone hne
      | next hne => exact absurd hnone hne
    rw [if_neg hnone]
    cases ho : ptrs cur with
    | none =>
      simp only [length_singleton, mem_singleton]
      refine ⟨by omega, ?_, fun _ j hj => ?_⟩
      · rintro j rfl
        exact .here hnone
      · cases hj with
        | here => rfl
        | next _ hsome => simp [ho] at hsome
    | some o =>
      obtain ⟨hlen, hmem, hall⟩ := ih o.nextSiblingIdx
      simp only [length_cons, mem_cons]
      refine ⟨by omega, ?_, fun hfull j hj => ?_⟩
      · rintro j (rfl | hj)
        · exact .here hnone
        · exact .next hnone ho (hmem j hj)
      · cases hj with
        | here => exact .inl rfl
        | next _ hsome hrest =>
          rw [ho] at hsome
          cases hsome
          exact .inr (hall hfull j hrest)

variable (r)

/-- The registry with the live objects of the listed slots invalidated. -/
def markAll (marked : List ℕ) : Registry :=
  { r with ptrs := fun i => if i ∈ marked then (r.ptrs i).map invalidateLive else r.ptrs i }

lemma invalidateLive_idem (o : CapObject) :
    invalidateLive (invalidateLive o) = invalidateLive o := by
  by_cases hd : o.deleted = true
  · simp [invalidateLive, hd]
  · simp [invalidateLive, hd, invalidate]

lemma markAll_nil : markAll r [] = r := by simp [markAll]

lemma updateSlot_markAll (marked : List ℕ) (idx : ℕ) :
    updateSlot (markAll r marked) idx invalidateLive = markAll r (idx :: marked) := by
  refine Registry.ext (funext fun i => ?_) rfl
  by_cases hi : i = idx
  · subst i
    by_cases hmem : idx ∈ marked
    · cases ho : r.ptrs idx <;> simp [updateSlot, markAll, hmem, ho, invalidateLive_idem]
    · simp [updateSlot, markAll, hmem]
  · simp [updateSlot, markAll, hi]

lemma markAll_keeps (marked : List ℕ) : Keeps r (markAll r marked) := by
  intro i
  by_cases hmem : i ∈ marked
  · simp only [markAll, hmem, if_true]
    exact ⟨fun h => by simp [h], fun o h => ⟨_, by simp [h], Restamped.invalidateLive o⟩⟩
  · simp only [markAll, hmem, if_false]
    exact ⟨id, fun o h => ⟨o, h, Restamped.refl o⟩⟩

/-- A queue entry is in the child list of the root or of an object reached from it. -/
def Queued (root x : ℕ) : Prop :=
  ∃ p obj, (p = root ∨ Reach r root p) ∧ r.ptrs p = some obj ∧ InList r.ptrs obj.firstChildIdx x

variable {r}

lemma Queued.reach {x : ℕ} {o : CapObject} (h : Queued r root x) (ho : r.ptrs x = some o)
    (hm : hasFlag o.flags flagImmortal = false) : Reach r root x := by
  obtain ⟨p, obj, rfl | hp, hobj, hlist⟩ := h
  · exact .child hobj hlist ho hm
  · exact .deeper hp hobj hlist ho hm

/-- Everything in the child list of `x` that is not immortal is marked. -/
def ClosedAt (r : Registry) (marked : List ℕ) (x : ℕ) : Prop :=
  ∀ obj, r.ptrs x = some obj → ∀ j o, InList r.ptrs obj.firstChildIdx j → r.ptrs j = some o →
    hasFlag o.flags flagImmortal = false → j ∈ marked

/-- What the loop adds to the marked slots: only slots reached from the root, and, when it
ends without truncation, every queued object that is not immortal together with the
child lists of everything it marked. -/
structure LoopSpec (r : Registry) (root : ℕ) (pending marked : List ℕ) (truncated : Bool)
    (c : Cascade) (marked' : List ℕ) : Prop where
  reg : c.reg = markAll r marked'
  grows : ∀ x ∈ marked, x ∈ marked'
  sound : ∀ x ∈ marked', Reach r root x
  untruncated : c.truncated = false → truncated = false
  queued : c.truncated = false → ∀ x ∈ pending, ∀ o, r.ptrs x = some o →
    hasFlag o.flags flagImmortal = false → x ∈ marked'
  closed : c.truncated = false → ∀ x ∈ marked', x ∈ marked ∨ ClosedAt r marked' x

namespace LoopSpec

variable {r : Registry} {root idx : ℕ} {rest marked marked' : List ℕ} {truncated : Bool}
  {c : Cascade}

lemma stop (hsound : ∀ x ∈ marked, Reach r root x) (count : ℕ) :
    LoopSpec r root [] marked truncated ⟨markAll r marked, count, truncated⟩ marked :=
  ⟨rfl, fun _ h => h, hsound, id, by simp, fun _ _ hx => .inl hx⟩

lemma skip (h : LoopSpec r root rest marked truncated c marked')
    (hpassed : ∀ o, r.ptrs idx = some o → hasFlag o.flags flagImmortal = true) :
    LoopSpec r root (idx :: rest) marked truncated c marked' := by
  refine ⟨h.reg, h.grows, h.sound, h.untruncated, ?_, h.closed⟩
  intro htr x hx o ho hm
  rcases mem_cons.mp hx with rfl | hx
  · rw [hpassed o ho] at hm
    cases hm
  · exact h.queued htr x hx o ho hm

lemma visit {walk : List ℕ × WalkEnd} {obj : CapObject}
    (h : LoopSpec r root (rest ++ walk.1) (idx :: marked)
      (truncated || decide (walk.2 = .full)) c marked')
    (hobj : r.ptrs idx = some obj)
    (hall : walk.2 ≠ .full → ∀ j, InList r.ptrs obj.firstChildIdx j → j ∈ walk.1) :
    LoopSpec r root (idx :: rest) marked truncated c marked' := by
  have hend : c.truncated = false → truncated = false ∧ walk.2 ≠ .full := by
    intro htr
    have hor := h.untruncated htr
    rw [Bool.or_eq_false_iff, decide_eq_false_iff_not] at hor
    exact hor
  refine ⟨h.reg, fun x hx => h.grows x (mem_cons_of_mem idx hx), h.sound,
    fun htr => (hend htr).1, ?_, ?_⟩
  · intro htr x hx o ho hm
    rcases mem_cons.mp hx with rfl | hx
    · exact h.grows x mem_cons_self
    · exact h.queued htr x (mem_append_left _ hx) o ho hm
  · intro htr x hx
    rcases h.closed htr x hx with hmarked | hclosed
    · rcases mem_cons.mp hmarked with rfl | hmarked
      · right
        intro obj' hobj' j o hlist hj hm
        rw [hobj] at hobj'
        cases hobj'
        have hwalk := hall (hend htr).2 j hlist
        exact h.queued htr j (mem_append_right _ hwalk) o hj hm
      · exact .inl hmarked
    · exact .inr hclosed

end LoopSpec

/-- An object that is gone or immortal is passed over. -/
lemma cascadeLoop_skip {fuel tail count : ℕ}
    (h : ∀ o, r.ptrs idx = some o → hasFlag o.flags flagImmortal = true) :
    cascadeLoop (fuel + 1) (idx :: rest) tail ⟨markAll r marked, count, truncated⟩ =
      cascadeLoop fuel rest tail ⟨markAll r marked, count, truncated⟩ := by
  cases ho : r.ptrs idx with
  | none => simp only [cascadeLoop, (markAll_keeps r marked idx).1 ho]
  | some o =>
    obtain ⟨o', ho', hre⟩ := (markAll_keeps r marked idx).2 o ho
    have himm : hasFlag o'.flags flagImmortal = hasFlag o.flags flagImmortal :=
      hre.hasFlag_eq (by decide)
    simp only [cascadeLoop, ho', himm, h o ho, if_true]

theorem cascadeLoop_spec (root : ℕ) (fuel : ℕ) (pending : List ℕ) (tail count : ℕ)
    (truncated : Bool) (marked : List ℕ) (hfuel : pending.length + (revokeCascadeMax - tail) ≤ fuel)
    (htail : tail ≤ revokeCascadeMax) (hsound : ∀ x ∈ marked, Reach r root x)
    (hqueued : ∀ x ∈ pending, Queued r root x) :
    ∃ marked', LoopSpec r root pending marked truncated
      (cascadeLoop fuel pending tail ⟨markAll r marked, count, truncated⟩) marked' := by
  induction fuel generalizing pending tail count truncated marked with
  | zero =>
    obtain rfl : pending = [] := length_eq_zero_iff.mp (by omega)
    exact ⟨marked, LoopSpec.stop hsound count⟩
  | succ fuel ih =>
  cases pending with
  | nil => exact ⟨marked, LoopSpec.stop hsound count⟩
  | cons idx rest =>
  rw [length_cons] at hfuel
  have hrest : ∀ x ∈ rest, Queued r root x := fun x hx => hqueued x (mem_cons_of_mem idx hx)
  have hidx : Queued r root idx := hqueued idx mem_cons_self
  by_cases hskip : ∀ o, r.ptrs idx = some o → hasFlag o.flags flagImmortal = true
  · obtain ⟨marked', hspec⟩ := ih rest tail count truncated marked (by omega) htail hsound hrest
    rw [cascadeLoop_skip hskip]
    exact ⟨marked', hspec.skip hskip⟩
  push Not at hskip
  obtain ⟨o, ho, hm⟩ := hskip
  obtain ⟨o', ho', hre⟩ := (markAll_keeps r marked idx).2 o ho
  have himm : hasFlag o'.flags flagImmortal = hasFlag o.flags flagImmortal :=
    hre.hasFlag_eq (by decide)
  have hm' : hasFlag o.flags flagImmortal = false := by simpa using hm
  have hreach : Reach r root idx := hidx.reach ho hm'
  have hwalk : siblingWalk (markAll r (idx :: marked)).ptrs (revokeCascadeMax - tail)
      o'.firstChildIdx = siblingWalk r.ptrs (revokeCascadeMax - tail) o.firstChildIdx := by
    rw [siblingWalk_keeps (markAll_keeps r _), hre.firstChildIdx]
  obtain ⟨hlen, hmem, hall⟩ :=
    siblingWalk_inList r.ptrs (revokeCascadeMax - tail) o.firstChildIdx
  generalize siblingWalk r.ptrs (revokeCascadeMax - tail) o.firstChildIdx = walk at *
  have hsound' : ∀ x ∈ idx :: marked, Reach r root x := by
    intro x hx
    rcases mem_cons.mp hx with rfl | hx
    · exact hreach
    · exact hsound x hx
  have hpend : ∀ x ∈ rest ++ walk.1, Queued r root x := by
    intro x hx
    rcases mem_append.mp hx with hx | hx
    · exact hrest x hx
    · exact ⟨idx, o, .inr hreach, ho, hmem x hx⟩
  obtain ⟨marked', hspec⟩ := ih (rest ++ walk.1) (tail + walk.1.length)
    (if o'.deleted then count else count + 1) (truncated || decide (walk.2 = .full))
    (idx :: marked) (by rw [length_append]; omega) (by omega) hsound' hpend
  have hloop : cascadeLoop (fuel + 1) (idx :: rest) tail
      ⟨markAll r marked, count, truncated⟩ =
      cascadeLoop fuel (rest ++ walk.1) (tail + walk.1.length)
        ⟨markAll r (idx :: marked), if o'.deleted then count else count + 1,
          truncated || decide (walk.2 = .full)⟩ := by
    simp only [cascadeLoop, ho', himm, hm', updateSlot_markAll, hwalk]
    rfl
  rw [hloop]
  exact ⟨marked', hspec.visit ho hall⟩

/-- The whole cascade marks only what is reached from the root, and all of it unless it
reports truncation. -/
theorem cascadeFrom_reach {obj : CapObject} (hroot : r.ptrs root = some obj) :
    ∃ marked, (cascadeFrom r obj).reg = markAll r marked ∧ (∀ x ∈ marked, Reach r root x) ∧
      ((cascadeFrom r obj).truncated = false → ∀ x, Reach r root x → x ∈ marked) := by
  obtain ⟨hlen, hmem, hall⟩ := siblingWalk_inList r.ptrs revokeCascadeMax obj.firstChildIdx
  have hfrom : cascadeFrom r obj = cascadeLoop revokeCascadeMax
      (siblingWalk r.ptrs revokeCascadeMax obj.firstChildIdx).1
      (siblingWalk r.ptrs revokeCascadeMax obj.firstChildIdx).1.length
      ⟨markAll r [], 0,
        decide ((siblingWalk r.ptrs revokeCascadeMax obj.firstChildIdx).2 ≠ .done)⟩ := by
    rw [markAll_nil]
    rfl
  rw [hfrom]
  generalize siblingWalk r.ptrs revokeCascadeMax obj.firstChildIdx = seed at *
  have hqueued : ∀ x ∈ seed.1, Queued r root x :=
    fun x hx => ⟨root, obj, .inl rfl, hroot, hmem x hx⟩
  obtain ⟨marked, hspec⟩ := cascadeLoop_spec root revokeCascadeMax seed.1 seed.1.length 0
    (decide (seed.2 ≠ .done)) [] (by omega) hlen (by simp) hqueued
  refine ⟨marked, hspec.reg, hspec.sound, ?_⟩
  intro htr x hx
  have hend : seed.2 ≠ .full := by
    have hdone : seed.2 = .done := by simpa using hspec.untruncated htr
    rw [hdone]
    decide
  induction hx with
  | child hroot' hlist hj hm =>
    rw [hroot] at hroot'
    cases hroot'
    exact hspec.queued htr _ (hall hend _ hlist) _ hj hm
  | deeper _ hobj hlist hj hm ih =>
    rcases hspec.closed htr _ ih with hnil | hclosed
    · cases hnil
    · exact hclosed _ hobj _ _ hlist hj hm

end GrahaOS.CascadeReach
