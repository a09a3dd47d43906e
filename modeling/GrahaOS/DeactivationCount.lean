import GrahaOS.NetworkNames

/-!
# What a deactivation switches off

`cap_deactivate_count` reports how many capabilities it has switched off, also when a callback stops
it half way. It changes only what depends on its target, directly or through others, and only what
is on; the target itself may also be in the error state, and then it counts too.
-/

namespace GrahaOS.DeactivationCount

open Runs ActivationNetwork NetworkInvariant NetworkRuns NetworkNames Finset Option

/-- The capability `j` declares the dependency `i`. -/
def DependedBy (s : Can) (i j : ℕ) : Prop := i ∈ depsOf s j

/-- The capabilities that are off after, and were not before. -/
def switchedOff (s s' : Can) : Finset ℕ :=
  (Finset.range s.count).filter fun i => stateOf s i ≠ some .off ∧ stateOf s' i = some .off

/-- The capabilities that are off after, and were on before. -/
def switchedFromOn (s s' : Can) : Finset ℕ :=
  (Finset.range s.count).filter fun i => stateOf s i = some .on ∧ stateOf s' i = some .off

section Tally

variable {s s' s'' : Can} {id i n j : ℕ} {e : CanEntry} {cb : Callbacks} {r : ℤ × Can × ℕ}
  {inner : Can → ℕ → ℕ → ℤ × Can × ℕ}

lemma dependedBy_congr (h : SameShape s s') : DependedBy s' = DependedBy s := by
  funext i j
  rw [DependedBy, DependedBy, h.deps]

lemma stays_off (h : Deactivated s s') (hi : stateOf s i = some .off) :
    stateOf s' i = some .off := by
  rcases h.off i with heq | hoff
  · rw [heq, hi]
  · exact hoff

lemma switchedOff_trans (h : Deactivated s s') (h' : Deactivated s' s'') :
    (switchedOff s s'').card = (switchedOff s s').card + (switchedOff s' s'').card := by
  have hcount : s'.count = s.count := h.shape.1
  have hdisjoint : Disjoint (switchedOff s s') (switchedOff s' s'') := by
    refine disjoint_left.mpr fun i hi hi' => ?_
    exact (mem_filter.mp hi').2.1 (mem_filter.mp hi).2.2
  rw [← card_union_of_disjoint hdisjoint]
  congr 1
  ext i
  simp only [switchedOff, mem_union, mem_filter, mem_range, hcount]
  constructor
  · rintro ⟨hi, hnot, hoff⟩
    by_cases hmid : stateOf s' i = some .off
    · exact .inl ⟨hi, hnot, hmid⟩
    · exact .inr ⟨hi, hmid, hoff⟩
  · rintro (⟨hi, hnot, hmid⟩ | ⟨hi, hmid, hoff⟩)
    · exact ⟨hi, hnot, stays_off h' hmid⟩
    · exact ⟨hi, fun hoff' => hmid (stays_off h hoff'), hoff⟩

/-- The result of a deactivation that began with the count `n`, and that touches only what is in
`touched`. -/
structure Tally (s : Can) (n : ℕ) (touched : ℕ → Prop) (r : ℤ × Can × ℕ) : Prop where
  deactivated : Deactivated s r.2.1
  count : r.2.2 = n + (switchedOff s r.2.1).card
  only : ∀ j, r.2.1.entries j ≠ s.entries j → touched j

lemma Tally.same (n : ℕ) (touched : ℕ → Prop) (c : ℤ) : Tally s n touched (c, s, n) where
  deactivated := Deactivated.refl s
  count := by
    have hnone : switchedOff s s = ∅ := filter_eq_empty_iff.mpr fun i _ hi => hi.1 hi.2
    rw [hnone, card_empty, add_zero]
  only j hj := absurd rfl hj

lemma Tally.trans {n' : ℕ} {touched : ℕ → Prop} {c : ℤ} (h : Tally s n touched (c, s', n'))
    (h' : Tally s' n' touched r) : Tally s n touched r where
  deactivated := h.deactivated.trans h'.deactivated
  count := by
    rw [h'.count, switchedOff_trans h.deactivated h'.deactivated, ← add_assoc]
    congr 1
    exact h.count
  only j hj := by
    by_cases hmid : s'.entries j = s.entries j
    · exact h'.only j (hmid ▸ hj)
    · exact h.only j hmid

lemma Tally.mono {touched touched' : ℕ → Prop} (h : Tally s n touched r)
    (hsub : ∀ j, touched j → touched' j) : Tally s n touched' r :=
  ⟨h.deactivated, h.count, fun j hj => hsub j (h.only j hj)⟩

/-- The capability is on, or on its way. -/
def Active (s : Can) (i : ℕ) : Prop := stateOf s i = some .on ∨ stateOf s i = some .starting

lemma active_before (h : Deactivated s s') (hi : Active s' i) : Active s i := by
  rcases h.off i with heq | hoff
  · rwa [Active, heq] at hi
  · simp [Active, hoff] at hi

/-- What depends on the capability, and is active. -/
def Above (s : Can) (i j : ℕ) : Prop := Relation.TransGen (DependedBy s) i j ∧ Active s j

/-- What the cascade needs of the recursive call. -/
def Tallies (inner : Can → ℕ → ℕ → ℤ × Can × ℕ) : Prop :=
  ∀ s i n, WellFormed s → Tally s n (fun j => j = i ∨ Above s i j) (inner s i n)

lemma cascade_tally (hinner : Tallies inner) (id : ℕ) (is : List ℕ) (n : ℕ) (hw : WellFormed s) :
    Tally s n (Above s id) (cascade inner id is s n) := by
  induction is generalizing s n with
  | nil => exact Tally.same n _ 0
  | cons i is ih =>
  rcases cascade_cons inner id i is n hw with ⟨-, heq⟩ | ⟨⟨hdep, hactive⟩, hcase⟩
  · rw [heq]
    exact ih n hw
  have hfirst : Tally s n (Above s id) (inner s i n) := by
    refine (hinner s i n hw).mono fun j hj => ?_
    rcases hj with rfl | ⟨hj, hon⟩
    · exact ⟨.single hdep, hactive⟩
    · exact ⟨hj.head hdep, hon⟩
  rcases hcase with ⟨-, heq⟩ | ⟨-, heq⟩
  · rw [heq]
    exact hfirst
  · rw [heq]
    have hrest := ih (inner s i n).2.2 (hfirst.deactivated.shape.wellFormed hw)
    exact hfirst.trans (hrest.mono fun j hj => ⟨dependedBy_congr hfirst.deactivated.shape ▸ hj.1,
      active_before hfirst.deactivated hj.2⟩)

lemma tally_off (n : ℕ) (he : s.entries id = some e) (hoff : e.state ≠ .off)
    (hid : id < s.count) (hundep : Undepended s id) :
    Tally s n (· = id) (0, s.modify id fun e => { e with state := .off }, n + 1) := by
  obtain ⟨hshape, hstate⟩ := modify_spec (f := fun e => { e with state := .off }) he
    (fun _ => rfl) (fun _ => rfl)
  refine ⟨⟨hshape, fun i => ?_, closed_of_undepended hshape hstate (by simp) hundep⟩, ?_, ?_⟩
  · rw [hstate, Function.update_apply]
    split_ifs
    · exact .inr rfl
    · exact .inl rfl
  · have hone : switchedOff s (s.modify id fun e => { e with state := .off }) = {id} := by
      ext i
      rw [switchedOff, mem_filter, mem_singleton, hstate, Function.update_apply]
      split_ifs with hi
      · subst hi
        simp [hid, stateOf_eq he, hoff]
      · simp [hi]
    rw [hone, card_singleton]
  · intro j hj
    by_contra hne
    exact hj (Can.modify_of_ne hne)

lemma lt_of_dependedBy (hw : WellFormed s) (h : Relation.TransGen (DependedBy s) i j) : i < j := by
  have hstep : ∀ a b, DependedBy s a b → a < b := by
    intro a b hab
    cases he : s.entries b with
    | none => simp [DependedBy, depsOf, he] at hab
    | some e => exact hw.ordered b e he a (depsOf_eq he ▸ hab)
  induction h with
  | single h => exact hstep _ _ h
  | tail _ h ih => exact ih.trans (hstep _ _ h)

lemma cascade_target (hinner : Tallies inner) (n : ℕ) (hw : WellFormed s) :
    (cascade inner id (List.range s.count) s n).2.1.entries id = s.entries id := by
  by_contra hne
  exact lt_irrefl id (lt_of_dependedBy hw ((cascade_tally hinner id _ n hw).only id hne).1)

theorem capDeactivateAux_tally (fuel : ℕ) : Tallies (capDeactivateAux cb fuel) := by
  induction fuel with
  | zero => exact fun s i n _ => Tally.same n _ _
  | succ fuel ih =>
  intro s id n hw
  have hcascade : Tally s n (fun j => j = id ∨ Above s id j) _ :=
    (cascade_tally ih id (List.range s.count) n hw).mono fun j hj => .inr hj
  have htarget := @cascade_target s id _ ih n hw
  have hundep := cascade_undepended (@capDeactivateAux_spec cb fuel) id n hw
  have hcases := capDeactivateAux_cases cb fuel s id n
  generalize cascade (capDeactivateAux cb fuel) id (List.range s.count) s n = below
    at hcascade htarget hundep hcases
  generalize capDeactivateAux cb (fuel + 1) s id n = r at hcases ⊢
  obtain ⟨rc, r⟩ := r
  dsimp only at hcases
  rcases hcases with ⟨rfl, -⟩ | ⟨e, he, hoff, ⟨-, rfl⟩ | ⟨hrc, heq⟩⟩
  · exact Tally.same n _ _
  · exact ⟨hcascade.deactivated, hcascade.count, hcascade.only⟩
  · cases heq
    have hlast := tally_off below.2.2 (htarget.trans he) hoff
      (hcascade.deactivated.shape.1 ▸ hw.bounded id e he) (hundep hrc)
    exact hcascade.trans (hlast.mono fun j hj => .inl hj)

/-- A deactivation that fails leaves its target as it was. -/
theorem capDeactivateAux_fails (fuel n : ℕ) (hw : WellFormed s)
    (hrc : (capDeactivateAux cb fuel s id n).1 ≠ 0) :
    (capDeactivateAux cb fuel s id n).2.1.entries id = s.entries id := by
  cases fuel with
  | zero => rfl
  | succ fuel =>
    rcases capDeactivateAux_cases cb fuel s id n with ⟨heq, -⟩ | ⟨e, -, -, ⟨-, heq⟩ | ⟨-, heq⟩⟩
    · rw [heq]
    · rw [heq]
      exact cascade_target (capDeactivateAux_tally fuel) n hw
    · rw [heq] at hrc
      exact absurd rfl hrc

end Tally

/-- No entry below the count has been freed. -/
def NoFreed (s : Can) : Prop := ∀ i < s.count, s.entries i ≠ none

section Freed

variable {s s' : Can} {id : ℕ} {e : CanEntry} {cb : Callbacks} {rc : ℤ} {x : CapState}
  {r : Registration} {allocOk : Bool}

lemma noFreed_of_shape (h : SameShape s s') (hno : NoFreed s') : NoFreed s := by
  intro i hi hnone
  refine hno i (h.1.symm ▸ hi) ?_
  have hmap := h.2 i
  rw [hnone] at hmap
  exact map_eq_none_iff.mp hmap

lemma noFreed_of_register (hw : WellFormed s) (h : capRegister s r allocOk = some (rc, s'))
    (hno : NoFreed s') : NoFreed s := by
  rcases capRegister_cases h with ⟨-, rfl | rfl⟩ | ⟨name, deps, -, -, -, -, -, -, rfl⟩
  · exact hno
  · rwa [set_count_none hw] at hno
  · intro i hi hnone
    refine hno i (Nat.lt_succ_of_lt hi) ?_
    rw [Can.set_of_ne hi.ne, hnone]

lemma noFreed_of_setRefuseHook {fn : Bool} (hno : NoFreed (capSetRefuseHook s id fn).2) :
    NoFreed s := by
  rcases capSetRefuseHook_cases s id fn with hsame | hset
  · rwa [hsame] at hno
  rw [hset] at hno
  intro i hi hnone
  refine hno i hi ?_
  by_cases hid : i = id
  · rw [hid, Can.modify_self, ← hid, hnone]
    rfl
  · rw [Can.modify_of_ne hid, hnone]

lemma capUnregister_freed (hw : WellFormed s) (h : capUnregister cb s id = some (rc, s'))
    (hno : NoFreed s') : s' = s := by
  rcases capUnregister_cases h with ⟨-, hsame⟩ | ⟨e, he, -, -, rfl⟩
  · exact hsame
  refine absurd Can.set_self (hno id ?_)
  change id < (if _ then _ else s).count
  split_ifs
  · rw [(capDeactivate_deactivated hw).shape.1]
    exact hw.bounded id e he
  · exact hw.bounded id e he

lemma deactivated_avoids (hx : x ≠ .off) (h : Deactivated s s') (hs : ∀ i, stateOf s i ≠ some x)
    (i : ℕ) : stateOf s' i ≠ some x := by
  rcases h.off i with heq | hoff
  · rw [heq]
    exact hs i
  · simp [hoff, hx.symm]

lemma capRegister_avoids (hon : x ≠ .on) (hoff : x ≠ .off) (hw : WellFormed s)
    (h : capRegister s r allocOk = some (rc, s')) (hs : ∀ i, stateOf s i ≠ some x) (i : ℕ) :
    stateOf s' i ≠ some x := by
  rcases capRegister_cases h with ⟨-, rfl | rfl⟩ | ⟨name, deps, -, -, -, -, -, -, rfl⟩
  · exact hs i
  · rw [set_count_none hw]
    exact hs i
  intro hi
  obtain ⟨e, he, hstate⟩ := map_eq_some_iff.mp hi
  rcases entries_of_append he with ⟨-, rfl⟩ | ⟨-, hold⟩
  · simp only [Registration.entry] at hstate
    split_ifs at hstate
    · exact hon hstate.symm
    · exact hoff hstate.symm
  · exact hs i (by rw [stateOf_eq hold, hstate])

lemma capUnregister_avoids (hx : x ≠ .off) (hw : WellFormed s)
    (h : capUnregister cb s id = some (rc, s')) (hs : ∀ i, stateOf s i ≠ some x) (i : ℕ) :
    stateOf s' i ≠ some x := by
  rcases capUnregister_cases h with ⟨-, rfl⟩ | ⟨e, -, -, -, rfl⟩
  · exact hs i
  intro hi
  obtain ⟨e', he', hstate⟩ := map_eq_some_iff.mp hi
  obtain ⟨-, hkept⟩ := entries_of_remove he'
  split_ifs at hkept
  · refine deactivated_avoids hx (@capDeactivate_deactivated s id cb hw) hs i ?_
    rw [stateOf_eq hkept, hstate]
  · exact hs i (by rw [stateOf_eq hkept, hstate])

lemma setRefuseHook_stateOf (s : Can) (id : ℕ) (fn : Bool) (i : ℕ) :
    stateOf (capSetRefuseHook s id fn).2 i = stateOf s i := by
  rcases capSetRefuseHook_cases s id fn with hsame | hset
  · rw [hsame]
  rw [hset]
  by_cases hi : i = id
  · cases he : s.entries id <;> simp [stateOf, hi, he]
  · rw [stateOf, Can.modify_of_ne hi, stateOf]

/-- The invariant of all registries. -/
structure Reached (s : Can) : Prop where
  wellFormed : WellFormed s
  settled : ∀ i, stateOf s i ≠ some .starting
  closed : NoFreed s → Closed s

lemma Reached.sound (h : Reached s) (hno : NoFreed s) : Sound s := ⟨h.wellFormed, h.closed hno⟩

lemma step_reached {s s' : Can} {op : CanOp} (hreached : Reached s)
    (hstep : step (some s) op = some s') : Reached s' := by
  have hw := hreached.wellFormed
  cases op with
  | register r allocOk =>
    obtain ⟨⟨rc, s₂⟩, hreg, rfl⟩ := map_eq_some_iff.mp hstep
    refine ⟨capRegister_wellFormed hw hreg,
      capRegister_avoids nofun nofun hw hreg hreached.settled, fun hno => ?_⟩
    exact (capRegister_sound (hreached.sound (noFreed_of_register hw hreg hno)) hreg).closed
  | activate cb id =>
    obtain ⟨⟨rc, s₂⟩, hact, rfl⟩ := map_eq_some_iff.mp hstep
    obtain ⟨ha, -⟩ := capActivateAux_spec (id + 1) hact
    refine ⟨ha.shape.wellFormed hw, fun i hi => ?_, fun hno => ?_⟩
    · exact hreached.settled i ((ha.starting i).mp hi)
    · exact ha.closed (hreached.closed (noFreed_of_shape ha.shape hno))
  | deactivate cb id =>
    cases hstep
    have hd : Deactivated s (capDeactivate cb s id).2 := capDeactivate_deactivated hw
    refine ⟨hd.shape.wellFormed hw, deactivated_avoids nofun hd hreached.settled, fun hno => ?_⟩
    exact hd.closed (hreached.closed (noFreed_of_shape hd.shape hno))
  | unregister cb id =>
    obtain ⟨⟨rc, s₂⟩, hunreg, rfl⟩ := map_eq_some_iff.mp hstep
    refine ⟨capUnregister_wellFormed hw hunreg,
      capUnregister_avoids nofun hw hunreg hreached.settled, fun hno => ?_⟩
    have hsame := capUnregister_freed hw hunreg hno
    dsimp only at hsame hno ⊢
    rw [hsame] at hno ⊢
    exact hreached.closed hno
  | setRefuseHook id fn =>
    cases hstep
    have hwf : WellFormed (capSetRefuseHook s id fn).2 := by
      rcases capSetRefuseHook_cases s id fn with hsame | hset
      · rwa [hsame]
      · rw [hset]
        exact wellFormed_modify (fun _ => rfl) (fun _ => rfl) hw
    refine ⟨hwf, fun i => ?_, fun hno => ?_⟩
    · rw [setRefuseHook_stateOf]
      exact hreached.settled i
    · exact (capSetRefuseHook_sound fn (hreached.sound (noFreed_of_setRefuseHook hno))).closed

lemma reached_empty : Reached Can.empty :=
  ⟨sound_empty.wellFormed, by simp [stateOf, Can.empty], fun _ => sound_empty.closed⟩

/-- In every registry that is reached. -/
theorem run_reached (ops : List CanOp) : ∀ s ∈ run step (some Can.empty) ops, Reached s :=
  run_keeps reached_empty (fun h _ => step_reached h)
    (guarded_of_forall step (fun _ _ => trivial) _)

end Freed

section Result

variable {s : Can} {id : ℕ} {cb : Callbacks}

lemma not_on_above (hc : Closed s) (hid : stateOf s id ≠ some .on) {j : ℕ}
    (h : Relation.ReflTransGen (DependedBy s) id j) : stateOf s j ≠ some .on := by
  induction h with
  | refl => exact hid
  | tail _ hdep ih => exact fun hon => ih (hc _ hon _ hdep)

/-- The promises of `cap_deactivate_count`: the result, the registry after it, and the count. A
target in the error state counts when it is switched off. -/
structure Deactivation (s : Can) (id : ℕ) (r : ℤ × Can × ℕ) : Prop where
  count : r.2.2 = (switchedFromOn s r.2.1).card +
    if stateOf s id = some .error ∧ r.1 = 0 then 1 else 0
  success : r.1 = 0 → ∀ j, Relation.ReflTransGen (DependedBy s) id j →
    stateOf r.2.1 j ≠ some .on
  failure : r.1 ≠ 0 →
    (∀ j, r.2.1.entries j ≠ s.entries j → Relation.TransGen (DependedBy s) id j) ∧
    ∀ i, stateOf r.2.1 i = some .on → ∀ d ∈ depsOf r.2.1 i, stateOf r.2.1 d = some .on

lemma card_switchedOff {r : ℤ × Can × ℕ} (hs : ∀ i, stateOf s i ≠ some .starting)
    (hshape : SameShape s r.2.1)
    (hid : id < s.count) (honly : ∀ j, r.2.1.entries j ≠ s.entries j → j = id ∨ Above s id j)
    (hoff : r.1 = 0 → stateOf r.2.1 id = some .off)
    (hkept : r.1 ≠ 0 → r.2.1.entries id = s.entries id) :
    (switchedOff s r.2.1).card = (switchedFromOn s r.2.1).card +
      if stateOf s id = some .error ∧ r.1 = 0 then 1 else 0 := by
  have hfrom : ∀ j, stateOf s j ≠ some .off → stateOf r.2.1 j = some .off →
      (stateOf s j = some .on ∨ j = id ∧ r.1 = 0) := by
    intro j hnot hj
    have hchanged : r.2.1.entries j ≠ s.entries j := by
      intro heq
      rw [stateOf, heq] at hj
      exact hnot hj
    rcases honly j hchanged with rfl | ⟨-, hon | hstarting⟩
    · by_cases hrc : r.1 = 0
      · exact .inr ⟨rfl, hrc⟩
      · exact absurd (hkept hrc) hchanged
    · exact .inl hon
    · exact absurd hstarting (hs j)
  split_ifs with herror
  · -- the target is one more
    have hnew : id ∉ switchedFromOn s r.2.1 := by simp [switchedFromOn, herror.1]
    rw [← card_insert_of_notMem hnew]
    congr 1
    ext j
    simp only [switchedOff, switchedFromOn, mem_insert, mem_filter, mem_range]
    constructor
    · rintro ⟨hj, hnot, hoffj⟩
      rcases hfrom j hnot hoffj with hon | ⟨rfl, -⟩
      · exact .inr ⟨hj, hon, hoffj⟩
      · exact .inl rfl
    · rintro (rfl | ⟨hj, hon, hoffj⟩)
      · exact ⟨hid, by simp [herror.1], hoff herror.2⟩
      · exact ⟨hj, by simp [hon], hoffj⟩
  · rw [add_zero]
    congr 1
    ext j
    simp only [switchedOff, switchedFromOn, mem_filter, mem_range]
    refine and_congr_right fun hj => and_congr_left fun hoffj =>
      ⟨fun hnot => ?_, fun hon => by simp [hon]⟩
    rcases hfrom j hnot hoffj with hon | ⟨rfl, hrc⟩
    · exact hon
    -- the target was neither off nor on its way nor in error
    obtain ⟨e', he', -⟩ := map_eq_some_iff.mp hoffj
    obtain ⟨e, he, -⟩ := hshape.entry he'
    have hst := stateOf_eq he
    cases hcase : e.state with
    | off => exact absurd (hst.trans (by rw [hcase])) hnot
    | starting => exact absurd (hst.trans (by rw [hcase])) (hs j)
    | on => rw [hst, hcase]
    | error => exact absurd ⟨hst.trans (by rw [hcase]), hrc⟩ herror

lemma deactivation_of_reached (h : Reached s) (hno : NoFreed s) :
    Deactivation s id (capDeactivateCount cb s id) := by
  have hc := h.closed hno
  rw [capDeactivateCount]
  by_cases hid : s.count ≤ id
  · rw [if_pos hid]
    have hnone : switchedFromOn s s = ∅ := by
      refine filter_eq_empty_iff.mpr fun i _ hi => ?_
      rw [hi.1] at hi
      cases hi.2
    refine ⟨?_, fun hrc => absurd hrc (show capErrNotFound ≠ 0 by decide), fun _ => ?_⟩
    · rw [hnone, if_neg fun hc => absurd hc.2 (show capErrNotFound ≠ 0 by decide)]
      rfl
    · exact ⟨fun j hj => absurd rfl hj, hc⟩
  · rw [if_neg hid]
    have htally := @capDeactivateAux_tally cb s.count s id 0 h.wellFormed
    obtain ⟨hd, hoff⟩ := @capDeactivateAux_spec cb s.count s id 0 h.wellFormed
    have hkept := @capDeactivateAux_fails s id cb s.count 0 h.wellFormed
    have hclosed := hd.closed hc
    refine ⟨?_, fun hrc j hj => ?_, fun hrc => ⟨fun j hj => ?_, hclosed⟩⟩
    · rw [htally.count, Nat.zero_add]
      exact card_switchedOff h.settled hd.shape (not_le.mp hid) htally.only hoff hkept
    · rw [← dependedBy_congr hd.shape] at hj
      exact not_on_above hclosed (by simp [hoff hrc]) hj
    · rcases htally.only j hj with rfl | hj'
      · exact absurd (hkept hrc) hj
      · exact hj'.1

/-- In every registry without freed entries, `cap_deactivate_count` reports the number of
capabilities that it has switched from on to off, and its target if that was in error, and it keeps
its other promises. -/
theorem deactivation_is_counted {ops : List CanOp} {s : Can}
    (hs : run step (some Can.empty) ops = some s) (hno : NoFreed s) (cb : Callbacks) (id : ℕ) :
    Deactivation s id (capDeactivateCount cb s id) :=
  deactivation_of_reached (run_reached ops s hs) hno

/-- In every registry that is reached, no capability depends on itself and none is left on its way,
and the recursions over dependencies and dependents are no deeper than the model follows them. -/
theorem recursion_is_bounded {ops : List CanOp} {s : Can}
    (hs : run step (some Can.empty) ops = some s) (id : ℕ) :
    ¬ Relation.TransGen (DependedBy s) id id ∧ stateOf s id ≠ some .starting ∧
    ∀ cb k, capActivateAux cb (id + 1 + k) s id = capActivate cb s id ∧
      (id < s.count → ∀ n,
        capDeactivateAux cb (s.count + k) s id n = capDeactivateAux cb s.count s id n) ∧
      ∀ visited, dfsWalk s (id + 1 + k) id visited = dfsWalk s (id + 1) id visited := by
  have hreached := run_reached ops s hs
  have hw := hreached.wellFormed
  refine ⟨fun hcycle => (lt_of_dependedBy hw hcycle).false, hreached.settled id, fun cb k => ?_⟩
  refine ⟨?_, fun hid n => ?_, ?_⟩
  · exact capActivateAux_fuel hw (by omega) (by omega)
  · exact capDeactivateAux_fuel hw hid (by omega) (by omega)
  · exact dfsWalk_fuel hw (by omega) (by omega)

end Result

/-- An application whose activation callback is called. -/
def player : Registration := ⟨some "player".toList, capApplication, [], 0, true, false⟩

/-- The activation callbacks fail. -/
def unable : Callbacks := ⟨fun _ => -1, fun _ => 0, fun _ => 0⟩

/-- Two features and their application are switched off, and three are counted. -/
theorem three_are_counted :
    ∃ s, run step (some Can.empty) featureOps = some s ∧
      Deactivation s 0 (capDeactivateCount succeeding s 0) ∧
      (capDeactivateCount succeeding s 0).2.2 = 3 := by
  obtain ⟨s, hs⟩ := isSome_iff_exists.mp
    (show (run step (some Can.empty) featureOps).isSome by decide)
  have hcount : (run step (some Can.empty) featureOps).map Can.count = some 3 := by decide
  have hentries : ∀ i < 3, (run step (some Can.empty) featureOps).bind (fun s => s.entries i) ≠
      none := by decide
  have hthree : (run step (some Can.empty) featureOps).map
      (fun s => (capDeactivateCount succeeding s 0).2.2) = some 3 := by decide
  rw [hs] at hcount hentries hthree
  have hno : NoFreed s := by
    intro i hi
    rw [some.inj hcount] at hi
    exact hentries i hi
  exact ⟨s, hs, deactivation_is_counted hs hno succeeding 0, some.inj hthree⟩

theorem feature_recursion_is_bounded :
    ∃ s, run step (some Can.empty) featureOps = some s ∧ ¬ Relation.TransGen (DependedBy s) 1 1 ∧
      ∀ k, capActivateAux succeeding (2 + k) s 1 = capActivate succeeding s 1 := by
  obtain ⟨s, hs⟩ := isSome_iff_exists.mp
    (show (run step (some Can.empty) featureOps).isSome by decide)
  obtain ⟨hacyclic, -, hfuel⟩ := recursion_is_bounded hs 1
  exact ⟨s, hs, hacyclic, fun k => (hfuel succeeding k).1⟩

/-- The target is in error: one capability is counted, and none was on. -/
theorem target_in_error_is_counted :
    ∃ s, run step (some Can.empty) [.register player true, .activate unable 0] = some s ∧
      (∀ i < s.count, s.entries i ≠ none) ∧
      (capDeactivateCount succeeding s 0).1 = 0 ∧
      (capDeactivateCount succeeding s 0).2.2 = 1 ∧
      switchedFromOn s (capDeactivateCount succeeding s 0).2.1 = ∅ :=
  ⟨_, rfl, by decide, by decide, by decide, by decide⟩

end GrahaOS.DeactivationCount
