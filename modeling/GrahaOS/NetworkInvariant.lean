import GrahaOS.ActivationNetwork
import GrahaOS.Runs

/-!
# Dependencies of active capabilities

A capability that is on should have all its dependencies registered and on. Activation and
deactivation keep this for all answers of the callbacks, also when they stop half way. But
`cap_unregister` does not look at the result of the deactivation: when a dependent refuses, the
capability is removed while the dependent stays on. `Willing` excludes that.
-/

namespace GrahaOS.NetworkInvariant

open ActivationNetwork Option
open Function (update update_apply update_of_ne update_self)

/-- An entry without what activation and deactivation change. -/
def shape (e : CanEntry) : CanEntry := { e with state := .off, activationCount := 0, errorDep := 0 }

def SameShape (s s' : Can) : Prop :=
  s'.count = s.count ∧ ∀ i, (s'.entries i).map shape = (s.entries i).map shape

def stateOf (s : Can) (i : ℕ) : Option CapState := (s.entries i).map CanEntry.state

/-- The declared dependencies of a capability. -/
def depsOf (s : Can) (i : ℕ) : List ℕ := ((s.entries i).map CanEntry.depIndices).getD []

/-- Entries are below the count and live, and depend on smaller indices only. -/
structure WellFormed (s : Can) : Prop where
  bounded : ∀ i e, s.entries i = some e → i < s.count
  live : ∀ i e, s.entries i = some e → e.deleted = false
  ordered : ∀ i e, s.entries i = some e → ∀ d ∈ e.depIndices, d < i

/-- The dependencies of a capability that is on are on. -/
def Closed (s : Can) : Prop :=
  ∀ i, stateOf s i = some .on → ∀ d ∈ depsOf s i, stateOf s d = some .on

section Shape

variable {s s' s'' : Can} {id : ℕ} {e : CanEntry}

lemma SameShape.refl (s : Can) : SameShape s s := ⟨rfl, fun _ => rfl⟩

variable (h : SameShape s s')
include h

lemma SameShape.trans (h' : SameShape s' s'') : SameShape s s'' :=
  ⟨h'.1.trans h.1, fun i => (h'.2 i).trans (h.2 i)⟩

lemma SameShape.entry {i : ℕ} {e' : CanEntry} (he' : s'.entries i = some e') :
    ∃ e, s.entries i = some e ∧ shape e = shape e' := by
  have := h.2 i
  rw [he', map_some, eq_comm, map_eq_some_iff] at this
  exact this

lemma SameShape.symm : SameShape s' s := ⟨h.1.symm, fun i => (h.2 i).symm⟩

lemma SameShape.deps (i : ℕ) : depsOf s' i = depsOf s i := by
  have hmap : ∀ x : Option CanEntry, x.map CanEntry.depIndices =
      (x.map shape).map CanEntry.depIndices := by
    intro x
    rw [map_map]
    rfl
  rw [depsOf, depsOf, hmap (s'.entries i), h.2, ← hmap]

lemma SameShape.wellFormed (hw : WellFormed s) : WellFormed s' where
  bounded := fun i e' he' => by
    obtain ⟨e, he, -⟩ := h.entry he'
    exact (hw.bounded i e he).trans_eq h.1.symm
  live := fun i e' he' => by
    obtain ⟨e, he, hsame⟩ := h.entry he'
    have hdel : (shape e).deleted = (shape e').deleted := by rw [hsame]
    exact hdel.symm.trans (hw.live i e he)
  ordered := fun i e' he' => by
    obtain ⟨e, he, hsame⟩ := h.entry he'
    have hdeps : (shape e).depIndices = (shape e').depIndices := by rw [hsame]
    intro d hd
    exact hw.ordered i e he d (hdeps.symm ▸ hd)

omit h

variable (he : s.entries id = some e)
include he

lemma depsOf_eq : depsOf s id = e.depIndices := by
  rw [depsOf, he]
  rfl

lemma stateOf_eq : stateOf s id = some e.state := by
  rw [stateOf, he]
  rfl

lemma modify_spec {f : CanEntry → CanEntry} {x : CapState} (hshape : ∀ e, shape (f e) = shape e)
    (hstate : ∀ e, (f e).state = x) :
    SameShape s (s.modify id f) ∧
      stateOf (s.modify id f) = update (stateOf s) id (some x) := by
  refine ⟨⟨rfl, fun i => ?_⟩, funext fun i => ?_⟩
  · by_cases hi : i = id
    · subst hi
      simp [he, hshape]
    · rw [Can.modify_of_ne hi]
  · by_cases hi : i = id
    · subst hi
      simp [stateOf, he, hstate]
    · rw [stateOf, Can.modify_of_ne hi, update_of_ne hi, stateOf]

end Shape

/-- What `cap_activate` does: capabilities that are on stay on, those on their way are the same
when it returns, and dependencies stay closed. -/
structure Activated (s s' : Can) : Prop where
  shape : SameShape s s'
  on : ∀ i, stateOf s i = some .on → stateOf s' i = some .on
  starting : ∀ i, stateOf s' i = some .starting ↔ stateOf s i = some .starting
  closed : Closed s → Closed s'

section Activation

variable {s s' s'' : Can} {id : ℕ} {e : CanEntry} {cb : Callbacks} {rc : ℤ}

lemma Activated.refl (s : Can) : Activated s s :=
  ⟨SameShape.refl s, fun _ h => h, fun _ => Iff.rfl, fun h => h⟩

lemma Activated.trans (h : Activated s s') (h' : Activated s' s'') : Activated s s'' :=
  ⟨h.shape.trans h'.shape, fun i hi => h'.on i (h.on i hi),
    fun i => (h'.starting i).trans (h.starting i), fun hc => h'.closed (h.closed hc)⟩

lemma closed_of_not_on {x : Option CapState} (hshape : SameShape s s')
    (hstate : stateOf s' = update (stateOf s) id x) (hid : stateOf s id ≠ some .on)
    (hx : x ≠ some .on) (h : Closed s) : Closed s' := by
  have hon : ∀ i, stateOf s' i = some .on ↔ stateOf s i = some .on := by
    intro i
    rw [hstate]
    by_cases hi : i = id
    · subst hi
      simp [hx, hid]
    · rw [update_of_ne hi]
  intro i hi d hd
  rw [hon] at hi ⊢
  rw [hshape.deps] at hd
  exact h i hi d hd

lemma closed_of_on (hshape : SameShape s s')
    (hstate : stateOf s' = update (stateOf s) id (some .on))
    (hdeps : ∀ d ∈ depsOf s id, stateOf s d = some .on) (h : Closed s) : Closed s' := by
  have hon : ∀ i, stateOf s i = some .on → stateOf s' i = some .on := by
    intro i hi
    rw [hstate, update_apply]
    split_ifs
    · rfl
    · exact hi
  intro i hi d hd
  rw [hshape.deps] at hd
  by_cases hii : i = id
  · exact hon d (hdeps d (hii ▸ hd))
  · rw [hstate, update_of_ne hii] at hi
    exact hon d (h i hi d hd)

/-- The loop over the dependencies: all of them are on when none has failed. -/
lemma activateDeps_spec {act : Can → ℕ → Option (ℤ × Can)}
    (hact : ∀ s d rc s', act s d = some (rc, s') →
      Activated s s' ∧ (rc = 0 → stateOf s' d = some .on))
    (deps : List ℕ) {failed : Option ℕ} (h : activateDeps act deps s = some (failed, s')) :
    Activated s s' ∧ (failed = none → ∀ d ∈ deps, stateOf s' d = some .on) := by
  induction deps generalizing s with
  | nil =>
    cases h
    exact ⟨Activated.refl _, fun _ d hd => absurd hd List.not_mem_nil⟩
  | cons d deps ih =>
  obtain ⟨⟨rc, s₁⟩, hd, hrest⟩ := bind_eq_some_iff.mp h
  obtain ⟨ha, hon⟩ := hact s d rc s₁ hd
  dsimp only at hrest
  split_ifs at hrest with hrc
  · cases hrest
    exact ⟨ha, fun hnone => by cases hnone⟩
  obtain ⟨hs, hall⟩ := ih hrest
  refine ⟨ha.trans hs, fun hnone d' hd' => ?_⟩
  rcases List.mem_cons.mp hd' with rfl | hd'
  · exact hs.on d' (hon (not_not.mp hrc))
  · exact hall hnone d' hd'

/-- The last step of an activation: `id`, which is on its way, changes to `x`. -/
lemma Activated.finish {s₁ s₂ s₃ : Can} {x : CapState} (he : s.entries id = some e)
    (hon : e.state ≠ .on) (hstarting : e.state ≠ .starting) (hshape₁ : SameShape s s₁)
    (hstate₁ : stateOf s₁ = update (stateOf s) id (some .starting))
    (hdeps : Activated s₁ s₂) (hshape₃ : SameShape s₂ s₃)
    (hstate₃ : stateOf s₃ = update (stateOf s₂) id (some x)) (hx : x ≠ .starting)
    (hclosed : Closed s₂ → Closed s₃) : Activated s s₃ := by
  have hid : stateOf s id ≠ some .on ∧ stateOf s id ≠ some .starting := by
    rw [stateOf_eq he]
    simp [hon, hstarting]
  refine ⟨(hshape₁.trans hdeps.shape).trans hshape₃, fun i hi => ?_, fun i => ?_, fun h => ?_⟩
  · have hne : i ≠ id := fun hii => hid.1 (hii ▸ hi)
    rw [hstate₃, update_of_ne hne]
    apply hdeps.on
    rw [hstate₁, update_of_ne hne]
    exact hi
  · by_cases hii : i = id
    · subst hii
      rw [hstate₃, update_self]
      simp [hx, hid.2]
    · rw [hstate₃, update_of_ne hii, hdeps.starting, hstate₁, update_of_ne hii]
  · refine hclosed (hdeps.closed ?_)
    exact closed_of_not_on hshape₁ hstate₁ hid.1 (by simp) h

lemma startCap_spec {act : Can → ℕ → Option (ℤ × Can)}
    (hact : ∀ s d rc s', act s d = some (rc, s') →
      Activated s s' ∧ (rc = 0 → stateOf s' d = some .on))
    (he : s.entries id = some e) (hon : e.state ≠ .on) (hstarting : e.state ≠ .starting)
    (h : startCap cb act s id e = some (rc, s')) :
    Activated s s' ∧ (rc = 0 → stateOf s' id = some .on) := by
  obtain ⟨hshape₁, hstate₁⟩ := modify_spec (f := fun e => { e with state := .starting }) he
    (fun _ => rfl) (fun _ => rfl)
  obtain ⟨⟨failed, s₂⟩, hdeps, hrest⟩ := bind_eq_some_iff.mp h
  obtain ⟨ha, hall⟩ := activateDeps_spec hact _ hdeps
  -- the entry is still on its way after the dependencies
  have hmid : stateOf s₂ id = some .starting := by
    rw [ha.starting, hstate₁, update_self]
  obtain ⟨e₂, he₂, -⟩ := map_eq_some_iff.mp hmid
  have hfail : ∀ f : CanEntry → CanEntry, (∀ e, shape (f e) = shape e) →
      (∀ e, (f e).state = .error) → Activated s (s₂.modify id f) := by
    intro f hf hstate
    obtain ⟨hshape₃, hstate₃⟩ := modify_spec he₂ hf hstate
    refine Activated.finish he hon hstarting hshape₁ hstate₁ ha hshape₃ hstate₃ (by simp) ?_
    exact closed_of_not_on hshape₃ hstate₃ (by simp [hmid]) (by simp)
  cases failed with
  | some d =>
    cases hrest
    exact ⟨hfail _ (fun _ => rfl) (fun _ => rfl), fun hrc => by cases hrc⟩
  | none =>
  dsimp only at hrest
  split_ifs at hrest with hcb
  · cases hrest
    exact ⟨hfail _ (fun _ => rfl) (fun _ => rfl), fun hrc => by cases hrc⟩
  cases hrest
  obtain ⟨hshape₃, hstate₃⟩ := modify_spec (f := fun e =>
    { e with state := .on, activationCount := e.activationCount + 1 }) he₂
    (fun _ => rfl) (fun _ => rfl)
  refine ⟨Activated.finish he hon hstarting hshape₁ hstate₁ ha hshape₃ hstate₃ (by simp) ?_,
    fun _ => by rw [hstate₃, update_self]⟩
  refine closed_of_on hshape₃ hstate₃ fun d hd => hall rfl d ?_
  rwa [ha.shape.deps, hshape₁.deps, depsOf_eq he] at hd

theorem capActivateAux_spec (fuel : ℕ) (h : capActivateAux cb fuel s id = some (rc, s')) :
    Activated s s' ∧ (rc = 0 → stateOf s' id = some .on) := by
  induction fuel generalizing s s' id rc with
  | zero =>
    cases h
    exact ⟨Activated.refl _, fun hrc => by cases hrc⟩
  | succ fuel ih =>
  have hsame : ∀ {c : ℤ}, c ≠ 0 → some (c, s) = some (rc, s') →
      Activated s s' ∧ (rc = 0 → stateOf s' id = some .on) := by
    intro c hc heq
    cases heq
    exact ⟨Activated.refl _, fun hrc => absurd hrc hc⟩
  rw [capActivateAux] at h
  by_cases hcount : s.count ≤ id
  · rw [if_pos hcount] at h
    exact hsame (by decide) h
  rw [if_neg hcount] at h
  cases he : s.entries id with
  | none =>
    rw [he] at h
    cases h
  | some e =>
  rw [he] at h
  dsimp only at h
  split_ifs at h with hdel hon hstarting
  · exact hsame (by decide) h
  · cases h
    exact ⟨Activated.refl _, fun _ => by rw [stateOf_eq he, hon]⟩
  · exact hsame (by decide) h
  · exact startCap_spec (fun s d rc s' hd => ih hd) he hon hstarting h

end Activation

/-- What `cap_deactivate` does: it only switches capabilities off. -/
structure Deactivated (s s' : Can) : Prop where
  shape : SameShape s s'
  off : ∀ i, stateOf s' i = stateOf s i ∨ stateOf s' i = some .off
  closed : Closed s → Closed s'

section Deactivation

variable {s s' s'' : Can} {id i j : ℕ} {e : CanEntry} {cb : Callbacks}
  {inner : Can → ℕ → ℕ → ℤ × Can × ℕ} {x : CapState}

lemma Deactivated.refl (s : Can) : Deactivated s s :=
  ⟨SameShape.refl s, fun _ => .inl rfl, fun h => h⟩

lemma Deactivated.trans (h : Deactivated s s') (h' : Deactivated s' s'') : Deactivated s s'' := by
  refine ⟨h.shape.trans h'.shape, fun i => ?_, fun hc => h'.closed (h.closed hc)⟩
  rcases h'.off i with heq | hoff
  · rw [heq]
    exact h.off i
  · exact .inr hoff

lemma Deactivated.not_on (h : Deactivated s s') (hi : stateOf s i ≠ some .on) :
    stateOf s' i ≠ some .on := by
  rcases h.off i with heq | hoff
  · rw [heq]
    exact hi
  · simp [hoff]

variable (inner)

/-- What the cascade needs of the recursive call. -/
def SwitchesOff : Prop :=
  ∀ s i n, WellFormed s → Deactivated s (inner s i n).2.1 ∧
    ((inner s i n).1 = 0 → stateOf (inner s i n).2.1 i = some .off)

/-- The capability `j` is on, or on its way, and depends on `i`. -/
def Rests (s : Can) (i j : ℕ) : Prop :=
  i ∈ depsOf s j ∧ (stateOf s j = some .on ∨ stateOf s j = some .starting)

/-- A turn of the cascade: an entry that rests on the capability is switched off, any other one is
passed over. -/
lemma cascade_cons (id i : ℕ) (is : List ℕ) (n : ℕ) (hw : WellFormed s) :
    (¬ Rests s id i ∧ cascade inner id (i :: is) s n = cascade inner id is s n) ∨
    (Rests s id i ∧ ((inner s i n).1 ≠ 0 ∧ cascade inner id (i :: is) s n = inner s i n ∨
      (inner s i n).1 = 0 ∧ cascade inner id (i :: is) s n =
        cascade inner id is (inner s i n).2.1 (inner s i n).2.2)) := by
  rw [cascade]
  cases he : s.entries i with
  | none => exact .inl ⟨by simp [Rests, stateOf, he], rfl⟩
  | some e =>
  have hiff : Rests s id i ↔ e.deleted = false ∧ (e.state = .on ∨ e.state = .starting) ∧
      id ∈ e.depIndices := by
    rw [Rests, depsOf_eq he, stateOf_eq he]
    simp [hw.live i e he, and_comm]
  dsimp only
  by_cases hrests : Rests s id i
  · rw [if_pos (hiff.mp hrests)]
    by_cases hrc : (inner s i n).1 = 0
    · exact .inr ⟨hrests, .inr ⟨hrc, if_neg (not_not.mpr hrc)⟩⟩
    · exact .inr ⟨hrests, .inl ⟨hrc, if_pos hrc⟩⟩
  · rw [if_neg fun hcond => hrests (hiff.mpr hcond)]
    exact .inl ⟨hrests, rfl⟩

variable {inner}

/-- The cascade: when it succeeds, no dependent that it has looked at is on. -/
lemma cascade_spec (hinner : SwitchesOff inner) (id : ℕ) (is : List ℕ) (n : ℕ) (hw : WellFormed s) :
    Deactivated s (cascade inner id is s n).2.1 ∧
      ((cascade inner id is s n).1 = 0 → ∀ i ∈ is, id ∈ depsOf s i →
        stateOf (cascade inner id is s n).2.1 i ≠ some .on) := by
  induction is generalizing s n with
  | nil => exact ⟨Deactivated.refl s, fun _ i hi => absurd hi List.not_mem_nil⟩
  | cons i is ih =>
  obtain ⟨hd, hoff⟩ := hinner s i n hw
  rcases cascade_cons inner id i is n hw with ⟨hnot, heq⟩ | ⟨-, ⟨hrc, heq⟩ | ⟨hrc, heq⟩⟩
  · -- an entry that is passed over is not a dependent that is on
    rw [heq]
    obtain ⟨hd₁, hall⟩ := ih n hw
    refine ⟨hd₁, fun hzero j hj hdep => ?_⟩
    rcases List.mem_cons.mp hj with rfl | hj
    · exact hd₁.not_on fun hon => hnot ⟨hdep, .inl hon⟩
    · exact hall hzero j hj hdep
  · rw [heq]
    exact ⟨hd, fun hzero => absurd hzero hrc⟩
  · rw [heq]
    obtain ⟨hd₁, hall⟩ := ih (inner s i n).2.2 (hd.shape.wellFormed hw)
    refine ⟨hd.trans hd₁, fun hzero j hj hdep => ?_⟩
    rcases List.mem_cons.mp hj with rfl | hj
    · exact hd₁.not_on (by simp [hoff hrc])
    · exact hall hzero j hj (by rwa [hd.shape.deps])

/-- No capability that is on depends on `id`. -/
def Undepended (s : Can) (id : ℕ) : Prop := ∀ i, id ∈ depsOf s i → stateOf s i ≠ some .on

lemma closed_of_undepended (hshape : SameShape s s')
    (hstate : stateOf s' = update (stateOf s) id (some x)) (hx : x ≠ .on)
    (hno : Undepended s id) (h : Closed s) : Closed s' := by
  intro i hi d hd
  have hne : i ≠ id := by
    rintro rfl
    rw [hstate, update_self] at hi
    exact hx (some.inj hi)
  rw [hstate, update_of_ne hne] at hi
  rw [hshape.deps] at hd
  have hdid : d ≠ id := by
    rintro rfl
    exact hno i hd hi
  rw [hstate, update_of_ne hdid]
  exact h i hi d hd

lemma Undepended.of_off (hshape : SameShape s s')
    (hstate : stateOf s' = update (stateOf s) id (some x)) (hx : x ≠ .on)
    (hno : Undepended s j) : Undepended s' j := by
  intro i hdep hi
  rw [hshape.deps] at hdep
  rw [hstate, update_apply] at hi
  split_ifs at hi with hii
  · exact hx (some.inj hi)
  · exact hno i hdep hi

/-- A cascade over all entries that succeeds leaves nothing on that depends on `id`. -/
lemma cascade_undepended (hinner : SwitchesOff inner) (id n : ℕ) (hw : WellFormed s)
    (hrc : (cascade inner id (List.range s.count) s n).1 = 0) :
    Undepended (cascade inner id (List.range s.count) s n).2.1 id := by
  obtain ⟨hd, hall⟩ := cascade_spec hinner id (List.range s.count) n hw
  intro i hdep hon
  rw [hd.shape.deps] at hdep
  refine hall hrc i ?_ hdep hon
  obtain ⟨e, he, -⟩ := map_eq_some_iff.mp hon
  obtain ⟨e', he', -⟩ := hd.shape.entry he
  exact List.mem_range.mpr (hw.bounded i e' he')

/-- The recursive call on a live capability that is not off and does not refuse. -/
lemma capDeactivateAux_active (fuel n : ℕ) (hw : WellFormed s) (he : s.entries id = some e)
    (hoff : e.state ≠ .off) (hrefuse : ¬(e.refuseDeactivateFn ∧ cb.refuse id ≠ 0)) :
    capDeactivateAux cb (fuel + 1) s id n =
      match cascade (capDeactivateAux cb fuel) id (List.range s.count) s n with
      | (rc, s, n) =>
        if rc ≠ 0 then (rc, s, n) else
        if e.deactivateFn ∧ cb.deactivate id ≠ 0 then (cb.deactivate id, s, n) else
        (0, s.modify id fun e => { e with state := .off }, n + 1) := by
  rw [capDeactivateAux, if_neg (not_le.mpr (hw.bounded id e he)), he]
  dsimp only
  rw [if_neg (by simp [hw.live id e he]), if_neg hoff, if_neg hrefuse]

/-- A deactivation does nothing, or stops in or after the cascade, or switches the capability off
after the cascade. -/
lemma capDeactivateAux_cases (cb : Callbacks) (fuel : ℕ) (s : Can) (id n : ℕ) :
    let r := capDeactivateAux cb (fuel + 1) s id n
    let below := cascade (capDeactivateAux cb fuel) id (List.range s.count) s n
    (r.2 = (s, n) ∧ (r.1 = 0 → stateOf s id = some .off)) ∨
      ∃ e, s.entries id = some e ∧ e.state ≠ .off ∧
        (r.1 ≠ 0 ∧ r.2 = below.2 ∨ below.1 = 0 ∧
          r = (0, below.2.1.modify id fun e => { e with state := .off }, below.2.2 + 1)) := by
  intro r below
  simp only [r, capDeactivateAux]
  cases he : s.entries id with
  | none =>
    rw [ite_self]
    exact .inl ⟨rfl, fun hrc => by cases hrc⟩
  | some e =>
  dsimp only
  split_ifs with hcount hdel hoff hrefuse hrc hcb
  · exact .inl ⟨rfl, fun hrc => by cases hrc⟩
  · exact .inl ⟨rfl, fun hrc => by cases hrc⟩
  · exact .inl ⟨rfl, fun _ => by rw [stateOf_eq he, hoff]⟩
  · exact .inl ⟨rfl, fun hrc => by cases hrc⟩
  · exact .inr ⟨e, rfl, hoff, .inl ⟨hrc, rfl⟩⟩
  · exact .inr ⟨e, rfl, hoff, .inl ⟨hcb.2, rfl⟩⟩
  · exact .inr ⟨e, rfl, hoff, .inr ⟨not_not.mp hrc, rfl⟩⟩

theorem capDeactivateAux_spec (fuel : ℕ) : SwitchesOff (capDeactivateAux cb fuel) := by
  induction fuel with
  | zero => exact fun s i n _ => ⟨Deactivated.refl s, fun hrc => by cases hrc⟩
  | succ fuel ih =>
  intro s id n hw
  obtain ⟨hd, -⟩ := cascade_spec ih id (List.range s.count) n hw
  rcases capDeactivateAux_cases cb fuel s id n with
    ⟨hr, hoff⟩ | ⟨e, he, -, ⟨hrc, hr⟩ | ⟨hrc, hr⟩⟩
  · rw [hr]
    exact ⟨Deactivated.refl s, hoff⟩
  · rw [hr]
    exact ⟨hd, fun hzero => absurd hzero hrc⟩
  rw [hr]
  obtain ⟨e₁, he₁, -⟩ := hd.shape.symm.entry he
  obtain ⟨hshape, hstate⟩ := modify_spec (f := fun e => { e with state := .off }) he₁
    (fun _ => rfl) (fun _ => rfl)
  refine ⟨hd.trans ⟨hshape, fun i => ?_, ?_⟩, fun _ => by rw [hstate, update_self]⟩
  · rw [hstate, update_apply]
    split_ifs
    · exact .inr rfl
    · exact .inl rfl
  · exact closed_of_undepended hshape hstate (by simp) (cascade_undepended ih id n hw hrc)

/-- The callbacks of `j` do not stand in the way of its deactivation. -/
def Agrees (cb : Callbacks) (s : Can) (j : ℕ) : Prop :=
  ∀ e, s.entries j = some e → (e.deactivateFn → cb.deactivate j = 0) ∧
    (e.refuseDeactivateFn → cb.refuse j = 0)

/-- If anything rests on the capability, it lets the cascade begin and all of that agrees. -/
def Willing (cb : Callbacks) (s : Can) (id : ℕ) : Prop :=
  (∀ e, s.entries id = some e → (∃ j, Rests s id j) → e.refuseDeactivateFn →
      cb.refuse id = 0) ∧
    ∀ j, Relation.TransGen (Rests s) id j → Agrees cb s j

lemma Rests.mono (h : Deactivated s s') (hr : Rests s' i j) : Rests s i j := by
  obtain ⟨hdep, hstate⟩ := hr
  rw [h.shape.deps] at hdep
  rcases h.off j with heq | hoff
  · rw [heq] at hstate
    exact ⟨hdep, hstate⟩
  · simp [hoff] at hstate

lemma Agrees.of_shape (h : SameShape s s') (ha : Agrees cb s j) : Agrees cb s' j := by
  intro e' he'
  obtain ⟨e, he, hsame⟩ := h.entry he'
  have hdeact : (shape e).deactivateFn = (shape e').deactivateFn := by rw [hsame]
  have hrefuse : (shape e).refuseDeactivateFn = (shape e').refuseDeactivateFn := by rw [hsame]
  obtain ⟨h₁, h₂⟩ := ha e he
  exact ⟨fun hf => h₁ (hdeact.trans hf), fun hf => h₂ (hrefuse.trans hf)⟩

lemma cascade_ok (hinner : SwitchesOff inner) {s₀ : Can}
    (hok : ∀ s i n, Deactivated s₀ s → Rests s id i → (inner s i n).1 = 0) (is : List ℕ) (n : ℕ)
    (hw : WellFormed s) (hd : Deactivated s₀ s) : (cascade inner id is s n).1 = 0 := by
  induction is generalizing s n with
  | nil => rfl
  | cons i is ih =>
    rcases cascade_cons inner id i is n hw with ⟨-, heq⟩ | ⟨hrests, ⟨hrc, -⟩ | ⟨-, heq⟩⟩
    · rw [heq]
      exact ih n hw hd
    · exact absurd (hok s i n hd hrests) hrc
    · obtain ⟨hd', -⟩ := hinner s i n hw
      rw [heq]
      exact ih _ (hd'.shape.wellFormed hw) (hd.trans hd')

lemma Rests.entry (h : Rests s i j) : ∃ e, s.entries j = some e ∧ i ∈ e.depIndices := by
  obtain ⟨hdep, hstate⟩ := h
  cases he : s.entries j with
  | none => simp [stateOf, he] at hstate
  | some e => exact ⟨e, rfl, depsOf_eq he ▸ hdep⟩

/-- The cascade succeeds when everything above the capability agrees, and agreement is enough for
the recursive call. -/
lemma cascade_agrees {fuel : ℕ}
    (hrec : ∀ {s : Can} {id : ℕ} {e : CanEntry} (n : ℕ), WellFormed s → s.entries id = some e →
      s.count ≤ fuel + id → Agrees cb s id →
      (∀ j, Relation.TransGen (Rests s) id j → Agrees cb s j) →
      (capDeactivateAux cb fuel s id n).1 = 0)
    (n : ℕ) (hw : WellFormed s) (hfuel : s.count ≤ fuel + id + 1)
    (habove : ∀ j, Relation.TransGen (Rests s) id j → Agrees cb s j) :
    (cascade (capDeactivateAux cb fuel) id (List.range s.count) s n).1 = 0 := by
  refine cascade_ok (capDeactivateAux_spec fuel) (fun s' i n' hd hrests => ?_) _ n hw
    (Deactivated.refl s)
  obtain ⟨e', he', hdep⟩ := hrests.entry
  have hw' := hd.shape.wellFormed hw
  have hlt : id < i := hw'.ordered i e' he' id hdep
  have hbase := hrests.mono hd
  refine hrec n' hw' he' ?_ ((habove i (.single hbase)).of_shape hd.shape) fun j hj => ?_
  · rw [hd.shape.1]
    omega
  -- what rests on the dependent now rested on the capability before the cascade
  · have hj' : Relation.TransGen (Rests s) i j :=
      Relation.TransGen.mono (fun _ _ hr => hr.mono hd) _ _ hj
    exact (habove j (hj'.head hbase)).of_shape hd.shape

/-- A deactivation succeeds when everything that it reaches agrees. -/
theorem capDeactivateAux_ok (fuel : ℕ) (n : ℕ) (hw : WellFormed s) (he : s.entries id = some e)
    (hfuel : s.count ≤ fuel + id) (hid : Agrees cb s id)
    (habove : ∀ j, Relation.TransGen (Rests s) id j → Agrees cb s j) :
    (capDeactivateAux cb fuel s id n).1 = 0 := by
  induction fuel generalizing s id n e with
  | zero =>
    have := hw.bounded id e he
    omega
  | succ fuel ih =>
  by_cases hoff : e.state = .off
  · rw [capDeactivateAux, if_neg (not_le.mpr (hw.bounded id e he)), he]
    dsimp only
    rw [if_neg (by simp [hw.live id e he]), if_pos hoff]
  · rw [capDeactivateAux_active fuel n hw he hoff (fun hc => hc.2 ((hid e he).2 hc.1))]
    have hcascade := cascade_agrees ih n hw (by omega) habove
    generalize cascade (capDeactivateAux cb fuel) id (List.range s.count) s n = r at hcascade ⊢
    obtain ⟨rc, s₁, n₁⟩ := r
    dsimp only at hcascade ⊢
    rw [if_neg (not_not.mpr hcascade), if_neg (fun hc => hc.2 ((hid e he).1 hc.1))]

end Deactivation

end GrahaOS.NetworkInvariant
