import GrahaOS.NetworkInvariant

/-!
# Runs of the capability activation network

Every operation of the registry keeps the dependencies closed, except `cap_unregister` on a
capability whose dependents do not agree to be switched off. The first part shows that the fuel
given to the recursive functions does not matter once it is enough.
-/

namespace GrahaOS.NetworkRuns

open Runs ActivationNetwork NetworkInvariant List Option

section Fuel

variable {s s' : Can} {id fuel fuel' : ℕ} {e : CanEntry} {cb : Callbacks}

lemma activateDeps_congr {act act' : Can → ℕ → Option (ℤ × Can)} {deps : List ℕ}
    (hkeep : ∀ s d rc s', act s d = some (rc, s') → Activated s s')
    (hact : ∀ s, WellFormed s → ∀ d ∈ deps, act s d = act' s d) (hw : WellFormed s) :
    activateDeps act deps s = activateDeps act' deps s := by
  induction deps generalizing s with
  | nil => rfl
  | cons d deps ih =>
    rw [activateDeps, activateDeps, ← hact s hw d mem_cons_self]
    refine bind_congr fun ⟨rc, s₁⟩ h₁ => ?_
    have hw₁ := (hkeep s d rc s₁ h₁).shape.wellFormed hw
    dsimp only
    rw [ih (fun s hs d' hd' => hact s hs d' (mem_cons_of_mem _ hd')) hw₁]

/-- Any fuel above the index is enough for an activation. -/
theorem capActivateAux_fuel (hw : WellFormed s) (h : id < fuel) (h' : id < fuel') :
    capActivateAux cb fuel s id = capActivateAux cb fuel' s id := by
  induction fuel generalizing fuel' s id with
  | zero => omega
  | succ fuel ih =>
  obtain ⟨fuel', rfl⟩ : ∃ k, fuel' = k + 1 := ⟨fuel' - 1, by omega⟩
  rw [capActivateAux, capActivateAux]
  cases he : s.entries id with
  | none => rfl
  | some e =>
  have hstart : startCap cb (capActivateAux cb fuel) s id e =
      startCap cb (capActivateAux cb fuel') s id e := by
    rw [startCap, startCap]
    have hw₁ := (modify_spec (f := fun e => { e with state := .starting }) he
      (fun _ => rfl) (fun _ => rfl)).1.wellFormed hw
    rw [activateDeps_congr (fun s d rc s' hact => (capActivateAux_spec fuel hact).1)
      (fun s hs d hd => ih hs ?_ ?_) hw₁]
    all_goals
      have hlt := hw.ordered id e he d hd
      omega
  dsimp only
  rw [hstart]

lemma cascade_congr {inner inner' : Can → ℕ → ℕ → ℤ × Can × ℕ} (hinner : SwitchesOff inner)
    (hcongr : ∀ s i n, WellFormed s → s.count = s'.count → id < i → i < s.count →
      inner s i n = inner' s i n)
    (is : List ℕ) (n : ℕ) (hw : WellFormed s) (hcount : s.count = s'.count) :
    cascade inner id is s n = cascade inner' id is s n := by
  induction is generalizing s n with
  | nil => rfl
  | cons i is ih =>
  rw [cascade, cascade]
  cases he : s.entries i with
  | none => exact ih n hw hcount
  | some e =>
  dsimp only
  by_cases hcond : e.deleted = false ∧ (e.state = .on ∨ e.state = .starting) ∧
      id ∈ e.depIndices
  · rw [if_pos hcond, if_pos hcond, 
      ← hcongr s i n hw hcount (hw.ordered i e he id hcond.2.2) (hw.bounded i e he)]
    obtain ⟨hd, -⟩ := hinner s i n hw
    generalize inner s i n = r at hd ⊢
    obtain ⟨rc, s₁, n₁⟩ := r
    dsimp only at hd ⊢
    rw [ih n₁ (hd.shape.wellFormed hw) (hd.shape.1.trans hcount)]
  · rw [if_neg hcond, if_neg hcond, ih n hw hcount]

/-- The number of entries from the index on is enough fuel for a deactivation. -/
theorem capDeactivateAux_fuel {n : ℕ} (hw : WellFormed s) (hid : id < s.count)
    (h : s.count ≤ fuel + id) (h' : s.count ≤ fuel' + id) :
    capDeactivateAux cb fuel s id n = capDeactivateAux cb fuel' s id n := by
  induction fuel generalizing fuel' s id n with
  | zero => omega
  | succ fuel ih =>
    obtain ⟨fuel', rfl⟩ : ∃ k, fuel' = k + 1 := ⟨fuel' - 1, by omega⟩
    have hcascade : cascade (capDeactivateAux cb fuel) id (List.range s.count) s n =
        cascade (capDeactivateAux cb fuel') id (List.range s.count) s n := by
      refine cascade_congr (capDeactivateAux_spec fuel) ?_ _ n hw (rfl : s.count = s.count)
      intro s₁ i n₁ hw₁ hcount hlt hi
      exact ih hw₁ hi (by omega) (by omega)
    rw [capDeactivateAux, capDeactivateAux, hcascade]

lemma foldlM_congr {β : Type*} {f g : β → ℕ → Option β} {l : List ℕ} (b : β)
    (h : ∀ b, ∀ d ∈ l, f b d = g b d) : l.foldlM f b = l.foldlM g b := by
  induction l generalizing b with
  | nil => rfl
  | cons d l ih =>
    rw [foldlM_cons, foldlM_cons, h b d mem_cons_self]
    refine bind_congr fun b' _ => ?_
    exact ih b' fun b d' hd' => h b d' (mem_cons_of_mem _ hd')

/-- Any fuel above the index is enough for the walk of the cycle test. -/
theorem dfsWalk_fuel (hw : WellFormed s) (h : id < fuel) (h' : id < fuel') (visited : ℕ → Bool) :
    dfsWalk s fuel id visited = dfsWalk s fuel' id visited := by
  induction fuel generalizing fuel' id visited with
  | zero => omega
  | succ fuel ih =>
  obtain ⟨fuel', rfl⟩ : ∃ k, fuel' = k + 1 := ⟨fuel' - 1, by omega⟩
  rw [dfsWalk, dfsWalk]
  cases he : s.entries id with
  | none => rfl
  | some e =>
    dsimp only
    rw [foldlM_congr _ fun visited d hd => ih ?_ ?_ visited]
    all_goals
      have hlt := hw.ordered id e he d hd
      omega

end Fuel

/-- The invariant of the registry. -/
structure Sound (s : Can) : Prop where
  wellFormed : WellFormed s
  closed : Closed s

section Operations

variable {s s' : Can} {id j i : ℕ} {e : CanEntry} {cb : Callbacks} {rc : ℤ} {r : Registration}
  {allocOk : Bool} {dep : Name} {js : List ℕ} {f : CanEntry → CanEntry}

lemma sound_empty : Sound Can.empty where
  wellFormed := by constructor <;> simp [Can.empty]
  closed := by simp [Closed, stateOf, Can.empty]

lemma capActivate_sound (h : Sound s) (hact : capActivate cb s id = some (rc, s')) : Sound s' := by
  obtain ⟨ha, -⟩ := capActivateAux_spec (id + 1) hact
  exact ⟨ha.shape.wellFormed h.wellFormed, ha.closed h.closed⟩

lemma capDeactivate_deactivated (hw : WellFormed s) : Deactivated s (capDeactivate cb s id).2 := by
  rw [capDeactivate, capDeactivateCount]
  by_cases hid : s.count ≤ id
  · rw [if_pos hid]
    exact Deactivated.refl s
  · rw [if_neg hid]
    exact (capDeactivateAux_spec s.count s id 0 hw).1

lemma capDeactivate_sound (h : Sound s) : Sound (capDeactivate cb s id).2 := by
  have hd : Deactivated s (capDeactivate cb s id).2 := capDeactivate_deactivated h.wellFormed
  exact ⟨hd.shape.wellFormed h.wellFormed, hd.closed h.closed⟩

/-- A search that succeeds finds the first entry with the name, and no slot before it is freed. -/
lemma findDep_eq_some (h : findDep s dep js = some (some j)) :
    ∃ before after, js = before ++ j :: after ∧ s.entries j ≠ none ∧
      ∀ i ∈ before, s.entries i ≠ none := by
  induction js with
  | nil => cases h
  | cons i js ih =>
  rw [findDep] at h
  cases he : s.entries i with
  | none => simp [he] at h
  | some e =>
  simp only [he] at h
  split_ifs at h with hname
  · cases h
    exact ⟨[], js, rfl, by simp [he], nofun⟩
  obtain ⟨before, after, rfl, hj, hbefore⟩ := ih h
  refine ⟨i :: before, after, rfl, hj, fun k hk => ?_⟩
  rcases mem_cons.mp hk with rfl | hk
  · simp [he]
  · exact hbefore k hk

lemma findDep_mem (h : findDep s dep js = some (some j)) : j ∈ js := by
  obtain ⟨before, after, rfl, -, -⟩ := findDep_eq_some h
  exact mem_append_right before mem_cons_self

/-- What the resolution of names answers: a negative code, or indices that exist. -/
def Resolved (s : Can) : Except ℤ (List ℕ) → Prop
  | .error c => c < 0
  | .ok deps => ∀ d ∈ deps, d < s.count

lemma resolveDeps_spec {name : Name} {names : List (Option Name)} {r : Except ℤ (List ℕ)}
    (h : resolveDeps s name names = some r) : Resolved s r := by
  have hunresolved : Resolved s (.error capErrDepUnresolved) :=
    show capErrDepUnresolved < 0 by decide
  induction names generalizing r with
  | nil =>
    cases h
    exact fun d hd => absurd hd not_mem_nil
  | cons dep names ih =>
  rcases dep with _ | _ | ⟨c, cs⟩
  · exact Option.some.inj h ▸ hunresolved
  · exact Option.some.inj h ▸ hunresolved
  simp only [resolveDeps] at h
  split_ifs at h with hself
  · cases h
    exact show capErrDepSelf < 0 by decide
  obtain ⟨_ | j, hfound, hrest⟩ := bind_eq_some_iff.mp h
  · exact Option.some.inj hrest ▸ hunresolved
  obtain ⟨r', hr', rfl⟩ := map_eq_some_iff.mp hrest
  have hr := ih hr'
  cases r' with
  | error c' => exact hr
  | ok deps' =>
    intro d hd
    rcases mem_cons.mp hd with rfl | hd
    · exact mem_range.mp (findDep_mem hfound)
    · exact hr d hd

/-- A registration that fails leaves the registry as it is, but for the slot behind the last entry.
One that succeeds adds an entry there, under a name that no entry has. -/
lemma capRegister_cases (h : capRegister s r allocOk = some (rc, s')) :
    (rc < 0 ∧ (s' = s ∨ s' = s.set s.count none)) ∨
      ∃ name deps, r.name = some name ∧ name ≠ [] ∧ s.hasName name = false ∧
        resolveDeps s name r.deps = some (.ok deps) ∧
        (r.type = capHardware → r.deps = []) ∧ rc = s.count ∧
        s' = { s.set s.count (some (r.entry name deps)) with count := s.count + 1 } := by
  have hsame : ∀ {c : ℤ}, c < 0 → some (c, s) = some (rc, s') →
      rc < 0 ∧ (s' = s ∨ s' = s.set s.count none) := by
    intro c hneg hc
    cases hc
    exact ⟨hneg, .inl rfl⟩
  rw [capRegister] at h
  split at h
  · exact .inl (hsame (by decide) h)
  · exact .inl (hsame (by decide) h)
  rename_i name hcons hname
  by_cases hdup : s.hasName name
  · rw [if_pos hdup] at h
    exact .inl (hsame (by decide) h)
  by_cases hfull : maxCapabilities ≤ s.count
  · rw [if_neg hdup, if_pos hfull] at h
    exact .inl (hsame (by decide) h)
  by_cases hhw : r.type = capHardware ∧ r.deps ≠ []
  · rw [if_neg hdup, if_neg hfull, if_pos hhw] at h
    exact .inl (hsame (by decide) h)
  rw [if_neg hdup, if_neg hfull, if_neg hhw] at h
  obtain ⟨res, hres, hrest⟩ := bind_eq_some_iff.mp h
  cases res with
  | error c => exact .inl (hsame (resolveDeps_spec hres) hrest)
  | ok deps =>
  dsimp only at hrest
  by_cases hlayer :
      !deps.all fun d => (s.entries d).all fun e => layerAllowsDep r.type e.type
  · rw [if_pos hlayer] at hrest
    exact .inl (hsame (by decide) hrest)
  rw [if_neg hlayer] at hrest
  obtain ⟨visited, -, hcommit⟩ := bind_eq_some_iff.mp hrest
  split_ifs at hcommit
  · exact .inl (hsame (by decide) hcommit)
  · cases hcommit
    exact .inl ⟨by decide, .inr rfl⟩
  · cases hcommit
    refine .inr ⟨name, deps, hname, hcons, by simpa using hdup, hres, fun htype => ?_, rfl, rfl⟩
    by_contra hne
    exact hhw ⟨htype, hne⟩

lemma set_count_none (hw : WellFormed s) : s.set s.count none = s := by
  have hnone : s.entries s.count = none := by
    cases he : s.entries s.count with
    | none => rfl
    | some e => exact absurd (hw.bounded _ e he) (lt_irrefl _)
  rw [Can.set, ← hnone, Function.update_eq_self]

lemma entries_of_append {e' : CanEntry}
    (h : ({ s.set s.count (some e) with count := s.count + 1 } : Can).entries i = some e') :
    (i = s.count ∧ e = e') ∨ (i ≠ s.count ∧ s.entries i = some e') := by
  by_cases hi : i = s.count
  · rw [hi, Can.set_self] at h
    exact .inl ⟨hi, Option.some.inj h⟩
  · rw [Can.set_of_ne hi] at h
    exact .inr ⟨hi, h⟩

lemma wellFormed_append (h : WellFormed s) (hlive : e.deleted = false)
    (hdeps : ∀ d ∈ e.depIndices, d < s.count) :
    WellFormed { s.set s.count (some e) with count := s.count + 1 } where
  bounded i e' he' := by
    change i < s.count + 1
    rcases entries_of_append he' with ⟨rfl, -⟩ | ⟨-, hold⟩
    · omega
    · exact (h.bounded i e' hold).trans (by omega)
  live i e' he' := by
    rcases entries_of_append he' with ⟨-, rfl⟩ | ⟨-, hold⟩
    · exact hlive
    · exact h.live i e' hold
  ordered i e' he' := by
    rcases entries_of_append he' with ⟨rfl, rfl⟩ | ⟨-, hold⟩
    · exact hdeps
    · exact h.ordered i e' hold

lemma sound_append (h : Sound s) (hlive : e.deleted = false)
    (hdeps : ∀ d ∈ e.depIndices, d < s.count) (hon : e.state = .on → e.depIndices = []) :
    Sound { s.set s.count (some e) with count := s.count + 1 } := by
  refine ⟨wellFormed_append h.wellFormed hlive hdeps, fun i hi d hd => ?_⟩
  obtain ⟨e', he', hstate⟩ := map_eq_some_iff.mp hi
  rw [depsOf_eq he'] at hd
  rcases entries_of_append he' with ⟨-, rfl⟩ | ⟨hic, hold⟩
  · rw [hon hstate] at hd
    exact absurd hd not_mem_nil
  have hdon := h.closed i (by rw [stateOf_eq hold, hstate]) d (by rwa [depsOf_eq hold])
  obtain ⟨e₁, he₁, -⟩ := map_eq_some_iff.mp hdon
  have hlt := h.wellFormed.bounded d e₁ he₁
  change ((s.set s.count (some e)).entries d).map CanEntry.state = _
  rw [Can.set_of_ne (by omega)]
  exact hdon

lemma capRegister_wellFormed (h : WellFormed s) (hreg : capRegister s r allocOk = some (rc, s')) :
    WellFormed s' := by
  rcases capRegister_cases hreg with ⟨-, rfl | rfl⟩ | ⟨name, deps, -, -, -, hres, -, -, rfl⟩
  · exact h
  · rwa [set_count_none h]
  · exact wellFormed_append h rfl (resolveDeps_spec hres)

lemma capRegister_sound (h : Sound s) (hreg : capRegister s r allocOk = some (rc, s')) :
    Sound s' := by
  rcases capRegister_cases hreg with ⟨-, rfl | rfl⟩ | ⟨name, deps, -, -, -, hres, hhw, -, rfl⟩
  · exact h
  · rwa [set_count_none h.wellFormed]
  refine sound_append h rfl (resolveDeps_spec hres) fun hon => ?_
  have htype : r.type = capHardware := by
    by_contra hne
    simp [Registration.entry, hne] at hon
  -- a hardware capability is born on, and has no dependencies
  rw [hhw htype] at hres
  cases hres
  rfl

lemma wellFormed_modify (hdeps : ∀ e, (f e).depIndices = e.depIndices)
    (hlive : ∀ e, (f e).deleted = e.deleted) (h : WellFormed s) : WellFormed (s.modify id f) := by
  have hfrom : ∀ i e', (s.modify id f).entries i = some e' → ∃ e, s.entries i = some e ∧
      e'.depIndices = e.depIndices ∧ e'.deleted = e.deleted := by
    intro i e' he'
    by_cases hi : i = id
    · rw [hi, Can.modify_self] at he'
      obtain ⟨e, he, rfl⟩ := map_eq_some_iff.mp he'
      exact ⟨e, hi ▸ he, hdeps e, hlive e⟩
    · rw [Can.modify_of_ne hi] at he'
      exact ⟨e', he', rfl, rfl⟩
  refine ⟨fun i e' he' => ?_, fun i e' he' => ?_, fun i e' he' => ?_⟩
  · obtain ⟨e, he, -⟩ := hfrom i e' he'
    exact h.bounded i e he
  · obtain ⟨e, he, -, hdel⟩ := hfrom i e' he'
    exact hdel.trans (h.live i e he)
  · obtain ⟨e, he, hdep, -⟩ := hfrom i e' he'
    rw [hdep]
    exact h.ordered i e he

lemma sound_modify (hdeps : ∀ e, (f e).depIndices = e.depIndices)
    (hlive : ∀ e, (f e).deleted = e.deleted) (hstate : ∀ e, (f e).state = e.state) (h : Sound s) :
    Sound (s.modify id f) := by
  have hstates : ∀ i, stateOf (s.modify id f) i = stateOf s i := by
    intro i
    by_cases hi : i = id
    · cases he : s.entries id <;> simp [stateOf, hi, he, hstate]
    · rw [stateOf, Can.modify_of_ne hi, stateOf]
  have hdepsOf : ∀ i, depsOf (s.modify id f) i = depsOf s i := by
    intro i
    by_cases hi : i = id
    · cases he : s.entries id <;> simp [depsOf, hi, he, hdeps]
    · rw [depsOf, Can.modify_of_ne hi, depsOf]
  refine ⟨wellFormed_modify hdeps hlive h.wellFormed, fun i hi d hd => ?_⟩
  rw [hstates] at hi ⊢
  rw [hdepsOf] at hd
  exact h.closed i hi d hd

lemma capSetRefuseHook_cases (s : Can) (id : ℕ) (fn : Bool) :
    (capSetRefuseHook s id fn).2 = s ∨
      (capSetRefuseHook s id fn).2 = s.modify id fun e => { e with refuseDeactivateFn := fn } := by
  rw [capSetRefuseHook]
  cases he : s.entries id with
  | none =>
    split_ifs <;> exact .inl rfl
  | some e =>
    dsimp only
    split_ifs
    · exact .inl rfl
    · exact .inl rfl
    · exact .inr rfl

lemma capSetRefuseHook_sound (fn : Bool) (h : Sound s) : Sound (capSetRefuseHook s id fn).2 := by
  rcases capSetRefuseHook_cases s id fn with hsame | hset
  · rwa [hsame]
  · rw [hset]
    exact sound_modify (fun _ => rfl) (fun _ => rfl) (fun _ => rfl) h

lemma entries_of_remove (he : (s.set id none).entries i = some e) :
    i ≠ id ∧ s.entries i = some e := by
  by_cases hi : i = id
  · rw [hi, Can.set_self] at he
    cases he
  · rw [Can.set_of_ne hi] at he
    exact ⟨hi, he⟩

lemma wellFormed_remove (h : WellFormed s) : WellFormed (s.set id none) where
  bounded i e he := h.bounded i e (entries_of_remove he).2
  live i e he := h.live i e (entries_of_remove he).2
  ordered i e he := h.ordered i e (entries_of_remove he).2

lemma sound_remove (h : Sound s) (hno : Undepended s id) : Sound (s.set id none) := by
  refine ⟨wellFormed_remove h.wellFormed, fun i hi d hd => ?_⟩
  obtain ⟨e, he, hon⟩ := map_eq_some_iff.mp hi
  obtain ⟨-, he'⟩ := entries_of_remove he
  have hi' : stateOf s i = some .on := by rw [stateOf_eq he', hon]
  have hd' : d ∈ depsOf s i := by rwa [depsOf_eq he, ← depsOf_eq he'] at hd
  have hdid : d ≠ id := fun hd => hno i (hd ▸ hd') hi'
  rw [stateOf, Can.set_of_ne hdid]
  exact h.closed i hi' d hd'

/-- After the deactivation in `cap_unregister` nothing that is on depends on the entry. The
callback of the entry itself may fail: its dependents are off by then. -/
lemma capDeactivate_undepended (hw : WellFormed s) (he : s.entries id = some e)
    (hoff : e.state ≠ .off) (hwill : Willing cb s id) :
    Undepended (capDeactivate cb s id).2 id := by
  by_cases hrests : ∃ j, Rests s id j
  swap
  · intro i hdep hi
    exact hrests ⟨i, Rests.mono (capDeactivate_deactivated hw) ⟨hdep, .inl hi⟩⟩
  have hid := hw.bounded id e he
  obtain ⟨fuel, hfuel⟩ : ∃ k, s.count = k + 1 := ⟨s.count - 1, by omega⟩
  rw [capDeactivate, capDeactivateCount, if_neg (not_le.mpr hid), hfuel,
    capDeactivateAux_active fuel 0 hw he hoff fun hc => hc.2 (hwill.1 e he hrests hc.1)]
  have hcascade := cascade_agrees (capDeactivateAux_ok fuel) 0 hw
    (show s.count ≤ fuel + id + 1 by omega) hwill.2
  have hundep := cascade_undepended (capDeactivateAux_spec fuel) id 0 hw hcascade
  obtain ⟨hd, -⟩ := cascade_spec (@capDeactivateAux_spec cb fuel) id (List.range s.count) 0 hw
  generalize cascade (capDeactivateAux cb fuel) id (List.range s.count) s 0 = r
    at hcascade hundep hd ⊢
  obtain ⟨rc, s₁, n₁⟩ := r
  dsimp only at hcascade hundep hd ⊢
  rw [if_neg (not_not.mpr hcascade)]
  split_ifs
  · exact hundep
  obtain ⟨e₁, he₁, -⟩ := hd.shape.symm.entry he
  obtain ⟨hshape, hstate⟩ := modify_spec (f := fun e => { e with state := .off }) he₁
    (fun _ => rfl) (fun _ => rfl)
  exact hundep.of_off hshape hstate (by simp)

/-- `cap_unregister` refuses, or frees the entry of a capability of a user, which it deactivates
before if it is active. -/
lemma capUnregister_cases (h : capUnregister cb s id = some (rc, s')) :
    (rc < 0 ∧ s' = s) ∨
      ∃ e, s.entries id = some e ∧ capApplication ≤ e.type ∧ rc = 0 ∧
        s' = (if e.state = .on ∨ e.state = .starting then (capDeactivate cb s id).2 else s).set
          id none := by
  rw [capUnregister] at h
  by_cases hid : s.count ≤ id
  · rw [if_pos hid] at h
    cases h
    exact .inl ⟨by decide, rfl⟩
  rw [if_neg hid] at h
  cases he : s.entries id with
  | none => simp [he] at h
  | some e =>
  simp only [he] at h
  split_ifs at h with hdel htype
  · cases h
    exact .inl ⟨by decide, rfl⟩
  · cases h
    exact .inl ⟨by decide, rfl⟩
  all_goals
    cases h
    exact .inr ⟨e, rfl, not_lt.mp htype, rfl, by simp [*]⟩

lemma capUnregister_sound (h : Sound s)
    (hwill : ∀ e, s.entries id = some e → capApplication ≤ e.type →
      e.state = .on ∨ e.state = .starting → Willing cb s id)
    (hunreg : capUnregister cb s id = some (rc, s')) : Sound s' := by
  rcases capUnregister_cases hunreg with ⟨-, rfl⟩ | ⟨e, he, htype, -, rfl⟩
  · exact h
  by_cases hon : e.state = .on ∨ e.state = .starting
  · rw [if_pos hon]
    refine sound_remove (capDeactivate_sound h)
      (capDeactivate_undepended h.wellFormed he ?_ (hwill e he htype hon))
    rcases hon with hst | hst <;> simp [hst]
  · rw [if_neg hon]
    refine sound_remove h fun i hdep hi => hon (.inl ?_)
    exact Option.some.inj ((stateOf_eq he).symm.trans (h.closed i hi id hdep))

end Operations

/-- The operations on the registry. Each comes with the answers of the callbacks. -/
inductive CanOp where
  | register (r : Registration) (allocOk : Bool)
  | activate (cb : Callbacks) (id : ℕ)
  | deactivate (cb : Callbacks) (id : ℕ)
  | unregister (cb : Callbacks) (id : ℕ)
  | setRefuseHook (id : ℕ) (fn : Bool)

/-- One operation. There is no state after a fault of the kernel. -/
def step (s : Option Can) (op : CanOp) : Option Can :=
  s.bind fun s =>
    match op with
    | .register r allocOk => (capRegister s r allocOk).map Prod.snd
    | .activate cb id => (capActivate cb s id).map Prod.snd
    | .deactivate cb id => some (capDeactivate cb s id).2
    | .unregister cb id => (capUnregister cb s id).map Prod.snd
    | .setRefuseHook id fn => some (capSetRefuseHook s id fn).2

/-- An active capability that `cap_unregister` takes away has willing dependents. -/
def Careful (s : Option Can) : CanOp → Prop
  | .unregister cb id => ∀ s₁ ∈ s, ∀ e, s₁.entries id = some e → capApplication ≤ e.type →
      e.state = .on ∨ e.state = .starting → Willing cb s₁ id
  | _ => True

lemma run_keeps {Inv : Can → Prop} {ok : Option Can → CanOp → Prop} {ops : List CanOp}
    (hempty : Inv Can.empty)
    (hstep : ∀ {s s' : Can} {op : CanOp}, Inv s → ok (some s) op → step (some s) op = some s' →
      Inv s')
    (hops : Guarded step ok (some Can.empty) ops) : ∀ s ∈ run step (some Can.empty) ops, Inv s := by
  refine invariant_run (fun s => ∀ s₁ ∈ s, Inv s₁) (fun s op h hop s' hs' => ?_) (fun s hs => ?_) hops
  · cases s with
    | none => cases hs'
    | some s => exact hstep (h s rfl) hop hs'
  · cases hs
    exact hempty

lemma step_sound {s s' : Can} {op : CanOp} (hsound : Sound s) (hop : Careful (some s) op)
    (hstep : step (some s) op = some s') : Sound s' := by
  cases op with
  | register r allocOk =>
    obtain ⟨⟨rc, s₂⟩, hreg, rfl⟩ := map_eq_some_iff.mp hstep
    exact capRegister_sound hsound hreg
  | activate cb id =>
    obtain ⟨⟨rc, s₂⟩, hact, rfl⟩ := map_eq_some_iff.mp hstep
    exact capActivate_sound hsound hact
  | deactivate cb id =>
    cases hstep
    exact capDeactivate_sound hsound
  | unregister cb id =>
    obtain ⟨⟨rc, s₂⟩, hunreg, rfl⟩ := map_eq_some_iff.mp hstep
    exact capUnregister_sound hsound (hop s rfl) hunreg
  | setRefuseHook id fn =>
    cases hstep
    exact capSetRefuseHook_sound fn hsound

lemma run_sound {ops : List CanOp} (hops : Guarded step Careful (some Can.empty) ops) :
    ∀ s ∈ run step (some Can.empty) ops, Sound s := run_keeps sound_empty step_sound hops

/-- In every registry that is reached, the dependencies of a capability that is on are
registered and on. -/
theorem active_deps_are_active {ops : List CanOp} (hops : Guarded step Careful (some Can.empty) ops)
    {s : Can} (hs : run step (some Can.empty) ops = some s) {i : ℕ} {e : CanEntry}
    (he : s.entries i = some e) (hon : e.state = .on) :
    ∀ d ∈ e.depIndices, ∃ e', s.entries d = some e' ∧ e'.deleted = false ∧ e'.state = .on := by
  have hsound := run_sound hops s hs
  intro d hd
  have hdon : stateOf s d = some .on :=
    hsound.closed i (by rw [stateOf_eq he, hon]) d (by rwa [depsOf_eq he])
  obtain ⟨e', he', hstate⟩ := Option.map_eq_some_iff.mp hdon
  exact ⟨e', he', hsound.wellFormed.live d e' he', hstate⟩

/-- The callbacks all succeed. -/
def succeeding : Callbacks := ⟨fun _ => 0, fun _ => 0, fun _ => 0⟩

/-- The callbacks for deactivation fail. -/
def failing : Callbacks := ⟨fun _ => 0, fun _ => -1, fun _ => 0⟩

/-- An application without dependencies. -/
def editor : Registration := ⟨some "editor".toList, capApplication, [], 0, false, false⟩

/-- A feature of the application, with a deactivation callback. -/
def spelling : Registration :=
  ⟨some "spelling".toList, capFeature, [some "editor".toList], 1, false, true⟩

/-- A second feature of the application. -/
def outline : Registration :=
  ⟨some "outline".toList, capFeature, [some "editor".toList], 1, false, true⟩

/-- Two features are switched on, and the one registered last is taken away. -/
def featureOps : List CanOp :=
  [.register editor true, .register spelling true, .register outline true,
    .activate succeeding 1, .activate succeeding 2]

lemma willing_last {s : Can} {id : ℕ} {cb : Callbacks} (hw : WellFormed s)
    (hid : s.count ≤ id + 1) : Willing cb s id := by
  have hnone : ∀ j, ¬ Rests s id j := by
    intro j hj
    obtain ⟨e, he, hdep⟩ := hj.entry
    have hlt := hw.ordered j e he id hdep
    have hbound := hw.bounded j e he
    omega
  refine ⟨fun e he ⟨j, hj⟩ => absurd hj (hnone j), fun j hj => ?_⟩
  obtain ⟨k, hk, -⟩ := Relation.TransGen.head'_iff.mp hj
  exact absurd hk (hnone k)

lemma featureOps_guarded :
    Guarded step Careful (some Can.empty) (featureOps ++ [.unregister failing 2]) := by
  have hfeatures : Guarded step Careful (some Can.empty) featureOps :=
    ⟨trivial, trivial, trivial, trivial, trivial, trivial⟩
  refine (guarded_append step Careful).mpr ⟨hfeatures, fun s hs e he _ _ => ?_, trivial⟩
  refine willing_last (run_sound hfeatures s hs).wellFormed ?_
  have hcount : (run step (some Can.empty) featureOps).map Can.count = some 3 := by decide
  rw [mem_def.mp hs] at hcount
  exact (Option.some.inj hcount).le

/-- The last feature goes, also when its own callback fails; the other one is on, and so is the
application. -/
theorem feature_keeps_its_application :
    ∃ s e, run step (some Can.empty) (featureOps ++ [.unregister failing 2]) = some s ∧
      s.entries 2 = none ∧ s.entries 1 = some e ∧ e.state = .on ∧ e.depIndices = [0] ∧
      ∃ e', s.entries 0 = some e' ∧ e'.deleted = false ∧ e'.state = .on := by
  obtain ⟨s, hs⟩ := Option.isSome_iff_exists.mp (show (run step (some Can.empty)
    (featureOps ++ [.unregister failing 2])).isSome by decide)
  have hgone : (run step (some Can.empty) (featureOps ++ [.unregister failing 2])).map
      (fun s => s.entries 2) = some none := by decide
  have hentry : (run step (some Can.empty) (featureOps ++ [.unregister failing 2])).bind
      (fun s => s.entries 1) =
      some { spelling.entry "spelling".toList [0] with state := .on, activationCount := 1 } := by
    decide
  rw [hs] at hgone hentry
  refine ⟨s, _, hs, Option.some.inj hgone, hentry, rfl, rfl, ?_⟩
  exact active_deps_are_active featureOps_guarded hs hentry rfl 0 List.mem_cons_self

/-- The callback of a dependent fails during `cap_unregister`: the application is removed, and
the feature that depends on it stays on. -/
theorem feature_outlives_its_application :
    ∃ s e, run step (some Can.empty)
        [.register editor true, .register spelling true, .activate succeeding 1,
          .unregister failing 0] = some s ∧
      s.entries 1 = some e ∧ e.state = .on ∧ 0 ∈ e.depIndices ∧ s.entries 0 = none := by
  refine ⟨_, _, rfl, rfl, rfl, by decide, rfl⟩

end GrahaOS.NetworkRuns
