import GrahaOS.DeactivationCount

/-!
# The order of activation

`cap_activate` is run with a log of the callbacks that it calls, each with the registry at that
moment, and of the results of all its calls. In a registry to which capabilities have only been
added, a capability depends on smaller indices, so the recursion ends and no call reports a cycle.
-/

namespace GrahaOS.ActivationOrder

open Runs ActivationNetwork NetworkInvariant NetworkRuns DeactivationCount List

/-- The activation callback of a capability is called, or a call of `cap_activate` returns. -/
inductive Event where
  | callback (id : ℕ) (s : Can)
  | returned (id : ℕ) (rc : ℤ)

/-- `activateDeps` with a log. -/
def activateDepsLogged (activate : Can → ℕ → Option (ℤ × Can × List Event)) :
    List ℕ → Can → Option (Option ℕ × Can × List Event)
  | [], s => some (none, s, [])
  | d :: deps, s => (activate s d).bind fun (rc, s, log) =>
    if rc ≠ 0 then some (some d, s, log) else
    (activateDepsLogged activate deps s).map fun (failed, s, log') => (failed, s, log ++ log')

/-- `startCap` with a log. -/
def startCapLogged (cb : Callbacks) (activate : Can → ℕ → Option (ℤ × Can × List Event)) (s : Can)
    (id : ℕ) (e : CanEntry) : Option (ℤ × Can × List Event) :=
  (activateDepsLogged activate e.depIndices
    (s.modify id fun e => { e with state := .starting })).bind fun
  | (some d, s, log) =>
    some (capErrDepFailed, s.modify id fun e => { e with state := .error, errorDep := d }, log)
  | (none, s, log) =>
    let log := if e.activateFn then log ++ [.callback id s] else log
    if e.activateFn ∧ cb.activate id ≠ 0 then
      some (capErrActivateFail, s.modify id fun e => { e with state := .error }, log)
    else
      some (0, s.modify id fun e =>
        { e with state := .on, activationCount := e.activationCount + 1 }, log)

/-- `capActivateAux` with a log. -/
def activateLogged (cb : Callbacks) : ℕ → Can → ℕ → Option (ℤ × Can × List Event)
  | 0, s, id => some (capErrCycle, s, [.returned id capErrCycle])
  | fuel + 1, s, id =>
    (if s.count ≤ id then some (capErrNotFound, s, []) else
    match s.entries id with
    | none => none
    | some e =>
      if e.deleted then some (capErrDeleted, s, []) else
      if e.state = .on then some (0, s, []) else
      if e.state = .starting then some (capErrCycle, s, []) else
      startCapLogged cb (activateLogged cb fuel) s id e).map
    fun (rc, s, log) => (rc, s, log ++ [.returned id rc])

/-- A result without its log. -/
def unlogged {α : Type*} (r : α × Can × List Event) : α × Can := (r.1, r.2.1)

section Unlogged

variable {cb : Callbacks} {s : Can} {actLogged : Can → ℕ → Option (ℤ × Can × List Event)}

lemma activateDepsLogged_unlogged {act : Can → ℕ → Option (ℤ × Can)}
    (h : ∀ s d, (actLogged s d).map unlogged = act s d) (deps : List ℕ) :
    (activateDepsLogged actLogged deps s).map unlogged = activateDeps act deps s := by
  induction deps generalizing s with
  | nil => rfl
  | cons d deps ih =>
  rw [activateDepsLogged, activateDeps, ← h s d]
  cases actLogged s d with
  | none => rfl
  | some r =>
    obtain ⟨rc, s₁, log⟩ := r
    simp only [Option.bind_some, Option.map_some, unlogged]
    split_ifs with hrc
    · rfl
    · rw [Option.map_map, ← ih]
      rfl

lemma startCapLogged_unlogged {act : Can → ℕ → Option (ℤ × Can)}
    (h : ∀ s d, (actLogged s d).map unlogged = act s d) (id : ℕ) (e : CanEntry) :
    (startCapLogged cb actLogged s id e).map unlogged = startCap cb act s id e := by
  rw [startCapLogged, startCap, ← activateDepsLogged_unlogged h]
  cases activateDepsLogged actLogged e.depIndices
      (s.modify id fun e => { e with state := .starting }) with
  | none => rfl
  | some r =>
    obtain ⟨_ | d, s₁, log⟩ := r
    · simp only [Option.bind_some, Option.map_some, unlogged]
      split_ifs <;> rfl
    · rfl

theorem activateLogged_unlogged (fuel : ℕ) (s : Can) (id : ℕ) :
    (activateLogged cb fuel s id).map unlogged = capActivateAux cb fuel s id := by
  induction fuel generalizing s id with
  | zero => rfl
  | succ fuel ih =>
  rw [activateLogged, capActivateAux, Option.map_map]
  split_ifs with hcount
  · rfl
  cases s.entries id with
  | none => rfl
  | some e =>
    dsimp only
    split_ifs
    · rfl
    · rfl
    · rfl
    · exact startCapLogged_unlogged ih id e

end Unlogged

/-- The capability `i` declares the dependency `j`. -/
def DependsOn (s : Can) (i j : ℕ) : Prop := j ∈ depsOf s i

/-- No call reports a cycle, and callbacks are called when the dependencies are on. -/
structure OrderlyLog (log : List Event) : Prop where
  noCycle : ∀ j, .returned j capErrCycle ∉ log
  ordered : ∀ j s, .callback j s ∈ log → ∀ d ∈ depsOf s j, stateOf s d = some .on

/-- What a call of `cap_activate` needs: its target and what it depends on are not on their way. -/
structure Startable (s : Can) (id : ℕ) : Prop where
  wellFormed : WellFormed s
  noFreed : NoFreed s
  settled : ∀ j ≤ id, stateOf s j ≠ some .starting

/-- What a call of `cap_activate` does. -/
structure Orderly (s : Can) (id : ℕ) (r : ℤ × Can × List Event) : Prop where
  log : OrderlyLog r.2.2
  activated : Activated s r.2.1
  on : r.1 = 0 → stateOf r.2.1 id = some .on
  only : ∀ j, r.2.1.entries j ≠ s.entries j → Relation.ReflTransGen (DependsOn s) id j

section Orderly

variable {s s' : Can} {id : ℕ} {e : CanEntry} {cb : Callbacks}

lemma dependsOn_congr (h : SameShape s s') : DependsOn s' = DependsOn s := by
  funext i j
  rw [DependsOn, DependsOn, h.deps]

lemma OrderlyLog.nil : OrderlyLog [] := ⟨nofun, nofun⟩

lemma OrderlyLog.append {log log' : List Event} (h : OrderlyLog log) (h' : OrderlyLog log') :
    OrderlyLog (log ++ log') where
  noCycle j hj := (mem_append.mp hj).elim (h.noCycle j) (h'.noCycle j)
  ordered j s hj := (mem_append.mp hj).elim (h.ordered j s) (h'.ordered j s)

lemma OrderlyLog.returned {rc : ℤ} (hrc : rc ≠ capErrCycle) (id : ℕ) :
    OrderlyLog [.returned id rc] where
  noCycle j hj := by
    obtain ⟨-, heq⟩ := Event.returned.inj (mem_singleton.mp hj)
    exact hrc heq.symm
  ordered j s hj := by cases mem_singleton.mp hj

lemma OrderlyLog.callback (h : ∀ d ∈ depsOf s id, stateOf s d = some .on) :
    OrderlyLog [.callback id s] where
  noCycle j hj := by cases mem_singleton.mp hj
  ordered j s₁ hj := by
    obtain ⟨rfl, rfl⟩ := Event.callback.inj (mem_singleton.mp hj)
    exact h

lemma noFreed_congr (h : SameShape s s') (hno : NoFreed s) : NoFreed s' :=
  noFreed_of_shape h.symm hno

lemma activateDepsLogged_orderly {act : Can → ℕ → Option (ℤ × Can × List Event)}
    (hact : ∀ s d, d < id → Startable s d → ∃ r, act s d = some r ∧ Orderly s d r)
    {deps : List ℕ} (hdeps : ∀ d ∈ deps, d < id) (hw : WellFormed s) (hno : NoFreed s)
    (hset : ∀ j < id, stateOf s j ≠ some .starting) :
    ∃ failed s' log, activateDepsLogged act deps s = some (failed, s', log) ∧ OrderlyLog log ∧
      Activated s s' ∧ (failed = none → ∀ d ∈ deps, stateOf s' d = some .on) ∧
      ∀ j, s'.entries j ≠ s.entries j → ∃ d ∈ deps, Relation.ReflTransGen (DependsOn s) d j := by
  induction deps generalizing s with
  | nil => exact ⟨none, s, [], rfl, .nil, .refl s, fun _ => nofun, fun j hj => absurd rfl hj⟩
  | cons d deps ih =>
  have hlt := hdeps d mem_cons_self
  obtain ⟨⟨rc, s₁, log⟩, hd, hlog, ha, hon, honly⟩ :=
    hact s d hlt ⟨hw, hno, fun j hj => hset j (hj.trans_lt hlt)⟩
  dsimp only at hlog ha hon honly
  rw [activateDepsLogged, hd]
  simp only [Option.bind_some]
  by_cases hrc : rc = 0
  · rw [if_neg (not_not.mpr hrc)]
    obtain ⟨failed, s₂, log₂, hrest, hlog₂, ha₂, hall, honly₂⟩ := ih
      (fun d' hd' => hdeps d' (mem_cons_of_mem _ hd')) (ha.shape.wellFormed hw)
      (noFreed_congr ha.shape hno) (fun j hj hst => hset j hj ((ha.starting j).mp hst))
    refine ⟨failed, s₂, log ++ log₂, by rw [hrest]; rfl, hlog.append hlog₂, ha.trans ha₂, ?_, ?_⟩
    · intro hnone d' hd'
      rcases mem_cons.mp hd' with rfl | hd'
      · exact ha₂.on d' (hon hrc)
      · exact hall hnone d' hd'
    · intro j hj
      by_cases hmid : s₁.entries j = s.entries j
      · obtain ⟨d', hd', hreach⟩ := honly₂ j (hmid ▸ hj)
        rw [dependsOn_congr ha.shape] at hreach
        exact ⟨d', mem_cons_of_mem _ hd', hreach⟩
      · exact ⟨d, mem_cons_self, honly j hmid⟩
  · rw [if_pos hrc]
    exact ⟨some d, s₁, log, rfl, hlog, ha, nofun, fun j hj =>
      ⟨d, mem_cons_self, honly j hj⟩⟩

lemma startCapLogged_orderly (cb : Callbacks) {act : Can → ℕ → Option (ℤ × Can × List Event)}
    (hact : ∀ s d, d < id → Startable s d → ∃ r, act s d = some r ∧ Orderly s d r)
    (h : Startable s id) (he : s.entries id = some e) :
    ∃ rc s' log, startCapLogged cb act s id e = some (rc, s', log) ∧ OrderlyLog log ∧
      rc ≠ capErrCycle ∧
      ∀ j, s'.entries j ≠ s.entries j → Relation.ReflTransGen (DependsOn s) id j := by
  obtain ⟨hshape₁, hstate₁⟩ := modify_spec (f := fun e => { e with state := .starting }) he
    (fun _ => rfl) (fun _ => rfl)
  have hset : ∀ j < id, stateOf (s.modify id fun e => { e with state := .starting }) j ≠
      some .starting := by
    intro j hj
    rw [hstate₁, Function.update_of_ne hj.ne]
    exact h.settled j hj.le
  obtain ⟨failed, s₂, log, hloop, hlog, ha, hall, honly⟩ := activateDepsLogged_orderly hact
    (h.wellFormed.ordered id e he) (hshape₁.wellFormed h.wellFormed)
    (noFreed_congr hshape₁ h.noFreed) hset
  have hdeps : depsOf s₂ id = e.depIndices := by
    rw [ha.shape.deps, hshape₁.deps, depsOf_eq he]
  -- what the loop has changed, and the capability itself
  have hchanged : ∀ (f : CanEntry → CanEntry) j, (s₂.modify id f).entries j ≠ s.entries j →
      Relation.ReflTransGen (DependsOn s) id j := by
    intro f j hj
    by_cases hji : j = id
    · rw [hji]
    rw [Can.modify_of_ne hji] at hj
    have hj₁ : s₂.entries j ≠ (s.modify id fun e => { e with state := .starting }).entries j := by
      rwa [Can.modify_of_ne hji]
    obtain ⟨d, hd, hreach⟩ := honly j hj₁
    rw [dependsOn_congr hshape₁] at hreach
    exact hreach.head (by rw [DependsOn, depsOf_eq he]; exact hd)
  rw [startCapLogged, hloop]
  cases failed with
  | some d => exact ⟨_, _, log, rfl, hlog, by decide, hchanged _⟩
  | none =>
  have hcalled : OrderlyLog (if e.activateFn then log ++ [.callback id s₂] else log) := by
    split_ifs
    · refine hlog.append (.callback fun d hd => hall rfl d ?_)
      rwa [← hdeps]
    · exact hlog
  simp only [Option.bind_some]
  by_cases hcb : e.activateFn ∧ cb.activate id ≠ 0
  · rw [if_pos hcb]
    exact ⟨_, _, _, rfl, hcalled, by decide, hchanged _⟩
  · rw [if_neg hcb]
    exact ⟨_, _, _, rfl, hcalled, by decide, hchanged _⟩

/-- An activation ends in order, with any fuel above the index. -/
theorem activateLogged_orderly (cb : Callbacks) (fuel : ℕ) (hfuel : id < fuel)
    (h : Startable s id) :
    ∃ r, activateLogged cb fuel s id = some r ∧ Orderly s id r ∧
      Event.returned id r.1 ∈ r.2.2 := by
  induction fuel generalizing s id with
  | zero => omega
  | succ fuel ih =>
  -- it is enough to know the log and the changes: the rest is known of `capActivateAux`
  suffices hbody : ∃ rc s' log, activateLogged cb (fuel + 1) s id =
      some (rc, s', log ++ [.returned id rc]) ∧ OrderlyLog log ∧ rc ≠ capErrCycle ∧
      ∀ j, s'.entries j ≠ s.entries j → Relation.ReflTransGen (DependsOn s) id j by
    obtain ⟨rc, s', log, hres, hlog, hrc, honly⟩ := hbody
    have hplain : capActivateAux cb (fuel + 1) s id = some (rc, s') := by
      rw [← activateLogged_unlogged, hres]
      rfl
    obtain ⟨ha, hon⟩ := capActivateAux_spec (fuel + 1) hplain
    refine ⟨_, hres, ⟨hlog.append (.returned hrc id), ha, hon, honly⟩, ?_⟩
    exact mem_append_right _ (mem_singleton_self _)
  have hsame : ∀ c : ℤ, c ≠ capErrCycle → (activateLogged cb (fuel + 1) s id =
      some (c, s, [] ++ [.returned id c])) → ∃ rc s' log, activateLogged cb (fuel + 1) s id =
      some (rc, s', log ++ [.returned id rc]) ∧ OrderlyLog log ∧ rc ≠ capErrCycle ∧
      ∀ j, s'.entries j ≠ s.entries j → Relation.ReflTransGen (DependsOn s) id j :=
    fun c hc hres => ⟨c, s, [], hres, .nil, hc, fun j hj => absurd rfl hj⟩
  by_cases hcount : s.count ≤ id
  · refine hsame capErrNotFound (by decide) ?_
    rw [activateLogged, if_pos hcount]
    rfl
  cases he : s.entries id with
  | none => exact absurd he (h.noFreed id (not_le.mp hcount))
  | some e =>
  have hlive : ¬ e.deleted := by simp [h.wellFormed.live id e he]
  have hstarting : e.state ≠ .starting := by
    intro hst
    exact h.settled id le_rfl (by rw [stateOf_eq he, hst])
  by_cases hon : e.state = .on
  · refine hsame 0 (by decide) ?_
    rw [activateLogged, if_neg hcount, he]
    dsimp only
    rw [if_neg hlive, if_pos hon]
    rfl
  · obtain ⟨rc, s', log, hstart, hlog, hrc, honly⟩ := startCapLogged_orderly cb
      (fun s d hd hs => (ih (by omega) hs).imp fun r hr => ⟨hr.1, hr.2.1⟩) h he
    refine ⟨rc, s', log, ?_, hlog, hrc, honly⟩
    rw [activateLogged, if_neg hcount, he]
    dsimp only
    rw [if_neg hlive, if_neg hon, if_neg hstarting, hstart]
    rfl

end Orderly

/-- Capabilities are only added. -/
def Registers (_ : Option Can) : CanOp → Prop
  | .register _ _ => True
  | _ => False

lemma step_noFreed {s s' : Can} {op : CanOp} (h : WellFormed s ∧ NoFreed s)
    (hop : Registers (some s) op) (hstep : step (some s) op = some s') :
    WellFormed s' ∧ NoFreed s' := by
  obtain ⟨hw, hno⟩ := h
  cases op with
  | register r allocOk =>
    obtain ⟨⟨rc, s₂⟩, hreg, rfl⟩ := Option.map_eq_some_iff.mp hstep
    refine ⟨capRegister_wellFormed hw hreg, ?_⟩
    rcases capRegister_cases hreg with ⟨-, rfl | rfl⟩ | ⟨name, deps, -, -, -, -, -, -, rfl⟩
    · exact hno
    · rwa [set_count_none hw]
    intro i hi hnone
    by_cases hic : i = s.count
    · rw [hic, Can.set_self] at hnone
      cases hnone
    · rw [Can.set_of_ne hic] at hnone
      exact hno i (by change i < s.count + 1 at hi; omega) hnone
  | activate | deactivate | unregister | setRefuseHook => exact hop.elim

/-- The promises of `cap_activate`: the result, the registry after it, and the log. -/
structure Activation (s : Can) (id : ℕ) (rc : ℤ) (s' : Can) (log : List Event) : Prop where
  noCycle : ∀ j, .returned j capErrCycle ∉ log
  returned : .returned id rc ∈ log
  success : rc = 0 → ∀ j, Relation.ReflTransGen (DependsOn s) id j → stateOf s' j = some .on
  ordered : ∀ j s₁, .callback j s₁ ∈ log → ∀ d ∈ depsOf s₁ j, stateOf s₁ d = some .on
  only : ∀ j, s'.entries j ≠ s.entries j → Relation.ReflTransGen (DependsOn s) id j

lemma on_below {s : Can} (hc : Closed s) {i j : ℕ} (hi : stateOf s i = some .on)
    (h : Relation.ReflTransGen (DependsOn s) i j) : stateOf s j = some .on := by
  induction h with
  | refl => exact hi
  | tail _ hdep ih => exact hc _ ih _ hdep

/-- In every registry to which capabilities have only been added, dependencies have smaller
indices, and an activation ends without a cycle, switches on what it needs in order, and changes
nothing else. -/
theorem activation_is_ordered {ops : List CanOp}
    (hops : Guarded step Registers (some Can.empty) ops) {s : Can}
    (hs : run step (some Can.empty) ops = some s) :
    (∀ i e, s.entries i = some e → ∀ d ∈ e.depIndices, d < i) ∧
      ∀ (cb : Callbacks) (id fuel : ℕ), id < fuel →
        ∃ rc s' log, activateLogged cb fuel s id = some (rc, s', log) ∧
          capActivate cb s id = some (rc, s') ∧ Activation s id rc s' log := by
  have hno : NoFreed s := (run_keeps ⟨sound_empty.wellFormed, nofun⟩ step_noFreed hops s hs).2
  have hreached := run_reached ops s hs
  have hstart : ∀ id, Startable s id :=
    fun id => ⟨hreached.wellFormed, hno, fun j _ => hreached.settled j⟩
  refine ⟨hreached.wellFormed.ordered, fun cb id fuel hfuel => ?_⟩
  obtain ⟨⟨rc, s', log⟩, hres, horder, hlast⟩ := activateLogged_orderly cb fuel hfuel (hstart id)
  have hplain : capActivate cb s id = some (rc, s') := by
    rw [capActivate, capActivateAux_fuel hreached.wellFormed (Nat.lt_succ_self id) hfuel,
      ← activateLogged_unlogged, hres]
    rfl
  refine ⟨rc, s', log, hres, hplain, horder.log.noCycle, hlast, fun hrc j hj => ?_,
    horder.log.ordered, horder.only⟩
  rw [← dependsOn_congr horder.activated.shape] at hj
  exact on_below (horder.activated.closed (hreached.closed hno)) (horder.on hrc) hj

/-- A feature, its application and a driver below it. -/
def disk : Registration := ⟨some "disk".toList, capDriver, [], 0, true, true⟩

def viewer : Registration :=
  ⟨some "viewer".toList, capApplication, [some "disk".toList], 1, true, true⟩

def zoom : Registration :=
  ⟨some "zoom".toList, capFeature, [some "viewer".toList, some "disk".toList], 2, true, true⟩

/-- The feature is activated, and the others before it. -/
theorem feature_is_activated_last :
    ∃ s s' log, run step (some Can.empty)
        [.register disk true, .register viewer true, .register zoom true] = some s ∧
      activateLogged succeeding 3 s 2 = some (0, s', log) ∧ Activation s 2 0 s' log ∧
      stateOf s' 0 = some .on ∧ stateOf s' 1 = some .on ∧ stateOf s' 2 = some .on := by
  have hops : Guarded step Registers (some Can.empty)
      [.register disk true, .register viewer true, .register zoom true] :=
    ⟨trivial, trivial, trivial, trivial⟩
  obtain ⟨rc, s', log, hres, -, hact⟩ :=
    (activation_is_ordered hops rfl).2 succeeding 2 3 (by decide)
  cases hres
  exact ⟨_, _, _, rfl, rfl, hact, by decide, by decide, by decide⟩

end GrahaOS.ActivationOrder
