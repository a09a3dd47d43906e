import GrahaOS.ActivationOrder

/-!
# Slots of freed entries

`cap_unregister` frees an entry and leaves its index below the count. Of the public operations
`cap_deactivate` and `cap_find` test for the null pointer that is left; the others read through it.
The pids that watch a capability are a map of their own: they matter to `cap_watch` and
`cap_unwatch` only.
-/

namespace GrahaOS.FreedSlots

open Runs ActivationNetwork NetworkInvariant NetworkRuns NetworkNames DeactivationCount
  ActivationOrder List Option

def capErrWatchFull : ℤ := -15
def capErrAlreadyWatch : ℤ := -16
def capErrNotWatching : ℤ := -17

def maxWatchers : ℕ := 8

/-- The values of `CAP_STATE_*`. -/
def stateCode : CapState → ℤ
  | .off => 0
  | .starting => 1
  | .on => 2
  | .error => 3

variable (s : Can)

def capGetState (id : ℕ) : Option ℤ :=
  if s.count ≤ id then some (-1) else (s.entries id).map fun e => stateCode e.state

/-- `cap_strcpy` into a buffer of the given size. -/
def capStrcpy (src : Name) (size : ℕ) : Name := src.take (size - 1)

/-- The text that `cap_why_not` writes for a dependency that is not on; the second part says
whether there was one before. -/
def nameDep (size : ℕ) (text : Name) (foundIssue : Bool) (name : Name) : Name × Bool :=
  if text.length + 1 < size then
    let text := if foundIssue ∧ text.length + 3 < size then text ++ ", ".toList else text
    let text := if foundIssue then text else (text ++ "dep OFF: ".toList).take (size - 1)
    ((text ++ name).take (size - 1), true)
  else (text, foundIssue)

/-- The loop of `cap_why_not` over the dependencies. -/
def whyNotDeps (s : Can) (size : ℕ) : List ℕ → Name × Bool → Option (Name × Bool)
  | [], r => some r
  | d :: deps, r =>
    if s.count ≤ d then whyNotDeps s size deps r else
    match s.entries d with
    | none => none
    | some e =>
      if e.deleted = true ∨ e.state ≠ .on then
        whyNotDeps s size deps (nameDep size r.1 r.2 e.name)
      else whyNotDeps s size deps r

/-- The end of `cap_why_not` when no dependency stands in the way. -/
def whyNotError (size : ℕ) (e : CanEntry) : Option (ℤ × Name) :=
  if e.state = .error then
    if size = 0 then some (capErrActivateFail, [])
    else if e.errorDep < s.count then
      (s.entries e.errorDep).map fun dep =>
        let text := capStrcpy "dep failed: ".toList size
        (capErrActivateFail, text ++ capStrcpy dep.name (size - text.length))
    else some (capErrActivateFail, capStrcpy "activation callback failed".toList size)
  else some (0, capStrcpy "ready to activate".toList size)

/-- `cap_why_not` with a buffer of the given size; there is none if it is zero. The results are the
code and the text. -/
def capWhyNot (id size : ℕ) : Option (ℤ × Name) :=
  if s.count ≤ id then some (capErrNotFound, capStrcpy "not found".toList size) else
  match s.entries id with
  | none => none
  | some e =>
    if e.deleted then some (capErrDeleted, capStrcpy "deleted".toList size) else
    if e.state = .on then some (0, capStrcpy "already active".toList size) else
    (whyNotDeps s size e.depIndices ([], false)).bind fun
    | (_, false) => whyNotError s size e
    | (text, true) => some (capErrDepFailed, text)

/-- The pids that watch each capability. -/
abbrev Watchers := ℕ → List ℤ

def capWatch (w : Watchers) (id : ℕ) (pid : ℤ) : Option (ℤ × Watchers) :=
  if s.count ≤ id then some (capErrNotFound, w) else
  match s.entries id with
  | none => none
  | some e =>
    if e.deleted then some (capErrDeleted, w) else
    if pid ∈ w id then some (capErrAlreadyWatch, w) else
    if maxWatchers ≤ (w id).length then some (capErrWatchFull, w) else
    some (0, Function.update w id (w id ++ [pid]))

def capUnwatch (w : Watchers) (id : ℕ) (pid : ℤ) : Option (ℤ × Watchers) :=
  if s.count ≤ id then some (capErrNotFound, w) else
  match s.entries id with
  | none => none
  | some e =>
    if e.deleted then some (capErrDeleted, w) else
    if pid ∈ w id then some (0, Function.update w id ((w id).erase pid)) else
    some (capErrNotWatching, w)

inductive PublicOp where
  | register (r : Registration) (allocOk : Bool)
  | activate (cb : Callbacks) (id : ℕ)
  | deactivate (cb : Callbacks) (id : ℕ)
  | whyNot (id size : ℕ)
  | getState (id : ℕ)
  | watch (w : Watchers) (id : ℕ) (pid : ℤ)
  | unwatch (w : Watchers) (id : ℕ) (pid : ℤ)
  | find (name : Option Name)

/-- The code that an operation returns; there is none if it reads a freed entry. -/
def perform : PublicOp → Option ℤ
  | .register r allocOk => (capRegister s r allocOk).map Prod.fst
  | .activate cb id => (capActivate cb s id).map Prod.fst
  | .deactivate cb id => some (capDeactivate cb s id).1
  | .whyNot id size => (capWhyNot s id size).map Prod.fst
  | .getState id => capGetState s id
  | .watch w id pid => (capWatch s w id pid).map Prod.fst
  | .unwatch w id pid => (capUnwatch s w id pid).map Prod.fst
  | .find name => some (capFind s name)

/-- The index that an operation is given. -/
def PublicOp.target : PublicOp → Option ℕ
  | .activate _ id => some id
  | .deactivate _ id => some id
  | .whyNot id _ => some id
  | .getState id => some id
  | .watch _ id _ => some id
  | .unwatch _ id _ => some id
  | _ => none

/-- The code for an index that is not found. -/
def PublicOp.notFound : PublicOp → ℤ
  | .getState _ => -1
  | _ => capErrNotFound

/-- What an operation is going to read is there. A freed slot lies behind the entries that the
names of dependencies resolve to; the targets of activation are there with all that they need, and
those of the other operations as far as these look. -/
def Avoids : PublicOp → Prop
  | .register r _ => ∀ i < s.count, s.entries i = none →
      ∀ dep ∈ r.deps, ∀ name ∈ dep, name ≠ [] →
        ∃ j < i, ∃ e, s.entries j = some e ∧ e.named name = true
  | .activate _ id => ∀ j, Relation.ReflTransGen (ActivationOrder.DependsOn s) id j → j < s.count →
      s.entries j ≠ none
  | .deactivate _ _ => True
  | .whyNot id _ => (id < s.count → s.entries id ≠ none) ∧
      ∀ d ∈ depsOf s id, d < s.count → s.entries d ≠ none
  | .getState id => id < s.count → s.entries id ≠ none
  | .watch _ id _ => id < s.count → s.entries id ≠ none
  | .unwatch _ id _ => id < s.count → s.entries id ≠ none
  | .find _ => True

section Registration

variable {s : Can}

lemma findDep_eq_none {dep : Name} {js : List ℕ} (h : findDep s dep js = none) :
    ∃ before i after, js = before ++ i :: after ∧ s.entries i = none ∧
      ∀ j ∈ before, ∀ e, s.entries j = some e → e.named dep = false := by
  induction js with
  | nil => cases h
  | cons j js ih =>
  rw [findDep] at h
  cases he : s.entries j with
  | none => exact ⟨[], j, js, rfl, he, forall_mem_nil _⟩
  | some e =>
  simp only [he] at h
  split_ifs at h with hname
  obtain ⟨before, i, after, rfl, hnone, hbefore⟩ := ih h
  refine ⟨j :: before, i, after, rfl, hnone, fun k hk e' he' => ?_⟩
  rcases mem_cons.mp hk with rfl | hk
  · obtain rfl : e = e' := Option.mem_unique he he'
    simpa using hname
  · exact hbefore k hk e' he'

lemma mem_before_of_range {n i k : ℕ} {before after : List ℕ}
    (h : List.range n = before ++ i :: after) (hk : k < i) : k ∈ before := by
  have hlen : before.length < n := by
    have := congrArg List.length h
    simp only [length_range, length_append, length_cons] at this
    omega
  have hi : i = before.length := by
    have := congrArg (fun l => l[before.length]?) h
    simpa [hlen] using this.symm
  have hbefore : before = List.range before.length := by
    have := congrArg (List.take before.length) h
    rw [take_range, min_eq_left hlen.le, take_left] at this
    exact this.symm
  rw [hbefore]
  exact mem_range.mpr (hi ▸ hk)

/-- All slots up to the index are there. -/
def Present (s : Can) (j : ℕ) : Prop := ∀ i ≤ j, s.entries i ≠ none

lemma findDep_present {dep : Name} {j : ℕ}
    (h : findDep s dep (List.range s.count) = some (some j)) : Present s j := by
  obtain ⟨before, after, hsplit, hj, hbefore⟩ := findDep_eq_some h
  intro i hi
  rcases hi.lt_or_eq with hlt | rfl
  · exact hbefore i (mem_before_of_range hsplit hlt)
  · exact hj

/-- The second pass reads no freed entry, and resolves names to entries before the freed ones. -/
lemma resolveDeps_reads {name : Name} {deps : List (Option Name)}
    (h : ∀ i < s.count, s.entries i = none → ∀ dep ∈ deps, ∀ name ∈ dep, name ≠ [] →
      ∃ j < i, ∃ e, s.entries j = some e ∧ e.named name = true) :
    ∃ r, resolveDeps s name deps = some r ∧ ∀ ds, r = .ok ds → ∀ d ∈ ds, Present s d := by
  induction deps with
  | nil => exact ⟨_, rfl, fun ds hds => by cases hds; exact forall_mem_nil _⟩
  | cons dep deps ih =>
  rcases dep with _ | _ | ⟨c, cs⟩
  · exact ⟨_, rfl, by simp⟩
  · exact ⟨_, rfl, by simp⟩
  simp only [resolveDeps]
  split_ifs with hself
  · exact ⟨_, rfl, by simp⟩
  cases hfind : findDep s (c :: cs) (List.range s.count) with
  | none =>
    -- the search has hit a freed slot, and the name stands before it
    obtain ⟨before, i, after, hsplit, hnone, hbefore⟩ := findDep_eq_none hfind
    have hi : i < s.count := mem_range.mp (hsplit ▸ mem_append_right _ mem_cons_self)
    obtain ⟨j, hj, e, he, hnamed⟩ := h i hi hnone _ mem_cons_self _ rfl (cons_ne_nil _ _)
    rw [hbefore j (mem_before_of_range hsplit hj) e he] at hnamed
    cases hnamed
  | some found =>
    cases found with
    | none => exact ⟨_, rfl, by simp⟩
    | some j =>
    obtain ⟨r, hr, hpresent⟩ := ih fun i hi hnone dep hdep =>
      h i hi hnone dep (mem_cons_of_mem _ hdep)
    refine ⟨r.map (j :: ·), by rw [hr]; rfl, fun ds hds d hd => ?_⟩
    cases r with
    | error c => cases hds
    | ok ds' =>
      obtain rfl : j :: ds' = ds := Except.ok.inj hds
      rcases mem_cons.mp hd with rfl | hd
      · exact findDep_present hfind
      · exact hpresent ds' rfl d hd

lemma foldlM_isSome {β : Type*} {f : β → ℕ → Option β} {l : List ℕ}
    (h : ∀ b, ∀ d ∈ l, f b d ≠ none) (b : β) : l.foldlM f b ≠ none := by
  induction l generalizing b with
  | nil => exact some_ne_none _
  | cons d l ih =>
    rw [foldlM_cons]
    obtain ⟨b', hb'⟩ := ne_none_iff_exists'.mp (h b d mem_cons_self)
    rw [hb']
    exact ih (fun b d' hd' => h b d' (mem_cons_of_mem _ hd')) b'

lemma dfsWalk_reads (hw : WellFormed s) (fuel : ℕ) {start : ℕ} (h : Present s start)
    (visited : ℕ → Bool) : dfsWalk s fuel start visited ≠ none := by
  induction fuel generalizing start visited with
  | zero => exact some_ne_none _
  | succ fuel ih =>
  rw [dfsWalk]
  split_ifs with hcount
  · exact some_ne_none _
  cases he : s.entries start with
  | none => exact absurd he (h start le_rfl)
  | some e =>
    dsimp only
    split_ifs
    · exact some_ne_none _
    · refine foldlM_isSome (fun b d hd => ih (fun i hi => h i ?_) b) _
      exact hi.trans (hw.ordered start e he d hd).le

lemma capRegister_reads (hw : WellFormed s) {r : Registration} {allocOk : Bool}
    (h : Avoids s (.register r allocOk)) : capRegister s r allocOk ≠ none := by
  rw [capRegister]
  split
  · exact some_ne_none _
  · exact some_ne_none _
  rename_i name _ _
  obtain ⟨res, hres, hpresent⟩ : ∃ res, resolveDeps s name r.deps = some res ∧
    ∀ ds, res = .ok ds → ∀ d ∈ ds, Present s d := resolveDeps_reads h
  rw [hres]
  cases res with
  | error c =>
    simp only [bind_some]
    split_ifs <;> exact some_ne_none _
  | ok deps =>
    obtain ⟨visited, hvisited⟩ : ∃ visited, dfsFrom s deps = some visited :=
      ne_none_iff_exists'.mp
        (foldlM_isSome (fun b d hd => dfsWalk_reads hw (d + 1) (hpresent deps rfl d hd) b) _)
    simp only [bind_some, hvisited]
    split_ifs <;> exact some_ne_none _

end Registration

section Activation

variable {s s' : Can} {id : ℕ} {cb : Callbacks}

/-- What an activation reads is there. -/
def Reachable (s : Can) (id : ℕ) : Prop :=
  ∀ j, Relation.ReflTransGen (ActivationOrder.DependsOn s) id j → j < s.count → s.entries j ≠ none

lemma Reachable.of_shape (h : Reachable s id) (hshape : SameShape s s') : Reachable s' id := by
  intro j hj hlt hnone
  rw [dependsOn_congr hshape] at hj
  refine h j hj (hshape.1 ▸ hlt) ?_
  have hmap := hshape.2 j
  rw [hnone] at hmap
  exact map_eq_none_iff.mp hmap.symm

lemma activateDeps_reads {act : Can → ℕ → Option (ℤ × Can)}
    (hact : ∀ s d, Reachable s d → act s d ≠ none)
    (hkeep : ∀ s d rc s', act s d = some (rc, s') → SameShape s s') {deps : List ℕ}
    (h : ∀ d ∈ deps, Reachable s d) : activateDeps act deps s ≠ none := by
  induction deps generalizing s with
  | nil => exact some_ne_none _
  | cons d deps ih =>
    obtain ⟨⟨rc, s₁⟩, hd⟩ := ne_none_iff_exists'.mp (hact s d (h d mem_cons_self))
    rw [activateDeps, hd]
    simp only [bind_some]
    split_ifs
    · exact some_ne_none _
    · exact ih fun d' hd' => (h d' (mem_cons_of_mem _ hd')).of_shape (hkeep s d rc s₁ hd)

theorem capActivateAux_reads (fuel : ℕ) (h : Reachable s id) :
    capActivateAux cb fuel s id ≠ none := by
  induction fuel generalizing s id with
  | zero => exact some_ne_none _
  | succ fuel ih =>
  rw [capActivateAux]
  split_ifs with hcount
  · exact some_ne_none _
  cases he : s.entries id with
  | none => exact absurd he (h id .refl (not_le.mp hcount))
  | some e =>
  dsimp only
  split_ifs
  · exact some_ne_none _
  · exact some_ne_none _
  · exact some_ne_none _
  have hshape := (modify_spec (f := fun e => { e with state := .starting }) he
    (fun _ => rfl) (fun _ => rfl)).1
  have hdeps : ∀ d ∈ e.depIndices,
      Reachable (s.modify id fun e => { e with state := .starting }) d := by
    intro d hd
    refine Reachable.of_shape (fun j hj => h j (hj.head ?_)) hshape
    rwa [ActivationOrder.DependsOn, depsOf_eq he]
  obtain ⟨⟨failed, s₂⟩, hloop⟩ := ne_none_iff_exists'.mp
    (activateDeps_reads (fun s d hd => ih hd)
      (fun s d rc s' hact => (capActivateAux_spec fuel hact).1.shape) hdeps)
  rw [startCap, hloop]
  cases failed with
  | some d => exact some_ne_none _
  | none =>
    simp only [bind_some]
    split_ifs <;> exact some_ne_none _

end Activation

section Queries

variable {s : Can} {id size : ℕ}

lemma whyNotDeps_reads (size : ℕ) {deps : List ℕ} (h : ∀ d ∈ deps, d < s.count → s.entries d ≠ none)
    (r : Name × Bool) : whyNotDeps s size deps r ≠ none := by
  induction deps generalizing r with
  | nil => exact some_ne_none _
  | cons d deps ih =>
  have hrest := ih fun d' hd' => h d' (mem_cons_of_mem _ hd')
  rw [whyNotDeps]
  split_ifs with hcount
  · exact hrest r
  cases he : s.entries d with
  | none => exact absurd he (h d mem_cons_self (not_le.mp hcount))
  | some e =>
    dsimp only
    split_ifs
    · exact hrest _
    · exact hrest r

lemma capWhyNot_reads (h : Avoids s (.whyNot id size)) (herror : stateOf s id ≠ some .error) :
    capWhyNot s id size ≠ none := by
  obtain ⟨hid, hdeps⟩ := h
  rw [capWhyNot]
  split_ifs with hcount
  · exact some_ne_none _
  cases he : s.entries id with
  | none => exact absurd he (hid (not_le.mp hcount))
  | some e =>
  rw [depsOf_eq he] at hdeps
  dsimp only
  split_ifs
  · exact some_ne_none _
  · exact some_ne_none _
  obtain ⟨⟨text, found⟩, hloop⟩ :=
    ne_none_iff_exists'.mp (whyNotDeps_reads size hdeps ([], false))
  rw [hloop]
  cases found with
  | true => exact some_ne_none _
  | false =>
    have hstate : e.state ≠ .error := by
      intro hst
      exact herror (by rw [stateOf_eq he, hst])
    simp only [bind_some, whyNotError, if_neg hstate]
    exact some_ne_none _

lemma capGetState_reads (h : id < s.count → s.entries id ≠ none) : capGetState s id ≠ none := by
  rw [capGetState]
  split_ifs with hcount
  · exact some_ne_none _
  · simpa using h (not_le.mp hcount)

/-- An operation that reads the entry of an index in range, which is there. -/
lemma read_present {α : Type*} {x : α} {f : CanEntry → Option α} (hf : ∀ e, f e ≠ none)
    (h : id < s.count → s.entries id ≠ none) :
    (if s.count ≤ id then some x else
      match s.entries id with
      | none => none
      | some e => f e) ≠ none := by
  split_ifs with hcount
  · exact some_ne_none _
  · obtain ⟨e, he⟩ := ne_none_iff_exists'.mp (h (not_le.mp hcount))
    rw [he]
    exact hf e

lemma capDeactivate_freed (cb : Callbacks) (hlt : id < s.count) (hnone : s.entries id = none) :
    (capDeactivate cb s id).1 = capErrNotFound := by
  obtain ⟨fuel, hfuel⟩ : ∃ k, s.count = k + 1 := ⟨s.count - 1, by omega⟩
  rw [capDeactivate, capDeactivateCount, if_neg (not_le.mpr hlt), hfuel, capDeactivateAux,
    if_neg (not_le.mpr hlt), hnone]

end Queries

/-- Registrations and unregistrations. -/
def RegistersOrFrees (_ : Option Can) : CanOp → Prop
  | .register _ _ => True
  | .unregister _ _ => True
  | _ => False

lemma step_noError {s s' : Can} {op : CanOp} (h : Reached s ∧ ∀ i, stateOf s i ≠ some .error)
    (hop : RegistersOrFrees (some s) op) (hstep : step (some s) op = some s') :
    Reached s' ∧ ∀ i, stateOf s' i ≠ some .error := by
  obtain ⟨hreached, hno⟩ := h
  refine ⟨step_reached hreached hstep, ?_⟩
  cases op with
  | register r allocOk =>
    obtain ⟨⟨rc, s₂⟩, hreg, rfl⟩ := map_eq_some_iff.mp hstep
    exact capRegister_avoids nofun nofun hreached.wellFormed hreg hno
  | unregister cb id =>
    obtain ⟨⟨rc, s₂⟩, hunreg, rfl⟩ := map_eq_some_iff.mp hstep
    exact capUnregister_avoids nofun hreached.wellFormed hunreg hno
  | activate => exact hop.elim
  | deactivate => exact hop.elim
  | setRefuseHook => exact hop.elim

/-- The operation reads no freed entry, reports an index whose entry was freed as not found, and
finds no freed entry under a name. -/
structure Guards (s : Can) (op : PublicOp) : Prop where
  reads : perform s op ≠ none
  notFound : ∀ id ∈ op.target, id < s.count → s.entries id = none → perform s op = some op.notFound
  found : ∀ name, op = .find name → ∀ j : ℕ, perform s op = some j → s.entries j ≠ none

lemma guards_of_present {s : Can} {op : PublicOp} {id : ℕ} (htarget : op.target = some id)
    (hfind : ∀ name, op ≠ .find name) (hreads : perform s op ≠ none)
    (hpresent : id < s.count → s.entries id ≠ none) : Guards s op := by
  refine ⟨hreads, fun id' hid' hlt hnone => ?_, fun name hname => absurd hname (hfind name)⟩
  obtain rfl : id = id' := Option.mem_unique htarget hid'
  exact absurd hnone (hpresent hlt)

lemma capFind_present {s : Can} {name : Option Name} {j : ℕ} (h : capFind s name = j) :
    s.entries j ≠ none := by
  rw [capFind.eq_def] at h
  split at h
  · exact absurd h (by simp [capErrNotFound])
  · exact absurd h (by simp [capErrNotFound])
  cases hfind : (List.range s.count).find? _ with
  | none =>
    rw [hfind] at h
    exact absurd h (by simp [capErrNotFound])
  | some i =>
    rw [hfind] at h
    obtain rfl : i = j := Int.ofNat.inj h
    intro hnone
    have := List.find?_some hfind
    simp [hnone] at this

/-- In every registry that registrations and unregistrations lead to, a public operation reads no
freed entry if what it needs is there. -/
theorem freed_entries_are_not_read {ops : List CanOp}
    (hops : Guarded step RegistersOrFrees (some Can.empty) ops) {s : Can}
    (hs : run step (some Can.empty) ops = some s) (op : PublicOp) (hop : Avoids s op) :
    Guards s op := by
  have hempty : ∀ i, stateOf Can.empty i ≠ some .error := by simp [stateOf, Can.empty]
  obtain ⟨hreached, hno⟩ := run_keeps ⟨reached_empty, hempty⟩ step_noError hops s hs
  cases op with
  | register r allocOk =>
    have hreads := capRegister_reads hreached.wellFormed hop
    exact ⟨by simpa [perform] using hreads, by simp [PublicOp.target], by simp⟩
  | activate cb id =>
    have hreads : capActivate cb s id ≠ none := capActivateAux_reads (id + 1) hop
    exact guards_of_present rfl (by simp) (by simpa [perform] using hreads) (hop id .refl)
  | deactivate cb id =>
    refine ⟨Option.some_ne_none _, fun id' hid' hlt hnone => ?_, by simp⟩
    cases hid'
    exact congrArg some (capDeactivate_freed cb hlt hnone)
  | whyNot id size =>
    have hreads := capWhyNot_reads hop (hno id)
    exact guards_of_present rfl (by simp) (by simpa [perform] using hreads) hop.1
  | getState id => exact guards_of_present rfl (by simp) (capGetState_reads hop) hop
  | watch w id pid | unwatch w id pid =>
    refine guards_of_present rfl (by simp) (Option.map_eq_none_iff.not.mpr ?_) hop
    exact read_present (fun e => by split_ifs <;> exact some_ne_none _) hop
  | find name =>
    refine ⟨Option.some_ne_none _, by simp [PublicOp.target], fun name' hname' j hj => ?_⟩
    exact capFind_present (Option.some.inj hj)

/-- An application and its feature; the feature goes, and the application is asked for. -/
theorem application_is_still_read :
    ∃ s, run step (some Can.empty)
        [.register editor true, .register spelling true, .unregister succeeding 1] = some s ∧
      s.entries 1 = none ∧ Guards s (.register outline true) ∧ Guards s (.getState 0) ∧
      Guards s (.deactivate succeeding 1) := by
  have hops : Guarded step RegistersOrFrees (some Can.empty)
      [.register editor true, .register spelling true, .unregister succeeding 1] :=
    ⟨trivial, trivial, trivial, trivial⟩
  refine ⟨_, rfl, rfl, freed_entries_are_not_read hops rfl _ ?_,
    freed_entries_are_not_read hops rfl _ ?_, freed_entries_are_not_read hops rfl _ trivial⟩
  · intro i hi hnone dep hdep name hname _
    have hone : i = 1 := by
      change i < 2 at hi
      interval_cases i
      · cases hnone
      · rfl
    obtain rfl : dep = some "editor".toList := by simpa [outline, Registration.deps, maxCapDeps,
      List.range_succ] using hdep
    cases hname
    exact ⟨0, by omega, _, rfl, by decide⟩
  · exact fun _ => Option.some_ne_none _

/-- After an unregistration six of the operations read the freed entry. -/
theorem freed_entry_is_read :
    ∃ s, run step (some Can.empty) [.register editor true, .unregister succeeding 0] = some s ∧
      s.count = 1 ∧ s.entries 0 = none ∧ perform s (.activate succeeding 0) = none ∧
      perform s (.whyNot 0 64) = none ∧ perform s (.getState 0) = none ∧
      perform s (.watch (fun _ => []) 0 7) = none ∧
      perform s (.unwatch (fun _ => []) 0 7) = none ∧ perform s (.register spelling true) = none :=
  ⟨_, rfl, rfl, rfl, rfl, rfl, rfl, rfl, rfl, rfl⟩

end GrahaOS.FreedSlots
