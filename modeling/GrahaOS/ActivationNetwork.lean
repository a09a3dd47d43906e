import Mathlib.Tactic

/-!
# The capability activation network

The registry of `kernel/cap/can.c`: capabilities with declared dependencies that are switched on and
off. A freed entry leaves a null pointer behind. Some functions test for it and others read through
it; the second is a fault of the kernel, and the result is `none`. Callbacks of drivers answer as
they like: their results are an argument of the operation, which calls a callback at most once.
Watchers, audit records, log lines, paired objects, owners and operation descriptors are left out.
-/

namespace GrahaOS.ActivationNetwork

open Function

/-- A C string, without its end. -/
abbrev Name := List Char

def capHardware : ℕ := 0
def capDriver : ℕ := 1
def capService : ℕ := 2
def capApplication : ℕ := 3
def capFeature : ℕ := 4
def capComposite : ℕ := 5

def maxCapabilities : ℕ := 64
def maxCapDeps : ℕ := 8
def capNameLen : ℕ := 32

def capErrNameEmpty : ℤ := -1
def capErrNameDuplicate : ℤ := -2
def capErrDepUnresolved : ℤ := -3
def capErrDepSelf : ℤ := -4
def capErrLayerViolation : ℤ := -5
def capErrRegistryFull : ℤ := -6
def capErrHwHasDeps : ℤ := -7
def capErrNotFound : ℤ := -8
def capErrActivateFail : ℤ := -9
def capErrDepFailed : ℤ := -10
def capErrCycle : ℤ := -11
def capErrKernelOwned : ℤ := -12
def capErrDeleted : ℤ := -14
def capErrBusy : ℤ := -18

inductive CapState where
  | off
  | starting
  | on
  | error
  deriving DecidableEq

/-- `can_entry_t`. Of a callback it matters here whether there is one. -/
structure CanEntry where
  name : Name
  type : ℕ
  state : CapState
  depIndices : List ℕ
  activateFn : Bool
  deactivateFn : Bool
  refuseDeactivateFn : Bool
  activationCount : ℕ
  errorDep : ℕ
  deleted : Bool
  deriving DecidableEq

/-- `g_can_entry_ptrs` and `g_cap_count`; a null pointer is `none`. -/
structure Can where
  entries : ℕ → Option CanEntry
  count : ℕ

/-- What the callbacks of a capability answer during one operation. -/
structure Callbacks where
  activate : ℕ → ℤ
  deactivate : ℕ → ℤ
  refuse : ℕ → ℤ

namespace Can

def set (s : Can) (i : ℕ) (e : Option CanEntry) : Can :=
  { s with entries := Function.update s.entries i e }

def modify (s : Can) (i : ℕ) (f : CanEntry → CanEntry) : Can :=
  { s with entries := Function.update s.entries i ((s.entries i).map f) }

/-- The registry before the first registration. -/
def empty : Can := ⟨fun _ => none, 0⟩

variable {s : Can} {i j : ℕ} {e : Option CanEntry} {f : CanEntry → CanEntry}

@[simp] lemma set_self : (s.set i e).entries i = e := update_self ..

lemma set_of_ne (h : j ≠ i) : (s.set i e).entries j = s.entries j := update_of_ne h ..

@[simp] lemma modify_self : (s.modify i f).entries i = (s.entries i).map f :=
  update_self ..

lemma modify_of_ne (h : j ≠ i) : (s.modify i f).entries j = s.entries j :=
  update_of_ne h ..

end Can

def layerAllowsDep (myType depType : ℕ) : Bool :=
  if myType = capHardware then false
  else if myType = capDriver then depType = capHardware || depType = capDriver
  else if myType = capService then depType ≤ capService
  else if myType = capApplication then depType < capApplication
  else if myType = capFeature then depType < capFeature
  else if myType = capComposite then depType < capComposite
  else false

/-- `dfs_walk`. Dependencies have smaller indices, so `start + 1` is enough fuel. -/
def dfsWalk (s : Can) : ℕ → ℕ → (ℕ → Bool) → Option (ℕ → Bool)
  | 0, _, visited => some visited
  | fuel + 1, start, visited =>
    if s.count ≤ start then some visited else
    match s.entries start with
    | none => none
    | some e =>
      if e.deleted || visited start then some visited else
      e.depIndices.foldlM (fun visited d => dfsWalk s fuel d visited)
        (Function.update visited start true)

/-- The walk from all dependencies of the new capability. -/
def dfsFrom (s : Can) (deps : List ℕ) : Option (ℕ → Bool) :=
  deps.foldlM (fun visited d => dfsWalk s (d + 1) d visited) fun _ => false

/-- The entry has the name and is not deleted. -/
def CanEntry.named (e : CanEntry) (name : Name) : Bool := !e.deleted && e.name = name

/-- The search for a dependency by name does not test for freed entries. -/
def findDep (s : Can) (dep : Name) : List ℕ → Option (Option ℕ)
  | [] => some none
  | j :: js =>
    match s.entries j with
    | none => none
    | some e => if e.named dep then some (some j) else findDep s dep js

/-- The second pass over the names of the dependencies. -/
def resolveDeps (s : Can) (name : Name) : List (Option Name) → Option (Except ℤ (List ℕ))
  | [] => some (.ok [])
  | dep :: deps =>
    match dep with
    | none | some [] => some (.error capErrDepUnresolved)
    | some dep =>
      if dep = name then some (.error capErrDepSelf) else
      (findDep s dep (List.range s.count)).bind fun
        | none => some (.error capErrDepUnresolved)
        | some j => (resolveDeps s name deps).map fun r => r.map (j :: ·)

/-- The arguments of `cap_register`. A null pointer is `none`, and the array of names is read
as one that ends in null pointers. -/
structure Registration where
  name : Option Name
  type : ℕ
  depNames : List (Option Name)
  depCount : ℤ
  activateFn : Bool
  deactivateFn : Bool

/-- The names of the dependencies that are looked at. -/
def Registration.deps (r : Registration) : List (Option Name) :=
  (List.range (min r.depCount.toNat maxCapDeps)).map fun i => r.depNames.getD i none

/-- The entry that a registration commits. The name is cut at the size of its field. -/
def Registration.entry (r : Registration) (name : Name) (deps : List ℕ) : CanEntry where
  name := name.take (capNameLen - 1)
  type := r.type
  state := if r.type = capHardware then .on else .off
  depIndices := deps
  activateFn := r.activateFn
  deactivateFn := r.deactivateFn
  refuseDeactivateFn := false
  activationCount := if r.type = capHardware then 1 else 0
  errorDep := 0
  deleted := false

/-- There is a live entry with the name. -/
def Can.hasName (s : Can) (name : Name) : Bool :=
  (List.range s.count).any fun i => (s.entries i).any (·.named name)

/-- `cap_register`; the result is the index or an error. The last two passes only warn. -/
def capRegister (s : Can) (r : Registration) (allocOk : Bool) : Option (ℤ × Can) :=
  match r.name with
  | none | some [] => some (capErrNameEmpty, s)
  | some name =>
    if s.hasName name then some (capErrNameDuplicate, s) else
    if maxCapabilities ≤ s.count then some (capErrRegistryFull, s) else
    if r.type = capHardware ∧ r.deps ≠ [] then some (capErrHwHasDeps, s) else
    (resolveDeps s name r.deps).bind fun
    | .error rc => some (rc, s)
    | .ok deps =>
      if !deps.all fun d => (s.entries d).all fun e => layerAllowsDep r.type e.type then
        some (capErrLayerViolation, s)
      else
      (dfsFrom s deps).bind fun visited =>
      if (List.range s.count).any fun i => visited i && (s.entries i).any (·.named name) then
        some (capErrCycle, s)
      else if !allocOk then some (capErrRegistryFull, s.set s.count none) else
      some (s.count, { s.set s.count (some (r.entry name deps)) with count := s.count + 1 })

/-- The loop of `cap_activate` over the dependencies; the result is the one that failed. -/
def activateDeps (activate : Can → ℕ → Option (ℤ × Can)) :
    List ℕ → Can → Option (Option ℕ × Can)
  | [], s => some (none, s)
  | d :: deps, s => (activate s d).bind fun (rc, s) =>
    if rc ≠ 0 then some (some d, s) else activateDeps activate deps s

variable (cb : Callbacks)

/-- The part of `cap_activate` from the cycle guard on: the dependencies, then the callback. -/
def startCap (activate : Can → ℕ → Option (ℤ × Can)) (s : Can) (id : ℕ)
    (e : CanEntry) : Option (ℤ × Can) :=
  (activateDeps activate e.depIndices (s.modify id fun e => { e with state := .starting })).bind fun
  | (some d, s) =>
    some (capErrDepFailed, s.modify id fun e => { e with state := .error, errorDep := d })
  | (none, s) =>
    if e.activateFn ∧ cb.activate id ≠ 0 then
      some (capErrActivateFail, s.modify id fun e => { e with state := .error })
    else
      some (0, s.modify id fun e =>
        { e with state := .on, activationCount := e.activationCount + 1 })

/-- `cap_activate`. Dependencies have smaller indices, so `id + 1` is enough fuel. -/
def capActivateAux (cb : Callbacks) : ℕ → Can → ℕ → Option (ℤ × Can)
  | 0, s, _ => some (capErrCycle, s)
  | fuel + 1, s, id =>
    if s.count ≤ id then some (capErrNotFound, s) else
    match s.entries id with
    | none => none
    | some e =>
      if e.deleted then some (capErrDeleted, s) else
      if e.state = .on then some (0, s) else
      if e.state = .starting then some (capErrCycle, s) else
      startCap cb (capActivateAux cb fuel) s id e

def capActivate (s : Can) (id : ℕ) : Option (ℤ × Can) :=
  capActivateAux cb (id + 1) s id

/-- The cascade of `cap_deactivate_inner` over the entries: those that are on, or on their
way, and depend on `id` are switched off first. -/
def cascade (inner : Can → ℕ → ℕ → ℤ × Can × ℕ) (id : ℕ) :
    List ℕ → Can → ℕ → ℤ × Can × ℕ
  | [], s, n => (0, s, n)
  | i :: is, s, n =>
    match s.entries i with
    | none => cascade inner id is s n
    | some e =>
      if e.deleted = false ∧ (e.state = .on ∨ e.state = .starting) ∧ id ∈ e.depIndices then
        match inner s i n with
        | (rc, s, n) => if rc ≠ 0 then (rc, s, n) else cascade inner id is s n
      else cascade inner id is s n

/-- `cap_deactivate_inner`; the third result is the number of capabilities switched off.
Dependents have larger indices, so `count` is enough fuel. -/
def capDeactivateAux (cb : Callbacks) : ℕ → Can → ℕ → ℕ → ℤ × Can × ℕ
  | 0, s, _, n => (capErrBusy, s, n)
  | fuel + 1, s, id, n =>
    if s.count ≤ id then (capErrNotFound, s, n) else
    match s.entries id with
    | none => (capErrNotFound, s, n)
    | some e =>
      if e.deleted then (capErrDeleted, s, n) else
      if e.state = .off then (0, s, n) else
      if e.refuseDeactivateFn ∧ cb.refuse id ≠ 0 then (capErrBusy, s, n) else
      match cascade (capDeactivateAux cb fuel) id (List.range s.count) s n with
      | (rc, s, n) =>
        if rc ≠ 0 then (rc, s, n) else
        if e.deactivateFn ∧ cb.deactivate id ≠ 0 then (cb.deactivate id, s, n) else
        (0, s.modify id fun e => { e with state := .off }, n + 1)

def capDeactivateCount (s : Can) (id : ℕ) : ℤ × Can × ℕ :=
  if s.count ≤ id then (capErrNotFound, s, 0) else capDeactivateAux cb s.count s id 0

def capDeactivate (s : Can) (id : ℕ) : ℤ × Can :=
  match capDeactivateCount cb s id with
  | (rc, s, _) => (rc, s)

/-- `cap_set_refuse_hook`, to set or to clear the predicate. -/
def capSetRefuseHook (s : Can) (id : ℕ) (fn : Bool) : ℤ × Can :=
  if s.count ≤ id then (capErrNotFound, s) else
  match s.entries id with
  | none => (capErrNotFound, s)
  | some e =>
    if e.deleted then (capErrDeleted, s) else
    (0, s.modify id fun e => { e with refuseDeactivateFn := fn })

/-- `cap_unregister`. The result of the deactivation is not looked at. -/
def capUnregister (s : Can) (id : ℕ) : Option (ℤ × Can) :=
  if s.count ≤ id then some (capErrNotFound, s) else
  match s.entries id with
  | none => none
  | some e =>
    if e.deleted then some (capErrDeleted, s) else
    if e.type < capApplication then some (capErrKernelOwned, s) else
    let s := if e.state = .on ∨ e.state = .starting then (capDeactivate cb s id).2 else s
    some (0, s.set id none)

end GrahaOS.ActivationNetwork
