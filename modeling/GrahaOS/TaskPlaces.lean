import GrahaOS.Placement
import GrahaOS.Scheduler

/-!
# Where the tasks are

A task that is not asleep is in one place: on a queue of ready tasks, on a list of starved ones, on
a CPU, parked by a barrier, or in the hands of kernel code that is about to put it on a queue. A
task that waits may be on the CPU it has not left yet.
-/

namespace GrahaOS.Scheduler

open World List Option

inductive Place where
  | ready (c : CpuId)
  | starved (c : CpuId)
  | cpu (c : CpuId)
  | kernel (t : TaskId)
  | parked
  deriving DecidableEq

/-- A task that is not the idle task. -/
def other (idle t : TaskId) : List TaskId := if t = idle then [] else [t]

/-- The tasks that a CPU holds: the one it executes until that is put away, and the next one. -/
def Pc.holds (current idle : TaskId) : Pc → List TaskId
  | .pick _ | .picked none | .replace | .halted => []
  | .picked (some t) | .dispatch t | .install t | .replaced t | .reinstall t => other idle t
  | .notify woken => other idle current ++ woken.toList
  | _ => other idle current

/-- The tasks that the code a task executes is about to put on a queue. -/
def Cont.holds : Cont → List TaskId
  | .waking ts | .ending _ ts | .releasing _ ts => ts
  | .killing _ woken | .dying woken => woken.toList
  | .creating child => [child]
  | _ => []

def places (w : World) : Place → List TaskId
  | .ready c => w.ready c
  | .starved c => w.starved c
  | .cpu c => (w.pc c).holds (w.current c) (w.idleTask c)
  | .kernel t => (w.cont t).holds
  | .parked => w.parked

/-- No CPU has the task. -/
def OffCpu (w : World) (t : TaskId) : Prop := ∀ c, t ∉ places w (.cpu c)

section Places

variable {w : World} {c d : CpuId} {t x : TaskId} {p : Place}

lemma other_of_ne {idle : TaskId} (h : t ≠ idle) : other idle t = [t] := if_neg h

@[simp] lemma places_modify (f : Task → Task) : places (w.modify t f) = places w := by
  funext p
  cases p <;> rfl

@[simp] lemma places_setState (s : TaskState) : places (w.setState t s) = places w :=
  places_modify _

@[simp] lemma places_setWaiters (l : WaitList) (ts : List TaskId) :
    places (w.setWaiters l ts) = places w := by
  funext p
  cases p <;> rfl

lemma places_setPc_self (pc : Pc) :
    places (w.setPc c pc) (.cpu c) = pc.holds (w.current c) (w.idleTask c) := by
  simp [places, setPc]

lemma places_setPc_of_ne (pc : Pc) (h : p ≠ .cpu c) : places (w.setPc c pc) p = places w p := by
  cases p with
  | cpu d =>
    have hd : d ≠ c := fun heq => h (congrArg Place.cpu heq)
    simp [places, setPc, hd]
  | _ => rfl

lemma places_setCont_self (cont : Cont) : places (w.setCont t cont) (.kernel t) = cont.holds := by
  simp [places, setCont]

lemma places_setCont_of_ne (cont : Cont) (h : p ≠ .kernel t) :
    places (w.setCont t cont) p = places w p := by
  cases p with
  | kernel s =>
    have hs : s ≠ t := fun heq => h (congrArg Place.kernel heq)
    simp [places, setCont, hs]
  | _ => rfl

variable (ts : List TaskId)

lemma places_setReady_self : places (w.setReady c ts) (.ready c) = ts := by
  simp [places, setReady]

lemma places_setReady_of_ne (h : p ≠ .ready c) : places (w.setReady c ts) p = places w p := by
  cases p with
  | ready d =>
    have hd : d ≠ c := fun heq => h (congrArg Place.ready heq)
    simp [places, setReady, hd]
  | _ => rfl

lemma places_setStarved_self : places (w.setStarved c ts) (.starved c) = ts := by
  simp [places, setStarved]

lemma places_setStarved_of_ne (h : p ≠ .starved c) : places (w.setStarved c ts) p = places w p := by
  cases p with
  | starved d =>
    have hd : d ≠ c := fun heq => h (congrArg Place.starved heq)
    simp [places, setStarved, hd]
  | _ => rfl

lemma places_setCurrent_of_ne (h : p ≠ .cpu c) : places (w.setCurrent c t) p = places w p := by
  cases p with
  | cpu d =>
    have hd : d ≠ c := fun heq => h (congrArg Place.cpu heq)
    simp [places, setCurrent, hd]
  | _ => rfl

lemma places_enqueueReady_self :
    places (enqueueReady w t) (.ready (targetCpu w t)) = w.ready (targetCpu w t) ++ [t] := by
  rw [enqueueReady, places_setState, places_setReady_self]

lemma places_enqueueReady_of_ne (h : p ≠ .ready (targetCpu w t)) :
    places (enqueueReady w t) p = places w p := by
  rw [enqueueReady, places_setState, places_setReady_of_ne _ h]

end Places

section Tables

variable {w : World} {t x : TaskId} {f : Task → Task}

lemma state_modify_self : (w.modify t f).state t = (w.tasks t).map fun task => (f task).state := by
  simp [state, World.modify, Function.comp_def]

lemma state_modify_of_ne (h : x ≠ t) : (w.modify t f).state x = w.state x := by
  simp [state, World.modify, h]

lemma state_modify (hf : ∀ task, (f task).state = task.state) :
    (w.modify t f).state x = w.state x := by
  by_cases h : x = t
  · rw [h, state_modify_self, state]
    simp only [hf]
  · exact state_modify_of_ne h

lemma state_setState_self (s : TaskState) :
    (w.setState t s).state t = (w.state t).map fun _ => s := by
  rw [setState, state_modify_self, state, Option.map_map]
  rfl

lemma state_setState_of_ne (s : TaskState) (h : x ≠ t) : (w.setState t s).state x = w.state x :=
  state_modify_of_ne h

end Tables

/-- The tasks stay who they are, and none falls asleep. -/
structure Calm (w w' : World) : Prop where
  cpuCount : w'.cpuCount = w.cpuCount
  idleTask : w'.idleTask = w.idleTask
  nextTaskId : w'.nextTaskId = w.nextTaskId
  kept : ∀ t task, w.tasks t = some task → ∃ task', w'.tasks t = some task' ∧
    task'.isIdle = task.isIdle ∧ (task.parent = none → task'.parent = none)
  none : ∀ t, w.tasks t = none → w'.tasks t = none
  asleep : ∀ t, w'.state t = some .chanWait → w.state t = some .chanWait

section CalmSteps

variable {w w' w'' : World} {c : CpuId} {t x : TaskId}

lemma Calm.refl (w : World) : Calm w w :=
  ⟨rfl, rfl, rfl, fun _ task h => ⟨task, h, rfl, id⟩, fun _ h => h, fun _ h => h⟩

lemma Calm.trans (h : Calm w w') (h' : Calm w' w'') : Calm w w'' where
  cpuCount := h'.cpuCount.trans h.cpuCount
  idleTask := h'.idleTask.trans h.idleTask
  nextTaskId := h'.nextTaskId.trans h.nextTaskId
  kept := fun t task ht => by
    obtain ⟨task', ht', hidle, hparent⟩ := h.kept t task ht
    obtain ⟨task'', ht'', hidle', hparent'⟩ := h'.kept t task' ht'
    exact ⟨task'', ht'', hidle'.trans hidle, hparent' ∘ hparent⟩
  none := fun t ht => h'.none t (h.none t ht)
  asleep := fun t ht => h.asleep t (h'.asleep t ht)

lemma Calm.isIdle (h : Calm w w') (t : TaskId) : w'.isIdle t = w.isIdle t := by
  cases ht : w.tasks t with
  | none => simp [World.isIdle, ht, h.none t ht]
  | some task =>
    obtain ⟨task', ht', hidle, -⟩ := h.kept t task ht
    simp [World.isIdle, ht, ht', hidle]

lemma calm_of_tasks (h : (w'.cpuCount, w'.idleTask, w'.nextTaskId, w'.tasks) =
    (w.cpuCount, w.idleTask, w.nextTaskId, w.tasks)) : Calm w w' := by
  simp only [Prod.mk.injEq] at h
  obtain ⟨hcount, hidle, hnext, htasks⟩ := h
  refine ⟨hcount, hidle, hnext, fun t task ht => ⟨task, htasks ▸ ht, rfl, id⟩,
    fun t ht => htasks ▸ ht, fun t ht => ?_⟩
  rwa [state, htasks] at ht

lemma isIdle_modify {f : Task → Task} (hidle : ∀ task, (f task).isIdle = task.isIdle) (x : TaskId) :
    (w.modify t f).isIdle x = w.isIdle x := by
  by_cases hx : x = t
  · subst hx
    cases hw : w.tasks x <;> simp [World.isIdle, World.modify, hw, hidle]
  · simp [World.isIdle, World.modify, hx]

lemma calm_modify {f : Task → Task} (hkin : ∀ task, ((f task).isIdle, (f task).parent) = (task.isIdle, task.parent))
    (hstate : ∀ task, (f task).state = .chanWait → task.state = .chanWait) :
    Calm w (w.modify t f) where
  cpuCount := rfl
  idleTask := rfl
  nextTaskId := rfl
  kept := fun x task hx => by
    by_cases hxt : x = t
    · subst hxt
      exact ⟨f task, by simp [World.modify, hx], (Prod.ext_iff.mp (hkin task)).1,
        fun h => (Prod.ext_iff.mp (hkin task)).2.trans h⟩
    · exact ⟨task, by simp [World.modify, hxt, hx], rfl, id⟩
  none := fun x hx => by
    by_cases hxt : x = t
    · subst hxt
      simp [World.modify, hx]
    · simp [World.modify, hxt, hx]
  asleep := fun x hx => by
    by_cases hxt : x = t
    · subst hxt
      rw [state_modify_self, map_eq_some_iff] at hx
      obtain ⟨task, htask, hs⟩ := hx
      rw [state, htask, map_some, hstate task hs]
    · rwa [state_modify_of_ne hxt] at hx

lemma calm_setState {s : TaskState} (hs : s ≠ .chanWait) : Calm w (w.setState t s) :=
  calm_modify (fun _ => rfl) fun _ h => absurd h hs

lemma calm_setPc (pc : Pc) : Calm w (w.setPc c pc) := calm_of_tasks rfl

lemma calm_setCont (cont : Cont) : Calm w (w.setCont t cont) := calm_of_tasks rfl

lemma calm_setReady (ts : List TaskId) : Calm w (w.setReady c ts) := calm_of_tasks rfl

lemma calm_enqueueReady : Calm w (enqueueReady w t) :=
  (calm_setReady _).trans (calm_setState (by decide))

/-- A task that may have lost its parent. -/
def orphaned (parent : TaskId) (task : Task) : Task :=
  if task.parent = some parent ∧ task.state ≠ .zombie then { task with parent := some 0 } else task

lemma orphanChildren_tasks : (orphanChildren w t).tasks x = (w.tasks x).map (orphaned t) := rfl

lemma state_orphanChildren : (orphanChildren w t).state x = w.state x := by
  have hstate : ∀ task, (orphaned t task).state = task.state := fun task => by
    rw [orphaned]
    split_ifs <;> rfl
  rw [state, state, orphanChildren_tasks, Option.map_map]
  exact congrArg (Option.map · (w.tasks x)) (funext hstate)

lemma calm_orphanChildren : Calm w (orphanChildren w t) where
  cpuCount := rfl
  idleTask := rfl
  nextTaskId := rfl
  kept := fun x task hx => by
    refine ⟨orphaned t task, by rw [orphanChildren_tasks, hx, map_some], ?_, fun h => ?_⟩
    · rw [orphaned]
      split_ifs <;> rfl
    · rw [orphaned, if_neg (fun hp => some_ne_none t (hp.1.symm.trans h)), h]
  none := fun x hx => by rw [orphanChildren_tasks, hx, map_none]
  asleep := fun x hx => by rwa [state_orphanChildren] at hx

end CalmSteps

/-- The CPUs and the code of tasks stay where they are. -/
structure Steady (w w' : World) : Prop extends Calm w w' where
  pc : w'.pc = w.pc
  current : w'.current = w.current
  cont : w'.cont = w.cont

/-- The tasks stay where they are. -/
structure Quiet (w w' : World) : Prop extends Steady w w' where
  ready : w'.ready = w.ready
  starved : w'.starved = w.starved
  parked : w'.parked = w.parked

section QuietSteps

variable {w w' w'' : World} {c : CpuId} {t x : TaskId} {l : WaitList}

lemma Steady.trans (h : Steady w w') (h' : Steady w' w'') : Steady w w'' :=
  ⟨h.toCalm.trans h'.toCalm, h'.pc.trans h.pc, h'.current.trans h.current, h'.cont.trans h.cont⟩

lemma Quiet.refl (w : World) : Quiet w w := ⟨⟨Calm.refl w, rfl, rfl, rfl⟩, rfl, rfl, rfl⟩

lemma Quiet.trans (h : Quiet w w') (h' : Quiet w' w'') : Quiet w w'' :=
  ⟨h.toSteady.trans h'.toSteady, h'.ready.trans h.ready, h'.starved.trans h.starved,
    h'.parked.trans h.parked⟩

lemma Quiet.places (h : Quiet w w') : places w' = places w := by
  funext p
  cases p with
  | ready c => exact congrFun h.ready c
  | starved c => exact congrFun h.starved c
  | cpu c => simp only [Scheduler.places, h.pc, h.current, h.idleTask]
  | kernel t => simp only [Scheduler.places, h.cont]
  | parked => exact h.parked

lemma quiet_modify {f : Task → Task} (hkin : ∀ task, ((f task).isIdle, (f task).parent) = (task.isIdle, task.parent))
    (hstate : ∀ task, (f task).state = .chanWait → task.state = .chanWait) :
    Quiet w (w.modify t f) :=
  ⟨⟨calm_modify hkin hstate, rfl, rfl, rfl⟩, rfl, rfl, rfl⟩

lemma quiet_setState {s : TaskState} (hs : s ≠ .chanWait) : Quiet w (w.setState t s) :=
  quiet_modify (fun _ => rfl) fun _ h => absurd h hs

lemma quiet_setWaiters (ts : List TaskId) : Quiet w (w.setWaiters l ts) :=
  ⟨⟨calm_of_tasks rfl, rfl, rfl, rfl⟩, rfl, rfl, rfl⟩

lemma quiet_orphanChildren : Quiet w (orphanChildren w t) :=
  ⟨⟨calm_orphanChildren, rfl, rfl, rfl⟩, rfl, rfl, rfl⟩

lemma quiet_waitResult (r : ℤ) : Quiet w (w.modify t fun task => { task with waitResult := r }) :=
  quiet_modify (fun _ => rfl) fun _ h => h

lemma quiet_pending (sig : ℕ) : Quiet w (w.modify t fun task =>
    { task with pendingSignals := Function.update task.pendingSignals sig true }) :=
  quiet_modify (fun _ => rfl) fun _ h => h

lemma steady_setReady (ts : List TaskId) : Steady w (w.setReady c ts) :=
  ⟨calm_setReady ts, rfl, rfl, rfl⟩

lemma state_waitResult (r : ℤ) :
    (w.modify t fun task => { task with waitResult := r }).state x = w.state x :=
  state_modify fun _ => rfl

lemma state_exitStatus (status : ℤ) :
    (w.modify t fun task => { task with exitStatus := status }).state x = w.state x :=
  state_modify fun _ => rfl

lemma quiet_exitStatus (status : ℤ) :
    Quiet w (w.modify t fun task => { task with exitStatus := status }) :=
  quiet_modify (fun _ => rfl) fun _ h => h

/-- A relation between states that everything a wake-up is made of stays within. -/
structure Wakes (R : World → World → Prop) : Prop where
  refl : ∀ w, R w w
  trans : ∀ {w w' w''}, R w w' → R w' w'' → R w w''
  pops : ∀ {w l ts}, ts.Sublist (w.waiters l) → R w (w.setWaiters l ts)
  result : ∀ {w t} (r : ℤ), R w (w.modify t fun task => { task with waitResult := r })
  readies : ∀ {w t}, w.state t = some .chanWait → R w (w.setState t .ready)
  exits : ∀ {w t} (status : ℤ), R w (w.modify t fun task => { task with exitStatus := status })
  orphans : ∀ {w t}, R w (orphanChildren w t)

section Closure

variable {R : World → World → Prop} (h : Wakes R)
include h

lemma Wakes.wakeOne (r : ℤ) : R w (wakeOne w l r).2 := by
  rw [Scheduler.wakeOne]
  cases hl : w.waiters l with
  | nil => exact h.refl w
  | cons t ts =>
    dsimp only
    have hpop := h.trans (h.pops (hl ▸ sublist_cons_self t ts)) (h.result (t := t) r)
    split_ifs with hs
    · exact h.trans hpop (h.readies hs)
    · exact hpop

lemma Wakes.wakeStep (r : ℤ) (acc : List TaskId) (w : World) (t : TaskId) :
    R w (wakeStep r (acc, w) t).2 := by
  rw [Scheduler.wakeStep]
  split_ifs with hs
  · exact h.trans (h.result r) (h.readies hs)
  · exact h.result r

lemma Wakes.foldl_wakeStep (r : ℤ) (ts acc : List TaskId) (w : World) :
    R w (ts.foldl (Scheduler.wakeStep r) (acc, w)).2 := by
  induction ts generalizing acc w with
  | nil => exact h.refl w
  | cons t ts ih => exact h.trans (h.wakeStep r acc w t) (ih _ _)

lemma Wakes.wakeAll (r : ℤ) : R w (wakeAll w l r).2 :=
  h.trans (h.pops (nil_sublist _)) (h.foldl_wakeStep r _ _ _)

lemma Wakes.wakeWaitingParent : R w (wakeWaitingParent w t).2 := by
  rw [Scheduler.wakeWaitingParent]
  cases (w.tasks t).bind Task.parent with
  | none => exact h.refl w
  | some parent =>
    dsimp only
    split_ifs
    · exact h.wakeOne 0
    · exact h.refl w

lemma Wakes.retire (status : ℤ) : R w (retire w t status).2 :=
  h.trans (h.trans (h.exits status) h.orphans) h.wakeWaitingParent

end Closure

lemma wakes_quiet : Wakes Quiet :=
  ⟨Quiet.refl, Quiet.trans, fun _ => quiet_setWaiters _, quiet_waitResult,
    fun _ => quiet_setState (by decide), quiet_exitStatus, quiet_orphanChildren⟩

lemma wakeOne_woken {r : ℤ} (h : (wakeOne w l r).1 = some t) :
    (∃ ts, w.waiters l = t :: ts) ∧ w.state t = some .chanWait ∧
      (wakeOne w l r).2.state t = some .ready := by
  rw [wakeOne] at h ⊢
  cases hl : w.waiters l with
  | nil => simp [hl] at h
  | cons x ts =>
  rw [hl] at h
  dsimp only at h ⊢
  rw [state_waitResult] at h ⊢
  split_ifs at h with hs
  obtain rfl := some.inj h
  refine ⟨⟨ts, rfl⟩, hs, ?_⟩
  have hs' : w.state x = some .chanWait := hs
  rw [if_pos hs, state_setState_self, state_waitResult]
  exact (congrArg (Option.map fun _ => TaskState.ready) hs')

lemma wakeOne_head {r : ℤ} {ts : List TaskId} (hl : w.waiters l = t :: ts)
    (hs : w.state t = some .chanWait) : (wakeOne w l r).1 = some t := by
  have hs' : (w.setWaiters l ts).state t = some .chanWait := hs
  rw [wakeOne, hl]
  dsimp only
  rw [state_waitResult, if_pos hs']

lemma wakeOne_others {r : ℤ} (h : (wakeOne w l r).1 ≠ some x) :
    (wakeOne w l r).2.state x = w.state x := by
  rw [wakeOne] at h ⊢
  cases hl : w.waiters l with
  | nil => rfl
  | cons t ts =>
  rw [hl] at h
  dsimp only at h ⊢
  rw [state_waitResult] at h ⊢
  split_ifs at h ⊢ with hs
  · have hne : x ≠ t := fun heq => h (congrArg some heq.symm)
    rw [state_setState_of_ne _ hne, state_waitResult]
    rfl
  · rw [state_waitResult]
    rfl

section Rounds

variable (r : ℤ) (acc : List TaskId) (w : World) (t x : TaskId)

/-- What a round of `sched_wake_all_on_channel` does to the states. -/
lemma wakeStep_state : (wakeStep r (acc, w) t).2.state x =
    if x = t ∧ w.state t = some .chanWait then some .ready else w.state x := by
  rw [wakeStep, state_waitResult]
  by_cases hs : w.state t = some .chanWait
  · rw [if_pos hs]
    by_cases hx : x = t
    · subst hx
      rw [if_pos ⟨rfl, hs⟩, state_setState_self, state_waitResult, hs]
      rfl
    · rw [if_neg fun h => hx h.1, state_setState_of_ne _ hx, state_waitResult]
  · rw [if_neg hs, if_neg fun h => hs h.2, state_waitResult]

lemma wakeStep_woken : (wakeStep r (acc, w) t).1 =
    acc ++ if w.state t = some .chanWait then [t] else [] := by
  rw [wakeStep, state_waitResult]
  split_ifs
  · rfl
  · exact (append_nil _).symm

end Rounds

/-- The tasks that a wake-up of all makes ready: those that were waiting, each once. -/
structure AllWoken (ts : List TaskId) (w : World) (woken : List TaskId) (w' : World) : Prop where
  quiet : Quiet w w'
  nodup : woken.Nodup
  mem : ∀ t, t ∈ woken ↔ t ∈ ts ∧ w.state t = some .chanWait
  state : ∀ t, w'.state t = if t ∈ woken then some .ready else w.state t

lemma foldl_wakeStep (r : ℤ) (ts acc : List TaskId) (w : World) :
    ∃ woken, (ts.foldl (wakeStep r) (acc, w)).1 = acc ++ woken ∧
      AllWoken ts w woken (ts.foldl (wakeStep r) (acc, w)).2 := by
  induction ts generalizing acc w with
  | nil => exact ⟨[], (append_nil acc).symm, Quiet.refl w, nodup_nil, by simp, by simp⟩
  | cons t ts ih =>
  rw [foldl_cons]
  have hquiet := wakes_quiet.wakeStep r acc w t
  have hstate := wakeStep_state r acc w t
  obtain ⟨woken, hacc, hall⟩ := ih (wakeStep r (acc, w) t).1 (wakeStep r (acc, w) t).2
  have hacc' := hacc.trans (congrArg (· ++ woken) (wakeStep_woken r acc w t))
  by_cases hs : w.state t = some .chanWait
  · rw [if_pos hs, append_assoc] at hacc'
    have hnot : t ∉ woken := by
      rw [hall.mem, hstate, if_pos ⟨rfl, hs⟩]
      exact fun h => absurd h.2 (by decide)
    refine ⟨t :: woken, hacc', hquiet.trans hall.quiet, nodup_cons.mpr ⟨hnot, hall.nodup⟩,
      fun x => ?_, fun x => ?_⟩
    · rw [mem_cons, mem_cons, hall.mem, hstate]
      by_cases hx : x = t
      · simp [hx, hs]
      · simp [hx]
    · rw [hall.state, hstate]
      by_cases hx : x = t
      · simp [hx, hs]
      · simp [hx]
  · have hsame : ∀ x, (wakeStep r (acc, w) t).2.state x = w.state x := fun x => by
      rw [hstate, if_neg fun h => hs h.2]
    rw [if_neg hs, append_nil] at hacc'
    refine ⟨woken, hacc', hquiet.trans hall.quiet, hall.nodup, fun x => ?_, fun x => ?_⟩
    · rw [hall.mem, hsame, mem_cons]
      by_cases hx : x = t
      · simp [hx, hs]
      · simp [hx]
    · rw [hall.state, hsame]

lemma wakeAll_spec (w : World) (l : WaitList) (r : ℤ) :
    AllWoken (w.waiters l) w (wakeAll w l r).1 (wakeAll w l r).2 := by
  obtain ⟨woken, hacc, hall⟩ := foldl_wakeStep r (w.waiters l) [] (w.setWaiters l [])
  rw [nil_append] at hacc
  rw [wakeAll, hacc]
  exact ⟨(quiet_setWaiters []).trans hall.quiet, hall.nodup, hall.mem, hall.state⟩

lemma deliverFrom_kept (sigs : List ℕ) (task : Task) :
    (deliverFrom sigs task).2.isIdle = task.isIdle ∧
      (deliverFrom sigs task).2.parent = task.parent ∧
      (deliverFrom sigs task).2.state = task.state := by
  induction sigs generalizing task with
  | nil => exact ⟨rfl, rfl, rfl⟩
  | cons sig sigs ih =>
    rw [deliverFrom]
    dsimp only
    split_ifs
    · exact ⟨rfl, rfl, rfl⟩
    · exact ih _
    · exact ih _

lemma delivered_kept {o : Option ℕ} {task : Task}
    (h : (w.tasks t).map deliverSignals = some (o, task)) :
    ∃ old, w.tasks t = some old ∧ task.isIdle = old.isIdle ∧ task.parent = old.parent ∧
      task.state = old.state := by
  obtain ⟨old, hold, hdeliver⟩ := map_eq_some_iff.mp h
  have hkept := deliverFrom_kept (List.range' 1 (maxSignals - 1)) old
  rw [← deliverSignals, hdeliver] at hkept
  exact ⟨old, hold, hkept⟩

/-- The delivery of signals leaves the state to what follows. -/
lemma quiet_delivered {o : Option ℕ} {task : Task}
    (h : (w.tasks t).map deliverSignals = some (o, task)) : Quiet w (w.modify t fun _ => task) := by
  obtain ⟨old, hold, hidle, hparent, hstate⟩ := delivered_kept h
  have hsame : w.modify t (fun _ => task) = w.modify t fun k =>
      { task with isIdle := k.isIdle, parent := k.parent, state := k.state } := by
    rw [World.modify, World.modify, hold, map_some, map_some]
    rw [← hidle, ← hparent, ← hstate]
  rw [hsame]
  exact quiet_modify (fun _ => rfl) fun _ h => h

lemma quiet_foldl_ready (ts : List TaskId) (w : World) :
    Quiet w (ts.foldl (fun w t => w.setState t .ready) w) := by
  induction ts generalizing w with
  | nil => exact Quiet.refl w
  | cons t ts ih => exact (quiet_setState (by decide)).trans (ih _)

end QuietSteps

end GrahaOS.Scheduler
