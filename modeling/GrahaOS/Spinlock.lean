import GrahaOS.Runs

/-!
# Spinlocks

A spinlock records its owner by CPU number and counts how often that CPU has taken it. The code
reads its CPU number before it disables interrupts. A step is one access to the lock by a task on
some CPU; a task whose interrupts are enabled may be switched out between two of them and be resumed
on another CPU. An interrupt handler is a task that starts with its interrupts disabled.

`depth` and `saved` are not in the source: how many acquires a task has not released yet, and the
interrupt flag that the outermost of them has read.
-/

namespace GrahaOS.Spinlock

abbrev TaskId := ℕ

abbrev CpuId := ℕ

/-- The fields of `spinlock_t` that decide what the code does. Of the saved RFLAGS only the
interrupt flag is ever looked at, and `none` is the owner `(uint64_t)-1`. -/
structure Lock where
  locked : Bool := false
  owner : Option CpuId := none
  count : ℕ := 0
  interruptState : Bool := false
  deriving DecidableEq

/-- `count` is a `uint32_t`. -/
def countRange : ℕ := 2 ^ 32

inductive Panic where
  | budgetExceeded
  | releaseOfUnheld
  | releaseFromNonOwner
  deriving DecidableEq

/-- Where a task is in the code of the lock. `timed` is set in the variant that gives up. -/
inductive Pc where
  | idle
  /-- the CPU number is in a register, and before the read of `locked` -/
  | readLocked (timed : Bool) (cpuId : CpuId)
  | readOwner (timed : Bool) (cpuId : CpuId)
  | readCount
  | writeCount (n : ℕ)
  /-- before the `pushfq` -/
  | pushFlags (timed : Bool) (cpuId : CpuId)
  /-- before the `cli` -/
  | disable (timed : Bool) (cpuId : CpuId) (flags : Bool)
  | testAndSet (timed : Bool) (cpuId : CpuId) (flags : Bool)
  | spin (timed : Bool) (cpuId : CpuId) (flags : Bool)
  | storeState (cpuId : CpuId) (flags : Bool)
  | storeOwner (cpuId : CpuId)
  | storeCount
  /-- the timed variant has run out of time, and before it restores the flag -/
  | giveUp (flags : Bool)
  | relReadLocked (cpuId : CpuId)
  | relReadOwner (cpuId : CpuId)
  | relReadCount
  | relWriteCount (n : ℕ)
  | relReadState
  | relClearOwner (flags : Bool)
  | relClearState (flags : Bool)
  | relUnlock (flags : Bool)
  /-- before the `sti` -/
  | relRestore (flags : Bool)
  | panicked (reason : Panic)
  deriving DecidableEq

/-- The CPU number that the code holds in a register. -/
def Pc.cpuId : Pc → Option CpuId
  | .readLocked _ k | .readOwner _ k | .pushFlags _ k | .disable _ k _ | .testAndSet _ k _
  | .spin _ k _ | .storeState k _ | .storeOwner k | .relReadLocked k | .relReadOwner k => some k
  | _ => none

structure Task where
  cpu : Option CpuId := none
  enabled : Bool := true
  pc : Pc := .idle
  depth : ℕ := 0
  saved : Bool := false

/-- The next access to the lock, or the next instruction on the interrupt flag. -/
def microstep (l : Lock) (x : Task) : Lock × Task :=
  match x.pc with
  | .idle => (l, x)
  | .readLocked timed k =>
    (l, { x with pc := if l.locked then .readOwner timed k else .pushFlags timed k })
  | .readOwner timed k =>
    (l, { x with pc := if l.owner = some k then .readCount else .pushFlags timed k })
  | .readCount => (l, { x with pc := .writeCount ((l.count + 1) % countRange) })
  | .writeCount n => ({ l with count := n }, { x with pc := .idle, depth := x.depth + 1 })
  | .pushFlags timed k =>
    (l, { x with
      pc := .disable timed k x.enabled
      saved := if x.depth = 0 then x.enabled else x.saved })
  | .disable timed k flags => (l, { x with pc := .testAndSet timed k flags, enabled := false })
  | .testAndSet timed k flags =>
    if l.locked then (l, { x with pc := .spin timed k flags })
    else ({ l with locked := true }, { x with pc := .storeState k flags })
  | .spin _ k flags =>
    if l.locked then (l, x)
    else ({ l with locked := true }, { x with pc := .storeState k flags })
  | .storeState k flags => ({ l with interruptState := flags }, { x with pc := .storeOwner k })
  | .storeOwner k => ({ l with owner := some k }, { x with pc := .storeCount })
  | .storeCount => ({ l with count := 1 }, { x with pc := .idle, depth := x.depth + 1 })
  | .giveUp flags => (l, { x with pc := .idle, enabled := x.enabled || flags })
  | .relReadLocked k =>
    (l, { x with pc := if l.locked then .relReadOwner k else .panicked .releaseOfUnheld })
  | .relReadOwner k =>
    (l, { x with
      pc := if l.owner = some k then .relReadCount else .panicked .releaseFromNonOwner })
  | .relReadCount =>
    (l, { x with pc := .relWriteCount ((l.count + countRange - 1) % countRange) })
  | .relWriteCount n =>
    ({ l with count := n },
      if 0 < n then { x with pc := .idle, depth := x.depth - 1 } else { x with pc := .relReadState })
  | .relReadState => (l, { x with pc := .relClearOwner l.interruptState })
  | .relClearOwner flags => ({ l with owner := none }, { x with pc := .relClearState flags })
  | .relClearState flags => ({ l with interruptState := false }, { x with pc := .relUnlock flags })
  | .relUnlock flags =>
    ({ l with locked := false }, { x with pc := .relRestore flags, depth := x.depth - 1 })
  | .relRestore flags => (l, { x with pc := .idle, enabled := x.enabled || flags })
  | .panicked _ => (l, x)

/-- The budget has run out while the task spins: the timed variant gives up, the other one
panics. -/
def overrun (x : Task) : Task :=
  match x.pc with
  | .spin true _ flags => { x with pc := .giveUp flags }
  | .spin false _ _ => { x with pc := .panicked .budgetExceeded }
  | _ => x

structure Machine where
  lock : Lock := {}
  tasks : TaskId → Task := fun _ => {}
  current : CpuId → Option TaskId := fun _ => none

def Machine.setTask (m : Machine) (t : TaskId) (x : Task) : Machine :=
  { m with tasks := Function.update m.tasks t x }

def Machine.setCurrent (m : Machine) (c : CpuId) (t : Option TaskId) : Machine :=
  { m with current := Function.update m.current c t }

/-- What a task may do on its CPU. -/
inductive Act where
  /-- the code around the lock enables or disables interrupts -/
  | setFlag (enabled : Bool)
  | acquire (timed : Bool)
  | release
  | advance
  | overrun
  deriving DecidableEq

/-- An act of a task on CPU `c`. The first thing that a call does is to read the number of its
CPU; a task that matches its acquires with releases calls `release` when it is inside. -/
def act (l : Lock) (x : Task) (c : CpuId) : Act → Lock × Task
  | .setFlag enabled => (l, if x.pc = .idle ∧ x.depth = 0 then { x with enabled } else x)
  | .acquire timed => (l, if x.pc = .idle then { x with pc := .readLocked timed c } else x)
  | .release => (l, if x.pc = .idle ∧ 0 < x.depth then { x with pc := .relReadLocked c } else x)
  | .advance => microstep l x
  | .overrun => (l, overrun x)

inductive Op where
  | dispatch (t : TaskId) (c : CpuId)
  | preempt (t : TaskId)
  | does (t : TaskId) (a : Act)
  deriving DecidableEq

/-- A task leaves its CPU where its interrupts are enabled, or of its own accord where it has
nothing to do with the lock. -/
def Task.mayLeave (x : Task) : Bool := x.enabled || (decide (x.pc = .idle) && decide (x.depth = 0))

/-- Any task may take the next step at any time. An operation that is not possible changes
nothing. -/
def step (m : Machine) : Op → Machine
  | .dispatch t c =>
    if (m.tasks t).cpu = none ∧ m.current c = none then
      (m.setTask t { m.tasks t with cpu := some c }).setCurrent c (some t)
    else m
  | .preempt t =>
    match (m.tasks t).cpu with
    | none => m
    | some c =>
      if (m.tasks t).mayLeave then (m.setTask t { m.tasks t with cpu := none }).setCurrent c none
      else m
  | .does t a =>
    match (m.tasks t).cpu with
    | none => m
    | some c =>
      { m.setTask t (act m.lock (m.tasks t) c a).2 with lock := (act m.lock (m.tasks t) c a).1 }

/-- No task has called for the lock, and no task is on a CPU. -/
def booted : Machine := {}

end GrahaOS.Spinlock
