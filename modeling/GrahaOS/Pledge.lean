import GrahaOS.Masks
import GrahaOS.Runs
import GrahaOS.Token

/-!
# Pledge masks of tasks

`kernel/cap/pledge.c` and everything else that writes a pledge mask: process creation, `SYS_SPAWN`,
`SYS_EXEC`, the narrowing spawn of `SYS_PLEDGE`, snapshot restore and transaction abort. A system
call is one transition. What the calls do besides is represented by the outcome of those parts where
it decides whether the call goes on.

Task ids are never given out twice: a new task takes `nextTaskId`, and the record carries the fact
that no task has an id from there on.
-/

namespace GrahaOS.Pledge

open Masks Token

def pledgeAll : BitVec 16 := 0x3FFF#16
def pledgeReservedMask : BitVec 16 := 0xC000#16

/-! `PLEDGE_CLASS_*`: the classes that the modelled calls ask for. -/

def classSpawn : ℕ := 4
def classSysQuery : ℕ := 7
def classSysControl : ℕ := 8

def pledgeMaskAllows (mask : BitVec 16) (classBit : ℕ) : Bool :=
  mask &&& (1#16 <<< classBit) != 0#16

/-- `pledge_narrow`: the new mask, or the refusal. -/
def pledgeNarrow (old newMask : BitVec 16) : Except CapError (BitVec 16) :=
  if newMask = 0#16 then .error .einval
  else if newMask &&& pledgeReservedMask ≠ 0#16 then .error .einval
  else if old &&& newMask ≠ newMask then .error .eperm
  else .ok newMask

theorem pledgeNarrow_within {old newMask mask : BitVec 16} (h : pledgeNarrow old newMask = .ok mask) :
    Within mask old := by
  unfold pledgeNarrow at h
  split_ifs at h with hzero hreserved hsub
  obtain rfl : newMask = mask := by simpa using h
  simpa [Within] using hsub

/-- `snapshot_task_entry_t`: the pledge part of a captured task. -/
structure TaskCapture where
  pid : ℕ
  pledgeSnapshot : BitVec 64

/-- The part of `task_t` that decides about pledges. `activeTxn` lists the backing
snapshots of the open transactions, innermost first. -/
structure TaskRecord where
  pledgeMask : BitVec 16
  activeTxn : List (List TaskCapture)
  zombie : Bool
  isIdle : Bool

/-- The task table with the pid hash, and the live snapshots by id. -/
structure System where
  tasks : ℕ → Option TaskRecord
  nextTaskId : ℕ
  taskCount : ℕ
  snaps : ℕ → Option (List TaskCapture)
  nextSnapId : ℕ
  fresh : ∀ pid, nextTaskId ≤ pid → tasks pid = none

namespace System

/-- Applying a function to a task, if it exists. -/
def updateTask (s : System) (pid : ℕ) (f : TaskRecord → TaskRecord) : System :=
  { s with
    tasks := Function.update s.tasks pid ((s.tasks pid).map f)
    fresh := by
      intro q hq
      by_cases h : q = pid
      · subst q
        simp [s.fresh pid hq]
      · simpa [h] using s.fresh q hq }

/-- `pid_hash_insert` of a task with the next id. -/
def addTask (s : System) (t : TaskRecord) : System :=
  { s with
    tasks := Function.update s.tasks s.nextTaskId (some t)
    nextTaskId := s.nextTaskId + 1
    taskCount := s.taskCount + 1
    fresh := by
      intro q hq
      have hne : q ≠ s.nextTaskId := by omega
      simpa [hne] using s.fresh q (by omega) }

def removeTask (s : System) (pid : ℕ) : System :=
  { s with
    tasks := Function.update s.tasks pid none
    taskCount := s.taskCount - 1
    fresh := by
      intro q hq
      by_cases h : q = pid
      · simp [h]
      · simpa [h] using s.fresh q hq }

def setSnap (s : System) (id : ℕ) (entries : Option (List TaskCapture)) : System :=
  { s with snaps := Function.update s.snaps id entries }

def addSnap (s : System) (entries : List TaskCapture) : System :=
  { s with
    snaps := Function.update s.snaps s.nextSnapId (some entries)
    nextSnapId := s.nextSnapId + 1 }

end System

def rlimitMaxTasks : ℕ := 10240

/-- How the parts of process creation outside the model end: the path and the image,
the task slab, the kernel and user stacks. -/
structure Outcome where
  loads : Bool
  slab : Bool
  stack : Bool

variable (s : System)

/-- `sched_create_user_process`. The task is in the table before its stacks are
allocated; if that fails it stays there, never to run, and no pid is returned. -/
def createUserProcess (o : Outcome) : Option ℕ × System :=
  if maxTasks ≤ s.nextTaskId then (none, s)
  else if rlimitMaxTasks ≤ s.taskCount then (none, s)
  else if o.slab = false then (none, s)
  else (if o.stack then some s.nextTaskId else none, s.addTask ⟨pledgeAll, [], false, false⟩)

/-- `sched_spawn_process`: the child takes over its parent's mask. -/
def spawnProcess (o : Outcome) (parentId : ℕ) : Option ℕ × System :=
  if o.loads = false then (none, s)
  else match createUserProcess s o with
    | (none, s') => (none, s')
    | (some pid, s') =>
      match s'.tasks parentId with
      | none => (some pid, s')
      | some parent =>
        (some pid, s'.updateTask pid fun t => { t with pledgeMask := parent.pledgeMask })

def snapScopeSelf : BitVec 32 := 0x1#32
def snapScopeGlobal : BitVec 32 := 0x2#32
def snapScopeValidMask : BitVec 32 := 0x7#32
def snapTasksMax : ℕ := 64

/-- `snap_capture_one_task`. -/
def captureTask (pid : ℕ) (t : TaskRecord) : TaskCapture := ⟨pid, t.pledgeMask.setWidth 64⟩

/-- `snap_run_capture`: every task that is neither a zombie nor idle for the global
scope, at most `SNAP_TASKS_MAX` of them, else the caller alone. -/
def runCapture (scopeFlags : BitVec 32) (caller : ℕ) (self : TaskRecord) :
    Option (List TaskCapture) :=
  if scopeFlags &&& snapScopeGlobal ≠ 0#32 then
    let captured := (List.range s.nextTaskId).filterMap fun pid =>
      (s.tasks pid).bind fun t => if t.zombie || t.isIdle then none else some (captureTask pid t)
    if captured.length ≤ snapTasksMax then some captured else none
  else some [captureTask caller self]

/-- The task part of `snap_restore_internal`. -/
def restoreTasks (s : System) : List TaskCapture → System
  | [] => s
  | te :: rest =>
    if te.pid = 0 then restoreTasks s rest
    else restoreTasks
      (s.updateTask te.pid fun t => { t with pledgeMask := te.pledgeSnapshot.setWidth 16 }) rest

def txnMaxNesting : ℕ := 4
def txnFlagGlobalScope : BitVec 32 := 0x2#32
def txnFlagValidMask : BitVec 32 := 0x73#32

/-- The calls of a run. Truth values are the outcomes of the parts outside the model:
`valid` the argument checks of the narrowing spawn, `captured` and `installed` the
allocations of a capture and its handle, `barrier` the scheduler barrier, `system` the
system capability, `drained` the delivery of the buffered sends. -/
inductive Op
  | pledge (caller : ℕ) (newMask : BitVec 16)
  | narrowExec (caller : ℕ) (newPledges : BitVec 16) (valid : Bool) (o : Outcome)
  | spawn (caller : ℕ) (o : Outcome)
  | exec (caller : ℕ) (o : Outcome)
  | snapCreate (caller : ℕ) (scopeFlags : BitVec 32) (captured installed : Bool)
  | snapRestore (caller snapId : ℕ) (barrier : Bool)
  | snapDelete (caller snapId : ℕ)
  | txnBegin (caller : ℕ) (flags : BitVec 32) (system captured installed : Bool)
  | txnCommit (caller : ℕ) (drained : Bool)
  | txnAbort (caller : ℕ) (barrier : Bool)
  | exit (caller : ℕ)
  | reap (pid : ℕ)

/-- The task that makes the call, if its mask allows the classes the call asks for. -/
def admitted (caller : ℕ) (classes : List ℕ) : Option TaskRecord :=
  (s.tasks caller).bind fun t =>
    if classes.all (pledgeMaskAllows t.pledgeMask) then some t else none

def sysPledge (caller : ℕ) (newMask : BitVec 16) : System :=
  match s.tasks caller with
  | none => s
  | some t =>
    match pledgeNarrow t.pledgeMask newMask with
    | .error _ => s
    | .ok mask => s.updateTask caller fun t => { t with pledgeMask := mask }

/-- `SYS_PLEDGE` with `PLEDGE_FLAG_NARROW_EXEC`. -/
def sysNarrowExec (caller : ℕ) (newPledges : BitVec 16) (valid : Bool)
    (o : Outcome) : Option ℕ × System :=
  match s.tasks caller with
  | none => (none, s)
  | some t =>
    let childMask := newPledges &&& pledgeAll
    if valid = false ∨ childMask = 0#16 then (none, s)
    else if t.pledgeMask &&& childMask ≠ childMask then (none, s)
    else match spawnProcess s o caller with
      | (none, s') => (none, s')
      | (some pid, s') => (some pid, s'.updateTask pid fun t => { t with pledgeMask := childMask })

def sysSpawn (caller : ℕ) (o : Outcome) : Option ℕ × System :=
  match admitted s caller [classSpawn] with
  | none => (none, s)
  | some _ => spawnProcess s o caller

def sysExec (caller : ℕ) (o : Outcome) : Option ℕ × System :=
  match admitted s caller [classSpawn] with
  | none => (none, s)
  | some _ => if o.loads then createUserProcess s o else (none, s)

def sysSnapCreate (caller : ℕ) (scopeFlags : BitVec 32) (captured installed : Bool) : System :=
  match admitted s caller [classSysControl, classSysQuery] with
  | none => s
  | some t =>
    if scopeFlags &&& ~~~snapScopeValidMask ≠ 0#32 then s
    else if scopeFlags &&& (snapScopeSelf ||| snapScopeGlobal) = 0#32 then s
    else match runCapture s scopeFlags caller t with
      | none => s
      | some entries => if captured && installed then s.addSnap entries else s

def sysSnapRestore (caller snapId : ℕ) (barrier : Bool) : System :=
  match admitted s caller [classSysControl], s.snaps snapId with
  | some _, some entries => if barrier then restoreTasks s entries else s
  | _, _ => s

def sysSnapDelete (caller snapId : ℕ) : System :=
  match admitted s caller [classSysControl] with
  | none => s
  | some _ => s.setSnap snapId none

def sysTxnBegin (caller : ℕ) (flags : BitVec 32) (system captured installed : Bool) : System :=
  match admitted s caller [classSysControl] with
  | none => s
  | some t =>
    if flags &&& ~~~txnFlagValidMask ≠ 0#32 then s
    else if flags &&& txnFlagGlobalScope ≠ 0#32 ∧ system = false then s
    else if txnMaxNesting ≤ t.activeTxn.length then s
    else
      let scope := if flags &&& txnFlagGlobalScope ≠ 0#32 then
        snapScopeSelf ||| snapScopeGlobal else snapScopeSelf
      match runCapture s scope caller t with
      | none => s
      | some entries =>
        if captured && installed then
          s.updateTask caller fun t => { t with activeTxn := entries :: t.activeTxn }
        else s

/-- `txn_commit` of the innermost transaction: the snapshot is dropped once the
buffered sends are delivered; until then the transaction stays open. -/
def sysTxnCommit (caller : ℕ) (drained : Bool) : System :=
  match admitted s caller [classSysControl] with
  | none => s
  | some _ =>
    if drained then s.updateTask caller fun t => { t with activeTxn := t.activeTxn.tail } else s

/-- `txn_abort` of the innermost transaction: its snapshot is restored and dropped. A
restore that fails does not stop the teardown. -/
def sysTxnAbort (caller : ℕ) (barrier : Bool) : System :=
  match admitted s caller [classSysControl] with
  | none => s
  | some t =>
    match t.activeTxn with
    | [] => s
    | entries :: _ =>
      (if barrier then restoreTasks s entries else s).updateTask caller
        fun t => { t with activeTxn := t.activeTxn.tail }

/-- A call and its effect: the pid of the process it created, if any. -/
def perform : Op → Option ℕ × System
  | .pledge caller newMask => (none, sysPledge s caller newMask)
  | .narrowExec caller newPledges valid o => sysNarrowExec s caller newPledges valid o
  | .spawn caller o => sysSpawn s caller o
  | .exec caller o => sysExec s caller o
  | .snapCreate caller scopeFlags captured installed =>
    (none, sysSnapCreate s caller scopeFlags captured installed)
  | .snapRestore caller snapId barrier => (none, sysSnapRestore s caller snapId barrier)
  | .snapDelete caller snapId => (none, sysSnapDelete s caller snapId)
  | .txnBegin caller flags system captured installed =>
    (none, sysTxnBegin s caller flags system captured installed)
  | .txnCommit caller drained => (none, sysTxnCommit s caller drained)
  | .txnAbort caller barrier => (none, sysTxnAbort s caller barrier)
  | .exit caller =>
    (none, s.updateTask caller fun t => { t with zombie := true, activeTxn := [] })
  | .reap pid => (none, s.removeTask pid)

/-- The task that makes the call. -/
def Op.caller : Op → ℕ
  | .pledge caller _ => caller
  | .narrowExec caller _ _ _ => caller
  | .spawn caller _ => caller
  | .exec caller _ => caller
  | .snapCreate caller _ _ _ => caller
  | .snapRestore caller _ _ => caller
  | .snapDelete caller _ => caller
  | .txnBegin caller _ _ _ _ => caller
  | .txnCommit caller _ => caller
  | .txnAbort caller _ => caller
  | .exit caller => caller
  | .reap pid => pid

def step (op : Op) : System := (perform s op).2

end GrahaOS.Pledge
