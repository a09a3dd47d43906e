import GrahaOS.Runs

/-!
# The scheduler on several CPUs

The scheduler with its run queues, the lists of tasks that wait for a channel, signals, the end of
tasks and the barrier of snapshots. A step is a section that the source executes under one lock, or
between two accesses to memory that CPUs share. A CPU inside `schedule` is at a point `Pc`; the code
that a task executes in the kernel is at a point `Cont` of its own, so that a task may be switched
out there and go on elsewhere. A step may be taken by any CPU at any time: locks only make fewer
interleavings possible.
-/

namespace GrahaOS.Scheduler

open Function

abbrev TaskId := ℕ

abbrev CpuId := ℕ

inductive TaskState where
  | zombie
  | ready
  | running
  | blocked
  | chanWait
  | starved
  | barrierWait
  deriving DecidableEq

/-- What a task does with a signal; a handler of its own is not called yet. -/
inductive Handler where
  | dfl
  | ign
  | custom
  deriving DecidableEq

/-- The fields of `task_t` that the scheduler reads. -/
structure Task where
  state : TaskState
  parent : Option TaskId
  isIdle : Bool := false
  cpuPinned : Option CpuId := none
  lastRanCpu : Option CpuId := none
  deadline : ℕ := 0
  waitResult : ℤ := 0
  pendingSignals : ℕ → Bool := fun _ => false
  signalHandlers : ℕ → Handler := fun _ => .dfl
  exitStatus : ℤ := 0

/-- The heads of lists of waiting tasks: those of channels and other objects, and the one that
each task has for its children. -/
inductive WaitList where
  | object (id : ℕ)
  | child (parent : TaskId)
  deriving DecidableEq

/-- Where a task is in the code that it executes in the kernel. -/
inductive Cont where
  | user
  /-- `sched_block_on_channel` has linked the task, and before its `int $49` -/
  | linked (l : WaitList)
  /-- after the `int $49` -/
  | blocking (l : WaitList)
  /-- tasks that are made ready, before `sched_enqueue_ready` -/
  | waking (ts : List TaskId)
  | killing (target : TaskId) (woken : Option TaskId)
  /-- `SYS_EXIT` has stored the state, and before `wake_waiting_parent` -/
  | exiting
  /-- an exception of the user program, before the state is stored -/
  | dying (woken : Option TaskId)
  | creating (child : TaskId)
  /-- `sched_reap_zombie`, which looks at the CPUs from `i` on -/
  | reaping (t : TaskId) (i : CpuId)
  /-- `snap_begin_barrier` has set the flag -/
  | begun
  | polling (i : CpuId)
  /-- `snap_begin_barrier` has returned success -/
  | holding
  /-- `snap_end_barrier` has taken the list of barrier `seq`, and before it clears the flag -/
  | ending (seq : ℕ) (ts : List TaskId)
  | releasing (seq : ℕ) (ts : List TaskId)
  deriving DecidableEq

/-- Where a CPU is in `schedule`; `active` is the flag of the barrier as it was read. -/
inductive Pc where
  | out
  | scan (i : TaskId)
  | load
  | loaded (active : Bool)
  | save (active : Bool)
  | park
  | starve
  | yield (active : Bool)
  | requeue (active : Bool)
  | pick (active : Bool)
  | picked (next : Option TaskId)
  | dispatch (next : TaskId)
  | install (next : TaskId)
  | deliver
  | notify (woken : Option TaskId)
  | replace
  | replaced (next : TaskId)
  | reinstall (next : TaskId)
  | halted
  deriving DecidableEq

structure World where
  cpuCount : ℕ
  idleTask : CpuId → TaskId
  tasks : TaskId → Option Task
  cont : TaskId → Cont
  nextTaskId : TaskId
  taskCount : ℕ
  ready : CpuId → List TaskId
  starved : CpuId → List TaskId
  current : CpuId → TaskId
  pc : CpuId → Pc
  waiters : WaitList → List TaskId
  timerTicks : ℕ
  barrierFlag : Bool
  ownerTask : Option TaskId
  parked : List TaskId
  barrierSeq : ℕ

def maxTasks : ℕ := 10240

def rlimitMaxTasks : ℕ := 10240

def sigkill : ℕ := 2

def maxSignals : ℕ := 16

namespace World

variable (w : World)

def state (t : TaskId) : Option TaskState := (w.tasks t).map Task.state

def isIdle (t : TaskId) : Bool := ((w.tasks t).map Task.isIdle).getD false

def modify (t : TaskId) (f : Task → Task) : World :=
  { w with tasks := Function.update w.tasks t ((w.tasks t).map f) }

def setState (t : TaskId) (s : TaskState) : World :=
  w.modify t fun task => { task with state := s }

def setPc (c : CpuId) (pc : Pc) : World :=
  { w with pc := Function.update w.pc c pc }

def setCont (t : TaskId) (cont : Cont) : World :=
  { w with cont := Function.update w.cont t cont }

def setReady (c : CpuId) (ts : List TaskId) : World :=
  { w with ready := Function.update w.ready c ts }

def setStarved (c : CpuId) (ts : List TaskId) : World :=
  { w with starved := Function.update w.starved c ts }

def setCurrent (c : CpuId) (t : TaskId) : World :=
  { w with current := Function.update w.current c t }

def setWaiters (l : WaitList) (ts : List TaskId) : World :=
  { w with waiters := Function.update w.waiters l ts }

@[simp] lemma setPc_self (c : CpuId) (pc : Pc) : (w.setPc c pc).pc c = pc :=
  update_self ..

variable {w : World} {c d : CpuId}

lemma setPc_of_ne (pc : Pc) (h : d ≠ c) : (w.setPc c pc).pc d = w.pc d :=
  update_of_ne h ..

@[simp] lemma setCont_self (w : World) (t : TaskId) (cont : Cont) :
    (w.setCont t cont).cont t = cont :=
  update_self ..

lemma setCont_of_ne {t x : TaskId} (cont : Cont) (h : x ≠ t) :
    (w.setCont t cont).cont x = w.cont x :=
  update_of_ne h ..

@[simp] lemma setReady_self (w : World) (c : CpuId) (ts : List TaskId) :
    (w.setReady c ts).ready c = ts :=
  update_self ..

lemma setReady_of_ne (ts : List TaskId) (h : d ≠ c) : (w.setReady c ts).ready d = w.ready d :=
  update_of_ne h ..

@[simp] lemma setCurrent_self (w : World) (c : CpuId) (t : TaskId) :
    (w.setCurrent c t).current c = t :=
  update_self ..

lemma setCurrent_of_ne (t : TaskId) (h : d ≠ c) : (w.setCurrent c t).current d = w.current d :=
  update_of_ne h ..

@[simp] lemma setWaiters_self (w : World) (l : WaitList) (ts : List TaskId) :
    (w.setWaiters l ts).waiters l = ts :=
  update_self ..

lemma setWaiters_of_ne {l l' : WaitList} (ts : List TaskId) (h : l' ≠ l) :
    (w.setWaiters l ts).waiters l' = w.waiters l' :=
  update_of_ne h ..

end World

variable (w : World)

/-- The CPU that a task is routed to: the one it is pinned to, the one it ran on, or the first. -/
def targetCpu (t : TaskId) : CpuId :=
  (w.tasks t).elim 0 fun task =>
    (task.cpuPinned.filter (· < w.cpuCount)).getD
      ((task.lastRanCpu.filter (· < w.cpuCount)).getD 0)

/-- `sched_enqueue_ready`, with `runq_enqueue_ready`. -/
def enqueueReady (t : TaskId) : World :=
  (w.setReady (targetCpu w t) (w.ready (targetCpu w t) ++ [t])).setState t .ready

/-- `splice_tail_to_thief` on the reversed queue of the victim: the tasks taken and those left. -/
def spliceTail (stealable : TaskId → Bool) : ℕ → List TaskId → List TaskId × List TaskId
  | 0, ts => ([], ts)
  | _ + 1, [] => ([], [])
  | n + 1, t :: ts =>
    if stealable t then
      let (taken, left) := spliceTail stealable n ts
      (t :: taken, left)
    else
      let (taken, left) := spliceTail stealable (n + 1) ts
      (taken, t :: left)

/-- A task that is pinned to another CPU stays. -/
def stealableBy (thief : CpuId) (t : TaskId) : Bool :=
  ((w.tasks t).bind Task.cpuPinned).elim true (· = thief)

/-- `sched_steal_from_busiest` from the victim that it finds. -/
def stealFrom (thief victim : CpuId) : World :=
  if victim = thief ∨ (w.ready victim).length ≤ 1 then w else
  let (taken, left) := spliceTail (stealableBy w thief) ((w.ready victim).length / 2)
    (w.ready victim).reverse
  (w.setReady victim left.reverse).setReady thief (taken.reverse ++ w.ready thief)

def runqRefillStarved (c : CpuId) : World :=
  (w.starved c).foldl (fun w t => w.setState t .ready)
    ((w.setReady c (w.ready c ++ w.starved c)).setStarved c [])

/-- The part of `sched_wake_one_on_channel` under the lock: the first task leaves the list, and
becomes ready if it is still waiting. -/
def wakeOne (l : WaitList) (waitResult : ℤ) : Option TaskId × World :=
  match w.waiters l with
  | [] => (none, w)
  | t :: ts =>
    let w := (w.setWaiters l ts).modify t fun task => { task with waitResult := waitResult }
    if w.state t = some .chanWait then (some t, w.setState t .ready) else (none, w)

/-- One round of the loop of `sched_wake_all_on_channel`. -/
def wakeStep (waitResult : ℤ) (r : List TaskId × World) (t : TaskId) : List TaskId × World :=
  let w := r.2.modify t fun task => { task with waitResult := waitResult }
  if w.state t = some .chanWait then (r.1 ++ [t], w.setState t .ready) else (r.1, w)

/-- The part of `sched_wake_all_on_channel` under the lock. -/
def wakeAll (l : WaitList) (waitResult : ℤ) : List TaskId × World :=
  (w.waiters l).foldl (wakeStep waitResult) ([], w.setWaiters l [])

/-- The deadline of a wait in ticks of 10 ms; without one it is 0. -/
def deadlineTick (timeoutNs : ℕ) : ℕ :=
  if timeoutNs = 0 ∨ timeoutNs = 2 ^ 64 - 1 then 0
  else w.timerTicks + max 1 ((timeoutNs + 9999999) % 2 ^ 64 / 10000000)

/-- The first part of `sched_block_on_channel`: the task links itself. -/
def blockOnChannel (t : TaskId) (l : WaitList) (timeoutNs : ℕ) : World :=
  ((w.setWaiters l (t :: w.waiters l)).modify t fun task =>
    { task with
      waitResult := 0
      deadline := deadlineTick w timeoutNs
      state := .chanWait }).setCont t (.linked l)

def maxWalk : ℕ := 256

/-- The walk at the end of `sched_block_on_channel`: it gives up, and cuts the list, after 256
entries. -/
def unlink (ts : List TaskId) (t : TaskId) : List TaskId :=
  if ts.idxOf t ≤ maxWalk then ts.erase t else ts.take maxWalk

/-- The last part of `sched_block_on_channel`. -/
def resume (t : TaskId) (l : WaitList) : World :=
  ((w.setWaiters l (unlink (w.waiters l) t)).modify t fun task =>
    { task with deadline := 0 }).setCont t .user

/-- One round of the scan for deadlines in `schedule`. -/
def expire (t : TaskId) : World :=
  (w.tasks t).elim w fun task =>
    if task.state = .chanWait ∧ task.deadline ≠ 0 ∧ task.deadline ≤ w.timerTicks then
      enqueueReady (w.modify t fun task => { task with waitResult := -110, state := .ready }) t
    else w

def orphanChildren (parent : TaskId) : World :=
  { w with tasks := fun t => (w.tasks t).map fun task =>
      if task.parent = some parent ∧ task.state ≠ .zombie then { task with parent := some 0 }
      else task }

def wakeWaitingParent (child : TaskId) : Option TaskId × World :=
  match (w.tasks child).bind Task.parent with
  | none => (none, w)
  | some parent => if (w.tasks parent).isSome then wakeOne w (.child parent) 0 else (none, w)

/-- The loop of `sched_deliver_signals`: the signal that terminates the task, if one does. -/
def deliverFrom : List ℕ → Task → Option ℕ × Task
  | [], task => (none, task)
  | sig :: sigs, task =>
    if task.pendingSignals sig then
      let task := { task with pendingSignals := Function.update task.pendingSignals sig false }
      if task.signalHandlers sig = .dfl then (some sig, { task with exitStatus := 128 + sig })
      else deliverFrom sigs task
    else deliverFrom sigs task

def deliverSignals (task : Task) : Option ℕ × Task :=
  deliverFrom (List.range' 1 (maxSignals - 1)) task

/-- What ends a task, up to the store of its state: its status, its children and its parent. -/
def retire (t : TaskId) (exitStatus : ℤ) : Option TaskId × World :=
  wakeWaitingParent (orphanChildren
    (w.modify t fun task => { task with exitStatus := exitStatus }) t) t

/-- The end of `sched_reap_zombie`. -/
def free (t : TaskId) : World :=
  { w with tasks := Function.update w.tasks t none, taskCount := w.taskCount - 1 }

/-- What `schedule` takes from its surroundings: whether the budget of the outgoing task is used
up, and the victim that a search for work finds. -/
structure Choice where
  exhausted : Bool := false
  victim : Option CpuId := none

/-- The task that leaves the CPU. -/
def saveOutgoing (c : CpuId) (active exhausted : Bool) : Pc :=
  if w.state (w.current c) = some .running then
    if active ∧ ¬ w.isIdle (w.current c) then .park
    else if exhausted ∧ ¬ w.isIdle (w.current c) then .starve
    else .yield active
  else .pick active

/-- The idle task, where nothing else is there to run. -/
def idleOr (c : CpuId) (next : TaskId → Pc) : Pc :=
  if w.state (w.idleTask c) = some .zombie then .halted else next (w.idleTask c)

/-- The first task of the queue of a CPU. -/
def dequeue (c : CpuId) : Option TaskId × World :=
  match w.ready c with
  | [] => (none, w)
  | t :: ts => (some t, w.setReady c ts)

/-- The queue of the CPU, after a search for work where it is empty. -/
def findWork (c : CpuId) (victim : Option CpuId) : World :=
  if w.ready c = [] then victim.elim w (stealFrom w c) else w

/-- The next step of a CPU that is inside `schedule`. -/
def scheduleStep (c : CpuId) (choice : Choice) : World :=
  match w.pc c with
  | .out => w
  | .scan i =>
    if i < w.nextTaskId then (expire w i).setPc c (.scan (i + 1)) else w.setPc c .load
  | .load => w.setPc c (.loaded w.barrierFlag)
  | .loaded active =>
    if active ∧ w.ownerTask = some (w.current c) then w.setPc c .out else w.setPc c (.save active)
  | .save active => w.setPc c (saveOutgoing w c active choice.exhausted)
  | .park =>
    ({ w with parked := w.current c :: w.parked }.setState (w.current c) .barrierWait).setPc c
      (.pick true)
  | .starve =>
    ((w.setStarved c (w.current c :: w.starved c)).setState (w.current c) .starved).setPc c
      (.pick false)
  | .yield active =>
    (w.setState (w.current c) .ready).setPc c
      (if w.isIdle (w.current c) then .pick active else .requeue active)
  | .requeue active => (enqueueReady w (w.current c)).setPc c (.pick active)
  | .pick active =>
    if active then w.setPc c (.picked none)
    else
      let (next, w) := dequeue (findWork w c choice.victim) c
      w.setPc c (.picked next)
  | .picked next =>
    w.setPc c (match next.filter fun t => w.state t ≠ some .zombie with
      | some t => .dispatch t
      | none => idleOr w c .dispatch)
  | .dispatch next => (w.setState next .running).setPc c (.install next)
  | .install next =>
    ((w.setCurrent c next).modify next fun task => { task with lastRanCpu := some c }).setPc c
      .deliver
  | .deliver =>
    match (w.tasks (w.current c)).map deliverSignals with
    | none => w.setPc c .out
    | some (none, task) => (w.modify (w.current c) fun _ => task).setPc c .out
    | some (some _, task) =>
      let (woken, w) := retire (w.modify (w.current c) fun _ => task) (w.current c) task.exitStatus
      w.setPc c (.notify woken)
  | .notify (some t) => (enqueueReady w t).setPc c (.notify none)
  | .notify none => (w.setState (w.current c) .zombie).setPc c .replace
  | .replace =>
    match dequeue w c with
    | (none, w) => w.setPc c (idleOr w c .replaced)
    | (some t, w) => w.setPc c (if w.state t = some .zombie then .halted else .replaced t)
  | .replaced next => (w.setState next .running).setPc c (.reinstall next)
  | .reinstall next => (w.setCurrent c next).setPc c .out
  | .halted => w

/-- The task whose code a CPU executes; the code of idle tasks does nothing. -/
def executing (c : CpuId) : Option TaskId :=
  if w.pc c = .out ∧ w.current c ≠ w.idleTask c then some (w.current c) else none

/-- The next step of the code that task `t` executes in the kernel on CPU `c`. -/
def contStep (c : CpuId) (t : TaskId) : World :=
  match w.cont t with
  | .user | .linked _ | .holding => w
  | .blocking l => if w.state t = some .chanWait then w else resume w t l
  | .waking [] => w.setCont t .user
  | .waking (x :: xs) => (enqueueReady w x).setCont t (.waking xs)
  | .killing target (some x) => (enqueueReady w x).setCont t (.killing target none)
  | .killing target none => (w.setState target .zombie).setCont t .user
  | .exiting =>
    let (woken, w) := wakeWaitingParent w t
    w.setCont t (.waking woken.toList)
  | .dying (some x) => (enqueueReady w x).setCont t (.dying none)
  | .dying none => (w.setState t .zombie).setCont t .user
  | .creating child => (w.setState child .ready).setCont t (.waking [child])
  | .reaping x i =>
    if i < w.cpuCount then
      if w.current i = x then w.setCont t .user else w.setCont t (.reaping x (i + 1))
    else (free w x).setCont t .user
  | .begun =>
    { w with
      parked := []
      ownerTask := some t
      barrierSeq := w.barrierSeq + 1 }.setCont t (.polling 0)
  | .polling i =>
    if i < w.cpuCount then
      if i = c ∨ w.current i = w.idleTask i then w.setCont t (.polling (i + 1))
      else w.setCont t (.polling 0)
    else w.setCont t .holding
  | .ending seq ts => { w with barrierFlag := false }.setCont t (.releasing seq ts)
  | .releasing _ [] => w.setCont t .user
  | .releasing seq (x :: xs) =>
    (enqueueReady (w.setState x .ready) x).setCont t (.releasing seq xs)

/-- System calls mask interrupts; the barrier is only used in them. -/
def Cont.masked : Cont → Bool
  | .begun | .polling _ | .ending _ _ | .releasing _ _ => true
  | _ => false

/-- The `int $49` of `sched_block_on_channel` is behind the task. -/
def Cont.interrupted : Cont → Cont
  | .linked l => .blocking l
  | cont => cont

/-- A CPU enters `schedule`; the first one begins with the deadlines. -/
def enter (c : CpuId) : World :=
  (w.setCont (w.current c) (w.cont (w.current c)).interrupted).setPc c
    (if c = 0 then .scan 0 else .load)

/-- A new task is blocked until it is complete; tasks of the kernel stay on the first CPU. -/
def newTask (parent : TaskId) (kernel : Bool) : Task where
  state := .blocked
  parent := some parent
  cpuPinned := if kernel then some 0 else none

/-- The first part of `sched_create_task` and `sched_create_user_process`. -/
def createTask (t : TaskId) (kernel : Bool) : World :=
  if maxTasks ≤ w.nextTaskId ∨ (!kernel ∧ rlimitMaxTasks ≤ w.taskCount) then w else
  { w with
    tasks := Function.update w.tasks w.nextTaskId (some (newTask t kernel))
    nextTaskId := w.nextTaskId + 1
    taskCount := w.taskCount + 1 }.setCont t (.creating w.nextTaskId)

/-- What the code that a task executes does next. -/
inductive Call where
  | block (l : WaitList) (timeoutNs : ℕ)
  | wakeOne (l : WaitList) (waitResult : ℤ)
  | wakeAll (l : WaitList) (waitResult : ℤ)
  | kill (target : TaskId)
  | signal (target : TaskId) (sig : ℕ)
  | setHandler (sig : ℕ) (handler : Handler)
  | exit (status : ℤ)
  | crash (exitStatus : ℤ)
  | create (kernel : Bool)
  | createFails (kernel : Bool)
  | reap (child : TaskId)
  | refill (cpu : CpuId)
  | beginBarrier
  | barrierTimeout
  | endBarrier

/-- The first step of a call of task `t`, or one that does not follow from where the task is. -/
def callStep (t : TaskId) : Call → World
  | .block l timeoutNs => if w.cont t = .user then blockOnChannel w t l timeoutNs else w
  | .wakeOne l waitResult =>
    if w.cont t = .user then
      let (woken, w) := wakeOne w l waitResult
      w.setCont t (.waking woken.toList)
    else w
  | .wakeAll l waitResult =>
    if w.cont t = .user then
      let (woken, w) := wakeAll w l waitResult
      w.setCont t (.waking woken)
    else w
  | .kill target =>
    if w.cont t = .user ∧ (w.tasks target).isSome ∧ w.state target ≠ some .zombie then
      let (woken, w) := retire w target (128 + sigkill)
      w.setCont t (.killing target woken)
    else w
  | .signal target sig =>
    if w.cont t = .user ∧ 1 ≤ sig ∧ sig < maxSignals ∧ sig ≠ sigkill ∧
        (w.tasks target).isSome ∧ w.state target ≠ some .zombie then
      let w := w.modify target fun task =>
        { task with pendingSignals := Function.update task.pendingSignals sig true }
      if w.state target = some .blocked then
        (w.setState target .ready).setCont t (.waking [target])
      else w
    else w
  | .setHandler sig handler =>
    if w.cont t = .user ∧ 1 ≤ sig ∧ sig < maxSignals ∧ sig ≠ sigkill then
      w.modify t fun task =>
        { task with signalHandlers := Function.update task.signalHandlers sig handler }
    else w
  | .exit status =>
    if w.cont t = .user ∧ w.state t ≠ some .zombie then
      ((orphanChildren (w.modify t fun task => { task with exitStatus := status }) t).setState t
        .zombie).setCont t .exiting
    else w
  | .crash exitStatus =>
    if w.cont t = .user then
      let (woken, w) := retire w t exitStatus
      w.setCont t (.dying woken)
    else w
  | .create kernel => if w.cont t = .user then createTask w t kernel else w
  | .createFails kernel =>
    match w.cont t with
    | .creating child => (if kernel then w.setState child .zombie else w).setCont t .user
    | _ => w
  | .reap child =>
    if w.cont t = .user ∧ (w.tasks child).bind Task.parent = some t ∧
        w.state child = some .zombie then w.setCont t (.reaping child 0)
    else w
  | .refill cpu => if w.cont t = .user then runqRefillStarved w cpu else w
  | .beginBarrier =>
    if w.cont t = .user ∧ !w.barrierFlag then { w with barrierFlag := true }.setCont t .begun
    else w
  | .barrierTimeout =>
    match w.cont t with
    | .polling _ => { w with barrierFlag := false }.setCont t .user
    | _ => w
  | .endBarrier =>
    if w.cont t = .holding then
      { w with parked := [], ownerTask := none }.setCont t (.ending w.barrierSeq w.parked)
    else w

inductive Op where
  | tick
  | enter (c : CpuId)
  | schedule (c : CpuId) (choice : Choice)
  | continue (c : CpuId)
  | call (c : CpuId) (call : Call)

def step : Op → World
  | .tick => { w with timerTicks := w.timerTicks + 1 }
  | .enter c =>
    if c < w.cpuCount ∧ w.pc c = .out ∧ (w.cont (w.current c)).masked = false then enter w c else w
  | .schedule c choice => scheduleStep w c choice
  | .continue c => (executing w c).elim w (contStep w c)
  | .call c call => (executing w c).elim w fun t => callStep w t call

/-- The machine with `n` CPUs after its start: each CPU executes its idle task, and one task is
ready on the first. -/
def boot (n : ℕ) : World where
  cpuCount := n
  idleTask := id
  tasks := fun t =>
    if t < n then some { state := .running, parent := none, isIdle := true, cpuPinned := some t }
    else if t = n then some { state := .ready, parent := some 0 } else none
  cont := fun _ => .user
  nextTaskId := n + 1
  taskCount := n + 1
  ready := fun c => if c = 0 then [n] else []
  starved := fun _ => []
  current := id
  pc := fun _ => .out
  waiters := fun _ => []
  timerTicks := 0
  barrierFlag := false
  ownerTask := none
  parked := []
  barrierSeq := 0

/-- A CPU goes through `schedule`; steps that are left over do nothing. -/
def reschedule (c : CpuId) : List Op := .enter c :: List.replicate 20 (.schedule c {})

/-- The task that a CPU executes creates another one. -/
def spawn (c : CpuId) : List Op :=
  [.call c (.create false), .continue c, .continue c, .continue c]

end GrahaOS.Scheduler
