import GrahaOS.Runs

/-!
# Open files, pipes and the descriptors of tasks

Each task has a table of sixteen descriptors. A descriptor names an entry of the global table of
open files or one end of a pipe, and those count the descriptors that name them. An index into a
global table is only ever stored by the call that has allocated the entry, so it is in range here by
its type. What a file or a pipe contains is left out.
-/

namespace GrahaOS.OpenFiles

abbrev maxOpenFiles : ℕ := 64

abbrev maxPipes : ℕ := 16

abbrev procMaxFds : ℕ := 16

def maxTasks : ℕ := 10240

/-- The counters of a pipe are of type `uint8_t`. -/
def byteRange : ℕ := 256

abbrev TaskId := ℕ

abbrev FdIndex := Fin procMaxFds

instance : NeZero procMaxFds := ⟨by decide⟩

inductive PipeEnd where
  | read
  | write
  deriving DecidableEq

/-- What a descriptor may name. -/
inductive Target where
  | file (i : Fin maxOpenFiles)
  | pipe (i : Fin maxPipes) (e : PipeEnd)
  deriving DecidableEq

/-- `proc_fd_t`. -/
inductive ProcFd where
  | unused
  | console
  | open (k : Target)
  deriving DecidableEq

def ProcFd.target : ProcFd → Option Target
  | .open k => some k
  | _ => none

def ProcFd.isFile : ProcFd → Bool
  | .open (.file _) => true
  | _ => false

def ProcFd.isPipe : ProcFd → Bool
  | .open (.pipe _ _) => true
  | _ => false

structure OpenFile where
  inUse : Bool := false
  refcount : ℕ := 0
  deriving DecidableEq

structure Pipe where
  inUse : Bool := false
  readers : ℕ := 0
  writers : ℕ := 0
  deriving DecidableEq

structure Task where
  zombie : Bool := false
  fdTable : FdIndex → ProcFd

structure World where
  files : Fin maxOpenFiles → OpenFile := fun _ => {}
  pipes : Fin maxPipes → Pipe := fun _ => {}
  tasks : TaskId → Option Task := fun _ => none
  nextTaskId : TaskId := 0

namespace World

def setFile (w : World) (i : Fin maxOpenFiles) (file : OpenFile) : World :=
  { w with files := Function.update w.files i file }

def setPipe (w : World) (i : Fin maxPipes) (p : Pipe) : World :=
  { w with pipes := Function.update w.pipes i p }

def setTask (w : World) (t : TaskId) (x : Option Task) : World :=
  { w with tasks := Function.update w.tasks t x }

/-- The descriptor `f` of a task, where there is such a task. -/
def fd (w : World) (t : TaskId) (f : FdIndex) : ProcFd :=
  match w.tasks t with
  | none => .unused
  | some x => x.fdTable f

def setFd (w : World) (t : TaskId) (f : FdIndex) (d : ProcFd) : World :=
  w.setTask t ((w.tasks t).map fun x => { x with fdTable := Function.update x.fdTable f d })

end World

variable (w : World)

/-- `vfs_open` of a path that names a file. -/
def vfsOpen : World × Option (Fin maxOpenFiles) :=
  match (List.finRange maxOpenFiles).find? fun i => !(w.files i).inUse with
  | none => (w, none)
  | some i => (w.setFile i { inUse := true, refcount := 1 }, some i)

def vfsClose (i : Fin maxOpenFiles) : World :=
  if (w.files i).inUse then
    if 1 < (w.files i).refcount then
      w.setFile i { w.files i with refcount := (w.files i).refcount - 1 }
    else w.setFile i { inUse := false, refcount := 0 }
  else w

def vfsRefInc (i : Fin maxOpenFiles) : World :=
  if (w.files i).inUse then
    w.setFile i { w.files i with refcount := (w.files i).refcount + 1 }
  else w

/-- `created` tells whether the channel of the pipe could be created. -/
def pipeAlloc (created : Bool) : World × Option (Fin maxPipes) :=
  match (List.finRange maxPipes).find? fun i => !(w.pipes i).inUse with
  | none => (w, none)
  | some i =>
    if created then (w.setPipe i { inUse := true, readers := 1, writers := 1 }, some i)
    else (w, none)

def Pipe.refInc (p : Pipe) : PipeEnd → Pipe
  | .read => { p with readers := (p.readers + 1) % byteRange }
  | .write => { p with writers := (p.writers + 1) % byteRange }

/-- A counter at zero stays there. -/
def Pipe.refDec (p : Pipe) : PipeEnd → Pipe
  | .read => { p with readers := p.readers - 1 }
  | .write => { p with writers := p.writers - 1 }

/-- The end of `pipe_ref_dec`. -/
def Pipe.freeUnused (p : Pipe) : Pipe :=
  if p.readers = 0 ∧ p.writers = 0 then { p with inUse := false } else p

def pipeRefInc (i : Fin maxPipes) (e : PipeEnd) : World :=
  if (w.pipes i).inUse then w.setPipe i ((w.pipes i).refInc e) else w

def pipeRefDec (i : Fin maxPipes) (e : PipeEnd) : World :=
  if (w.pipes i).inUse then w.setPipe i ((w.pipes i).refDec e).freeUnused else w

def refInc : Target → World
  | .file i => vfsRefInc w i
  | .pipe i e => pipeRefInc w i e

def refDec : Target → World
  | .file i => vfsClose w i
  | .pipe i e => pipeRefDec w i e

/-- What `SYS_CLOSE`, `SYS_DUP2` and `SYS_EXIT` do with a descriptor before they overwrite it. -/
def releaseFd : ProcFd → World
  | .open k => refDec w k
  | _ => w

/-- The end of `SYS_DUP` and `SYS_DUP2`. -/
def storeCopy (t : TaskId) (f : FdIndex) (d : ProcFd) : World :=
  match d with
  | .open k => refInc (w.setFd t f d) k
  | _ => w.setFd t f d

def freeFds (x : Task) : List FdIndex :=
  (List.finRange procMaxFds).filter fun f => x.fdTable f = .unused

/-- `found` tells whether the path names a file. -/
def sysOpen (t : TaskId) (found : Bool) : World :=
  match w.tasks t with
  | none => w
  | some x =>
    if found then
      match vfsOpen w with
      | (w, none) => w
      | (w, some i) =>
        match freeFds x with
        | [] => vfsClose w i
        | f :: _ => w.setFd t f (.open (.file i))
    else w

def sysPipe (t : TaskId) (created : Bool) : World :=
  match w.tasks t with
  | none => w
  | some x =>
    match pipeAlloc w created with
    | (w, none) => w
    | (w, some i) =>
      match freeFds x with
      | readFd :: writeFd :: _ =>
        (w.setFd t readFd (.open (.pipe i .read))).setFd t writeFd (.open (.pipe i .write))
      | _ => pipeRefDec (pipeRefDec w i .read) i .write

/-- The descriptor is closed unless it is the console or unused. -/
def sysClose (t : TaskId) (f : FdIndex) : World :=
  match w.fd t f with
  | .open k => (releaseFd w (.open k)).setFd t f .unused
  | _ => w

def sysDup2 (t : TaskId) (oldFd newFd : FdIndex) : World :=
  if w.fd t oldFd = .unused ∨ oldFd = newFd then w
  else storeCopy (releaseFd w (w.fd t newFd)) t newFd (w.fd t oldFd)

def sysDup (t : TaskId) (oldFd : FdIndex) : World :=
  match w.tasks t with
  | none => w
  | some x =>
    if x.fdTable oldFd = .unused then w
    else
      match freeFds x with
      | [] => w
      | f :: _ => storeCopy w t f (x.fdTable oldFd)

/-- The table of a new user task, with the console in the first three places. -/
def freshTable : FdIndex → ProcFd := fun f => if f.val < 3 then .console else .unused

/-- One turn of the loop of `sched_spawn_process` over the descriptors that a child inherits. -/
def inheritFd (parent child : TaskId) (w : World) (f : FdIndex) : World :=
  match w.fd parent f with
  | .unused => w
  | .open (.pipe i e) => pipeRefInc (w.setFd child f (.open (.pipe i e))) i e
  | d => w.setFd child f d

def stdFds : List FdIndex := [0, 1, 2]

/-- `loaded` tells whether the program could be loaded; a task without parent is spawned by the
kernel. -/
def schedSpawnProcess (parent : Option TaskId) (loaded : Bool) : World :=
  if loaded ∧ w.nextTaskId < maxTasks then
    let child := w.nextTaskId
    let w' := { w.setTask child (some { fdTable := freshTable }) with nextTaskId := child + 1 }
    match parent with
    | none => w'
    | some p => if (w.tasks p).isSome then stdFds.foldl (inheritFd p child) w' else w'
  else w

/-- One turn of the loop of `SYS_EXIT`. -/
def exitFd (t : TaskId) (w : World) (f : FdIndex) : World :=
  (releaseFd w (w.fd t f)).setFd t f .unused

def sysExit (t : TaskId) : World :=
  match w.tasks t with
  | none => w
  | some x =>
    if x.zombie then w
    else
      let w' := (List.finRange procMaxFds).foldl (exitFd t) w
      w'.setTask t ((w'.tasks t).map fun x => { x with zombie := true })

/-- The end of a task by a signal or an exception. -/
def kill (t : TaskId) : World :=
  w.setTask t ((w.tasks t).map fun x => { x with zombie := true })

/-- One turn of the loop of `sched_reap_zombie`, which looks at files alone. -/
def reapFd (t : TaskId) (w : World) (f : FdIndex) : World :=
  match w.fd t f with
  | .open (.file i) => (vfsClose w i).setFd t f .unused
  | _ => w

def schedReapZombie (t : TaskId) : World :=
  match w.tasks t with
  | none => w
  | some x =>
    if x.zombie then ((List.finRange procMaxFds).foldl (reapFd t) w).setTask t none else w

inductive Op where
  | openFile (t : TaskId) (found : Bool)
  | pipe (t : TaskId) (created : Bool)
  | close (t : TaskId) (f : FdIndex)
  | dup (t : TaskId) (oldFd : FdIndex)
  | dup2 (t : TaskId) (oldFd newFd : FdIndex)
  | spawn (parent : Option TaskId) (loaded : Bool)
  | exit (t : TaskId)
  | kill (t : TaskId)
  | reap (t : TaskId)
  deriving DecidableEq

def step : Op → World
  | .openFile t found => sysOpen w t found
  | .pipe t created => sysPipe w t created
  | .close t f => sysClose w t f
  | .dup t oldFd => sysDup w t oldFd
  | .dup2 t oldFd newFd => sysDup2 w t oldFd newFd
  | .spawn parent loaded => schedSpawnProcess w parent loaded
  | .exit t => sysExit w t
  | .kill t => kill w t
  | .reap t => schedReapZombie w t

/-- No task, and nothing is open. -/
def booted : World := {}

end GrahaOS.OpenFiles
