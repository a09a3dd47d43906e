import GrahaOS.FreeRunning
import GrahaOS.Runs
import GrahaOS.Token

/-!
# Submission streams

A stream of `kernel/io`: the two rings that it shares with user space, the tasks that submit
batches, the queue of the worker thread and the jobs that wait for I/O tokens. A step is what a task
does between two accesses to what it shares with others; `stream_post_cqe` takes no lock. User space
writes the submission ring and its head as it likes, and reaps completions one by one. Whether a
handle resolves, whether a job can be allocated and what a dispatcher returns is a choice.
-/

namespace GrahaOS.SubmissionStream

open FreeRunning Token

abbrev TaskId := ℕ

/-- The counters have 32 bits. -/
def wrap : ℕ := 2 ^ 32

/-- The fields of `sqe_t` that decide about a submission. -/
structure Sqe where
  op : ℕ
  len : ℕ
  cookie : ℕ
  deriving DecidableEq

structure Cqe where
  cookie : ℕ
  result : ℤ
  flags : ℕ
  deriving DecidableEq

structure OpSchema where
  op : ℕ
  requiredPledgeMask : BitVec 64

def opReadVmo : ℕ := 1
def opWriteVmo : ℕ := 2

/-- `op_schema_io_v1`: the operations of `grahaos.io.v1` with the pledges they need. -/
def opSchemaIoV1 : List OpSchema :=
  [⟨1, 1 <<< 0⟩, ⟨2, 1 <<< 1⟩, ⟨3, 1 <<< 5⟩, ⟨4, 1 <<< 0⟩, ⟨5, 1 <<< 0⟩, ⟨6, 1 <<< 1⟩, ⟨7, 1 <<< 10⟩]

structure Job where
  sqe : Sqe
  submitter : TaskId
  deriving DecidableEq

/-- Where a task is in `stream_post_cqe`. -/
inductive PostPc where
  | check
  | write (head : ℕ)
  | publish (head : ℕ)
  deriving DecidableEq

/-- Where a task is in `stream_submit_batch`, and where the worker thread is: `i` of `n` entries
are done, and `head` is the head of the ring as it was read. After a post, a batch goes on where it
was, and the worker takes the next job. -/
inductive Pc where
  | idle
  | loop (i n head : ℕ)
  | take (slot i n head : ℕ)
  | taken (sqe : Sqe) (slot i n head : ℕ)
  | linked (sqe : Sqe) (i n head : ℕ)
  | running (job : Job)
  | posting (post : PostPc) (cqe : Cqe) (next : Option (ℕ × ℕ × ℕ))
  deriving DecidableEq

/-- The sizes that `stream_create` accepts. -/
structure Geometry where
  sqBits : ℕ
  cqBits : ℕ
  sq_min : 4 ≤ sqBits
  sq_le_cq : sqBits ≤ cqBits
  sq_max : sqBits ≤ 12
  cq_max : cqBits ≤ 13

def Geometry.sqEntries (g : Geometry) : ℕ := 2 ^ g.sqBits

def Geometry.cqEntries (g : Geometry) : ℕ := 2 ^ g.cqBits

structure Stream where
  geometry : Geometry
  manifest : List OpSchema
  tasks : ℕ
  worker : TaskId
  pledgeMask : TaskId → BitVec 16
  ioRate : TaskId → ℕ
  ioTokens : TaskId → ℤ
  sq : ℕ → Sqe
  sqHead : ℕ
  sqTail : ℕ
  sqTailKernel : ℕ
  cq : ℕ → Cqe
  cqHead : ℕ
  cqTail : ℕ
  cqHeadKernel : ℕ
  queue : List Job
  pending : TaskId → List Job
  activeJobs : ℕ
  pc : TaskId → Pc

/-- What a step takes from the rest of the kernel. -/
structure Choice where
  destResolves : Bool := true
  allocates : Bool := true
  result : ℤ := 0

namespace Stream

def setPc (s : Stream) (t : TaskId) (pc : Pc) : Stream :=
  { s with pc := Function.update s.pc t pc }

@[simp] lemma setPc_self (s : Stream) (t : TaskId) (pc : Pc) : (s.setPc t pc).pc t = pc :=
  Function.update_self ..

lemma setPc_of_ne {s : Stream} {t u : TaskId} (pc : Pc) (h : u ≠ t) :
    (s.setPc t pc).pc u = s.pc u :=
  Function.update_of_ne h ..

end Stream

/-- A length as the signed number that the token bucket compares. -/
def asInt64 (n : ℕ) : ℤ := if n % 2 ^ 64 < 2 ^ 63 then (n % 2 ^ 64 : ℕ) else (n % 2 ^ 64 : ℕ) - 2 ^ 64

variable (s : Stream)

/-- The checks of `stream_submit_batch`: the code of the rejection. -/
def validate (t : TaskId) (sqe : Sqe) (destResolves : Bool) : Option CapError :=
  (s.manifest.find? (·.op = sqe.op)).elim (some .eprototype) fun schema =>
    if schema.requiredPledgeMask ≠ 0 ∧
        (s.pledgeMask t).setWidth 64 &&& schema.requiredPledgeMask = 0 then some .epledge
    else if (sqe.op = opReadVmo ∨ sqe.op = opWriteVmo) ∧ destResolves = false then some .ebadf
    else none

/-- `rlimit_check_io`, for the operations that move data. -/
def needsTokens (t : TaskId) (sqe : Sqe) : Bool :=
  (sqe.op = opReadVmo ∨ sqe.op = opWriteVmo) ∧ 0 < sqe.len ∧ s.ioRate t ≠ 0

def debit (t : TaskId) (sqe : Sqe) : Stream :=
  { s with ioTokens := Function.update s.ioTokens t (s.ioTokens t - asInt64 sqe.len) }

/-- The end of a round of `stream_submit_batch`: the job waits for tokens, or goes to the worker. -/
def handOff (t : TaskId) (sqe : Sqe) : Stream :=
  let job : Job := ⟨sqe, t⟩
  if needsTokens s t sqe then
    if asInt64 sqe.len ≤ s.ioTokens t then
      { debit s t sqe with queue := s.queue ++ [job] }
    else { s with pending := Function.update s.pending t (job :: s.pending t) }
  else { s with queue := s.queue ++ [job] }

/-- The loop of `rlimit_refill_io_tokens`: the tokens left, the jobs that go to the worker, and
those that wait on. -/
def drain : ℤ → List Job → ℤ × List Job × List Job
  | tokens, [] => (tokens, [], [])
  | tokens, job :: jobs =>
    if tokens < asInt64 job.sqe.len then (tokens, [], job :: jobs)
    else
      let (tokens, moved, left) := drain (tokens - asInt64 job.sqe.len) jobs
      (tokens, job :: moved, left)

/-- The tokens of a task after a tick, with the burst of one second as the limit. -/
def refilled (t : TaskId) : ℤ :=
  min (s.ioTokens t + max (s.ioRate t / 100 : ℕ) 1) (s.ioRate t)

def refillIoTokens (t : TaskId) : Stream :=
  if s.ioRate t = 0 then s else
  let (tokens, moved, left) := drain (refilled s t) (s.pending t)
  { s with
    ioTokens := Function.update s.ioTokens t tokens
    queue := s.queue ++ moved
    pending := Function.update s.pending t left }

/-- Where a task goes on after `stream_post_cqe`. -/
def resume : Option (ℕ × ℕ × ℕ) → Pc
  | none => .idle
  | some (i, n, head) => .loop i n head

/-- The next step of `stream_post_cqe`. -/
def postStep (t : TaskId) (cqe : Cqe) (next : Option (ℕ × ℕ × ℕ)) : PostPc → Stream
  | .check =>
    if s.geometry.cqEntries ≤ distance wrap s.cqHeadKernel s.cqTail then s.setPc t (resume next)
    else s.setPc t (.posting (.write s.cqHeadKernel) cqe next)
  | .write head =>
    { s with cq := Function.update s.cq (head % s.geometry.cqEntries) cqe }.setPc t
      (.posting (.publish head) cqe next)
  | .publish head =>
    { s with
      cqHead := (head + 1) % wrap
      cqHeadKernel := (head + 1) % wrap }.setPc t (resume next)

/-- The worker thread takes the first job of its queue. -/
def workerPop : Stream :=
  match s.queue with
  | [] => s
  | job :: jobs => { s with queue := jobs }.setPc s.worker (.running job)

/-- The next step of a task in `stream_submit_batch`, or of the worker thread. -/
def taskStep (t : TaskId) (choice : Choice) : Stream :=
  match s.pc t with
  | .idle => if t = s.worker then workerPop s else s
  | .loop i n head =>
    if i < n ∧ s.sqTailKernel ≠ head then s.setPc t (.take s.sqTailKernel i n head)
    else { s with sqTail := s.sqTailKernel }.setPc t .idle
  | .take slot i n head =>
    { s with sqTailKernel := (slot + 1) % wrap }.setPc t
      (.taken (s.sq (slot % s.geometry.sqEntries)) slot i n head)
  | .taken sqe slot i n head =>
    match validate s t sqe choice.destResolves with
    | some e => s.setPc t (.posting .check ⟨sqe.cookie, e.code, 0⟩ (some (i + 1, n, head)))
    | none =>
      if choice.allocates then
        { s with activeJobs := s.activeJobs + 1 }.setPc t (.linked sqe (i + 1) n head)
      else { s with sqTailKernel := slot }.setPc t (.loop n n head)
  | .linked sqe i n head => (handOff s t sqe).setPc t (.loop i n head)
  | .running job =>
    { s with activeJobs := s.activeJobs - 1 }.setPc t
      (.posting .check ⟨job.sqe.cookie, choice.result, 0⟩ none)
  | .posting post cqe next => postStep s t cqe next post

inductive Op where
  | writeSqe (slot : ℕ) (sqe : Sqe)
  | setSqHead (head : ℕ)
  | reap
  | submit (t : TaskId) (n : ℕ)
  | refill (t : TaskId)
  | task (t : TaskId) (choice : Choice)

def step : Op → Stream
  | .writeSqe slot sqe => { s with sq := Function.update s.sq slot sqe }
  | .setSqHead head => { s with sqHead := head }
  | .reap => if s.cqTail = s.cqHead then s else { s with cqTail := (s.cqTail + 1) % wrap }
  | .submit t n =>
    if s.pc t = .idle ∧ t ≠ s.worker ∧ t < s.tasks ∧ n ≤ s.geometry.sqEntries then
      s.setPc t (.loop 0 n s.sqHead)
    else s
  | .refill t => if t < s.tasks then refillIoTokens s t else s
  | .task t choice => if t < s.tasks then taskStep s t choice else s

/-- A stream after `stream_create`, with tasks of any pledges and limits. -/
def create (geometry : Geometry) (manifest : List OpSchema) (tasks : ℕ) (worker : TaskId)
    (pledgeMask : TaskId → BitVec 16) (ioRate : TaskId → ℕ) : Stream where
  geometry := geometry
  manifest := manifest
  tasks := tasks
  worker := worker
  pledgeMask := pledgeMask
  ioRate := ioRate
  ioTokens := fun t => ioRate t
  sq := fun _ => ⟨0, 0, 0⟩
  sqHead := 0
  sqTail := 0
  sqTailKernel := 0
  cq := fun _ => ⟨0, 0, 0⟩
  cqHead := 0
  cqTail := 0
  cqHeadKernel := 0
  queue := []
  pending := fun _ => []
  activeJobs := 0
  pc := fun _ => .idle

/-- The entry that the kernel consumes for good, with its number in the ring, and the completions
that become visible to user space, that are dropped, and that user space reads. -/
structure Events where
  consumed : Option (ℕ × Sqe) := none
  posted : Option Cqe := none
  dropped : Option Cqe := none
  reaped : Option Cqe := none

def taskEvents (t : TaskId) (choice : Choice) : Events :=
  match s.pc t with
  | .taken sqe slot _ _ _ =>
    if (validate s t sqe choice.destResolves).isSome ∨ choice.allocates then
      { consumed := some (slot, sqe) }
    else {}
  | .posting .check cqe _ =>
    if s.geometry.cqEntries ≤ distance wrap s.cqHeadKernel s.cqTail then { dropped := some cqe }
    else {}
  | .posting (.publish _) cqe _ => { posted := some cqe }
  | _ => {}

def events : Op → Events
  | .reap =>
    if s.cqTail = s.cqHead then {}
    else { reaped := some (s.cq (s.cqTail % s.geometry.cqEntries)) }
  | .task t choice => if t < s.tasks then taskEvents s t choice else {}
  | _ => {}

/-- What has happened on a stream. -/
structure Log where
  consumed : List (ℕ × Sqe) := []
  posted : List Cqe := []
  dropped : List Cqe := []
  reaped : List Cqe := []

def Log.add (log : Log) (e : Events) : Log where
  consumed := log.consumed ++ e.consumed.toList
  posted := log.posted ++ e.posted.toList
  dropped := log.dropped ++ e.dropped.toList
  reaped := log.reaped ++ e.reaped.toList

@[simp] lemma Log.add_empty (log : Log) : log.add {} = log := by
  simp [Log.add]

def loggedStep (x : Stream × Log) (op : Op) : Stream × Log :=
  (step x.1 op, x.2.add (events x.1 op))

/-- What a step can do. -/
inductive Steps (s : Stream) : Op → Stream → Events → Prop
  | stays {op} : Steps s op s {}
  | writeSqe (slot sqe) :
    Steps s (.writeSqe slot sqe) { s with sq := Function.update s.sq slot sqe } {}
  | setSqHead (head) : Steps s (.setSqHead head) { s with sqHead := head } {}
  | reap (hunread : s.cqTail ≠ s.cqHead) :
    Steps s .reap { s with cqTail := (s.cqTail + 1) % wrap }
      { reaped := some (s.cq (s.cqTail % s.geometry.cqEntries)) }
  | submit {t n} (hidle : s.pc t = .idle) (hworker : t ≠ s.worker) (ht : t < s.tasks) :
    Steps s (.submit t n) (s.setPc t (.loop 0 n s.sqHead)) {}
  | refill {t} (ht : t < s.tasks) : Steps s (.refill t) (refillIoTokens s t) {}
  | pop {choice job jobs} (ht : s.worker < s.tasks) (hidle : s.pc s.worker = .idle)
      (hqueue : s.queue = job :: jobs) :
    Steps s (.task s.worker choice) ({ s with queue := jobs }.setPc s.worker (.running job)) {}
  | round {t choice i n head} (ht : t < s.tasks) (hpc : s.pc t = .loop i n head) :
    Steps s (.task t choice) (s.setPc t (.take s.sqTailKernel i n head)) {}
  | ends {t choice i n head} (ht : t < s.tasks) (hpc : s.pc t = .loop i n head) :
    Steps s (.task t choice) ({ s with sqTail := s.sqTailKernel }.setPc t .idle) {}
  | takes {t choice slot i n head} (ht : t < s.tasks) (hpc : s.pc t = .take slot i n head) :
    Steps s (.task t choice) ({ s with sqTailKernel := (slot + 1) % wrap }.setPc t
      (.taken (s.sq (slot % s.geometry.sqEntries)) slot i n head)) {}
  | rejects {t choice sqe slot i n head} (ht : t < s.tasks)
      (hpc : s.pc t = .taken sqe slot i n head) (e : CapError) :
    Steps s (.task t choice)
      (s.setPc t (.posting .check ⟨sqe.cookie, e.code, 0⟩ (some (i + 1, n, head))))
      { consumed := some (slot, sqe) }
  | links {t choice sqe slot i n head} (ht : t < s.tasks)
      (hpc : s.pc t = .taken sqe slot i n head) :
    Steps s (.task t choice)
      ({ s with activeJobs := s.activeJobs + 1 }.setPc t (.linked sqe (i + 1) n head))
      { consumed := some (slot, sqe) }
  | fails {t choice sqe slot i n head} (ht : t < s.tasks)
      (hpc : s.pc t = .taken sqe slot i n head) :
    Steps s (.task t choice) ({ s with sqTailKernel := slot }.setPc t (.loop n n head)) {}
  | hands {t choice sqe i n head} (ht : t < s.tasks) (hpc : s.pc t = .linked sqe i n head) :
    Steps s (.task t choice) ((handOff s t sqe).setPc t (.loop i n head)) {}
  | runs {t choice job} (ht : t < s.tasks) (hpc : s.pc t = .running job) :
    Steps s (.task t choice) ({ s with activeJobs := s.activeJobs - 1 }.setPc t
      (.posting .check ⟨job.sqe.cookie, choice.result, 0⟩ none)) {}
  | drops {t choice cqe next} (ht : t < s.tasks) (hpc : s.pc t = .posting .check cqe next)
      (hfull : s.geometry.cqEntries ≤ distance wrap s.cqHeadKernel s.cqTail) :
    Steps s (.task t choice) (s.setPc t (resume next)) { dropped := some cqe }
  | begins {t choice cqe next} (ht : t < s.tasks) (hpc : s.pc t = .posting .check cqe next) :
    Steps s (.task t choice) (s.setPc t (.posting (.write s.cqHeadKernel) cqe next)) {}
  | stores {t choice cqe next head} (ht : t < s.tasks)
      (hpc : s.pc t = .posting (.write head) cqe next) :
    Steps s (.task t choice)
      ({ s with cq := Function.update s.cq (head % s.geometry.cqEntries) cqe }.setPc t
        (.posting (.publish head) cqe next)) {}
  | publishes {t choice cqe next head} (ht : t < s.tasks)
      (hpc : s.pc t = .posting (.publish head) cqe next) :
    Steps s (.task t choice)
      ({ s with
          cqHead := (head + 1) % wrap
          cqHeadKernel := (head + 1) % wrap }.setPc t (resume next)) { posted := some cqe }

theorem taskStep_steps {t : TaskId} (ht : t < s.tasks) (choice : Choice) :
    Steps s (.task t choice) (taskStep s t choice) (taskEvents s t choice) := by
  rw [taskStep, taskEvents]
  cases hpc : s.pc t with
  | idle =>
    simp only []
    split_ifs with hw
    · subst hw
      rw [workerPop]
      cases hq : s.queue with
      | nil => exact .stays
      | cons job jobs => exact .pop ht hpc hq
    · exact .stays
  | loop i n head =>
    simp only []
    split_ifs
    · exact .round ht hpc
    · exact .ends ht hpc
  | take slot i n head => exact .takes ht hpc
  | taken sqe slot i n head =>
    simp only []
    cases validate s t sqe choice.destResolves with
    | some e => simpa using Steps.rejects ht hpc e
    | none =>
      cases choice.allocates with
      | true => simpa using Steps.links ht hpc
      | false => simpa using Steps.fails ht hpc
  | linked sqe i n head => exact .hands ht hpc
  | running job => exact .runs ht hpc
  | posting post cqe next =>
    cases post with
    | check =>
      simp only [postStep]
      split_ifs with hfull
      · exact .drops ht hpc hfull
      · exact .begins ht hpc
    | write head => exact .stores ht hpc
    | publish head => exact .publishes ht hpc

theorem step_steps (op : Op) : Steps s op (step s op) (events s op) := by
  cases op with
  | writeSqe slot sqe => exact .writeSqe slot sqe
  | setSqHead head => exact .setSqHead head
  | reap =>
    rw [step, events]
    split_ifs with h
    · exact .stays
    · exact .reap h
  | submit t n =>
    rw [step, events]
    split_ifs with h
    · exact .submit h.1 h.2.1 h.2.2.1
    · exact .stays
    all_goals exact nofun
  | refill t =>
    rw [step, events]
    split_ifs with h
    · exact .refill h
    · exact .stays
    all_goals exact nofun
  | task t choice =>
    rw [step, events]
    split_ifs with h
    · exact taskStep_steps s h choice
    · exact .stays

end GrahaOS.SubmissionStream
