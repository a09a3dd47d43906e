import GrahaOS.Runs

/-!
# Jobs of a destroyed stream

`stream_destroy` marks the jobs of its stream as canceled and leaves those that wait to the worker
thread. The worker stores `JOB_STATE_RUNNING` over the mark before the dispatcher looks at it, so
such a job goes on to its file or channel. Only a job that the worker has begun is canceled.
-/

namespace GrahaOS.StreamCancellation

open Runs Function

inductive JobState
  | queued
  | running
  | canceling
deriving DecidableEq

/-- A job; it is linked into the list of its stream until it completes. -/
structure Job where
  stream : ℕ
  state : JobState
  linked : Bool

structure Cqe where
  job : ℕ
  result : ℤ
  canceled : Bool
deriving DecidableEq

/-- Where the worker is with a job. -/
inductive Pc
  | idle
  | popped (j : ℕ)
  | checks (j : ℕ)
  | performs (j : ℕ)
  | completes (j : ℕ) (result : ℤ)

/-- The jobs, those that wait for I/O tokens or for the worker, and two logs: the jobs whose
dispatcher went on to the file or the channel, and the completions. -/
structure World where
  jobs : ℕ → Job
  nextJob : ℕ
  pending : List ℕ
  queue : List ℕ
  active : ℕ → Bool
  pc : Pc
  performed : List ℕ
  completed : List Cqe

/-- The end of `stream_submit_batch` for one entry. -/
def submit (w : World) (s : ℕ) (hasTokens : Bool) : World :=
  if w.active s then
    { w with
      jobs := update w.jobs w.nextJob ⟨s, .queued, true⟩
      nextJob := w.nextJob + 1
      pending := if hasTokens then w.pending else w.nextJob :: w.pending
      queue := if hasTokens then w.queue ++ [w.nextJob] else w.queue }
  else w

/-- `stream_destroy`. The stores of its loop need no steps of their own, since the worker stores only
into jobs that do not wait any more. -/
def streamDestroy (w : World) (s : ℕ) : World :=
  if w.active s then
    { w with
      active := update w.active s false
      jobs := fun j => if (w.jobs j).stream = s ∧ (w.jobs j).linked
        then { w.jobs j with state := .canceling } else w.jobs j }
  else w

def streamCompleteJob (w : World) (j : ℕ) (result : ℤ) : World :=
  { w with
    jobs := update w.jobs j { w.jobs j with linked := false }
    pc := .idle
    completed := w.completed ++
      [if (w.jobs j).state = .canceling then ⟨j, -125, true⟩ else ⟨j, result, false⟩] }

/-- A step of the worker; `result` is what the I/O returns. -/
def workerStep (w : World) (result : ℤ) : World :=
  match w.pc with
  | .idle => match w.queue with
    | [] => w
    | j :: queue => { w with queue, pc := .popped j }
  | .popped j => { w with jobs := update w.jobs j { w.jobs j with state := .running }, pc := .checks j }
  | .checks j =>
    { w with pc := if (w.jobs j).state = .canceling then .completes j (-125) else .performs j }
  | .performs j => { w with performed := j :: w.performed, pc := .completes j result }
  | .completes j result => streamCompleteJob w j result

inductive Op
  | submit (s : ℕ) (hasTokens : Bool)
  | refill (n : ℕ)
  | destroy (s : ℕ)
  | work (result : ℤ)

def step (w : World) : Op → World
  | .submit s hasTokens => submit w s hasTokens
  | .refill n => { w with queue := w.queue ++ w.pending.take n, pending := w.pending.drop n }
  | .destroy s => streamDestroy w s
  | .work result => workerStep w result

/-- The job waits for tokens or for the worker. -/
def Waits (w : World) (s j : ℕ) : Prop := j ∈ w.queue ++ w.pending ∧ (w.jobs j).stream = s

/-- Whatever happens, the job does no I/O, and it can complete only as canceled and once. -/
structure CanceledOnce (w : World) (j : ℕ) : Prop where
  no_io : ∀ ops, j ∉ (run step w ops).performed
  once : ∀ ops, ∃ more, (run step w (ops ++ more)).completed.filter (·.job = j) = [⟨j, -125, true⟩]

variable {w : World} {j : ℕ}

/-- Steps that the worker has to take until it can look for the next job. -/
def Pc.rank : Pc → ℕ
  | .idle => 0
  | .popped _ => 4
  | .checks _ => 3
  | .performs _ => 2
  | .completes _ _ => 1

/-- The worker alone comes to every job of its queue, and performs it. -/
lemma queued_is_performed (n : ℕ) (hj : j ∈ w.queue) (hn : 5 * w.queue.idxOf j + w.pc.rank < n) :
    ∃ ops, j ∈ (run step w ops).performed := by
  induction n generalizing w with
  | zero => omega
  | succ n ih =>
  -- the first step brings the job closer
  have hnext : j ∈ (workerStep w 0).queue →
      5 * (workerStep w 0).queue.idxOf j + (workerStep w 0).pc.rank < n →
      ∃ ops, j ∈ (run step w ops).performed := by
    intro hj' hn'
    obtain ⟨ops, hops⟩ := ih hj' hn'
    exact ⟨.work 0 :: ops, hops⟩
  cases hpc : w.pc with
  | idle =>
    cases hqueue : w.queue with
    | nil => simp [hqueue] at hj
    | cons x rest =>
    by_cases hx : x = j
    · refine ⟨[.work 0, .work 0, .work 0, .work 0], ?_⟩
      simp [step, workerStep, hpc, hqueue, hx]
    · rw [hqueue, hpc, List.idxOf_cons_ne _ hx] at hn
      rw [hqueue] at hj
      simp only [workerStep, hpc, hqueue] at hnext
      refine hnext ((List.mem_cons.mp hj).resolve_left (Ne.symm hx)) ?_
      simp only [Pc.rank] at hn ⊢
      omega
  | popped x | performs x | completes x result =>
    simp only [workerStep, hpc] at hnext
    refine hnext hj ?_
    rw [hpc] at hn
    simp only [Pc.rank, streamCompleteJob] at hn ⊢
    omega
  | checks x =>
    simp only [workerStep, hpc] at hnext
    refine hnext hj ?_
    rw [hpc] at hn
    simp only [Pc.rank] at hn ⊢
    split_ifs <;> dsimp only <;> omega

/-- After a call of `stream_destroy`, a job of the stream is canceled without I/O in case it still
waits, exactly if it does not wait. -/
theorem waiting_job_canceled_iff (w : World) (s j : ℕ) :
    (Waits (streamDestroy w s) s j → CanceledOnce (streamDestroy w s) j) ↔
      ¬Waits (streamDestroy w s) s j := by
  refine ⟨fun h hwaits => ?_, fun h hwaits => absurd hwaits h⟩
  have hno := (h hwaits).no_io
  generalize streamDestroy w s = w at hwaits hno
  have hqueued : j ∈ (step w (.refill w.pending.length)).queue := by
    simpa [step] using hwaits.1
  obtain ⟨ops, hops⟩ := queued_is_performed _ hqueued (Nat.lt_succ_self _)
  exact hno (.refill w.pending.length :: ops) hops

/-- A stream with no jobs. -/
def idleWorld : World := ⟨fun _ => ⟨0, .queued, false⟩, 0, [], [], fun _ => true, .idle, [], []⟩

/-- A job that waits when its stream is destroyed does its I/O and reports what that returns. -/
theorem destroyed_stream_performs_job :
    Waits (run step idleWorld [.submit 3 true, .destroy 3]) 3 0 ∧
      (run step idleWorld ([.submit 3 true, .destroy 3] ++ List.replicate 5 (.work 512))).performed =
        [0] ∧
      (run step idleWorld ([.submit 3 true, .destroy 3] ++ List.replicate 5 (.work 512))).completed =
        [⟨0, 512, false⟩] := by
  refine ⟨⟨by decide, rfl⟩, rfl, rfl⟩

end GrahaOS.StreamCancellation
