import GrahaOS.SubmissionStream

/-!
# What a stream owes

A stream owes a completion for each entry that was consumed and not completed yet, wherever it is:
in the hands of a task, in the queue of the worker, or waiting for tokens. Every step keeps the
books, whatever else goes wrong.
-/

namespace GrahaOS.SubmissionStream

open Function Finset

/-- The sum over all jobs and all tasks. -/
def total {M : Type*} [AddCommMonoid M] (ofPc : Pc → M) (queued pended : Job → M)
    (s : Stream) : M :=
  (s.queue.map queued).sum +
    ∑ t ∈ Finset.range s.tasks, (ofPc (s.pc t) + ((s.pending t).map pended).sum)

section Total

variable {M : Type*} [AddCancelCommMonoid M] (ofPc : Pc → M) (queued pended : Job → M) {s : Stream}
  {t : TaskId}

/-- A sum of which one term changes. -/
theorem sum_change {ι : Type*} [DecidableEq ι] {r : Finset ι} {f g : ι → M} {i : ι} (hi : i ∈ r)
    (hrest : ∀ j ∈ r, j ≠ i → f j = g j) : ∑ j ∈ r, f j + g i = ∑ j ∈ r, g j + f i := by
  have hsame : ∑ j ∈ r.erase i, f j = ∑ j ∈ r.erase i, g j :=
    sum_congr rfl fun j hj => hrest j (mem_of_mem_erase hj) (ne_of_mem_erase hj)
  rw [← add_sum_erase r f hi, ← add_sum_erase r g hi, hsame]
  abel

/-- The parts of a stream that are summed. -/
structure SameBooks (s s' : Stream) : Prop where
  queue : s'.queue = s.queue
  tasks : s'.tasks = s.tasks
  pc : s'.pc = s.pc
  pending : s'.pending = s.pending

theorem total_setPc (ht : t < s.tasks) (pc : Pc) :
    total ofPc queued pended (s.setPc t pc) + ofPc (s.pc t) =
      total ofPc queued pended s + ofPc pc := by
  have hsum := sum_change (f := fun u => ofPc ((s.setPc t pc).pc u)) (g := fun u => ofPc (s.pc u))
    (mem_range.mpr ht) (fun u _ hu => by rw [Stream.setPc_of_ne pc hu])
  rw [Stream.setPc_self] at hsum
  simp only [total, sum_add_distrib]
  change _ + (∑ u ∈ range s.tasks, ofPc ((s.setPc t pc).pc u) + _) + _ = _
  rw [add_assoc, add_right_comm, hsum]
  change (s.queue.map queued).sum + (_ + _ + ∑ u ∈ range s.tasks,
    ((s.pending u).map pended).sum) = _
  abel

theorem total_enqueue (s : Stream) (jobs : List Job) :
    total ofPc queued pended { s with queue := s.queue ++ jobs } =
      total ofPc queued pended s + (jobs.map queued).sum := by
  simp only [total, List.map_append, List.sum_append]
  abel

theorem total_pended (ht : t < s.tasks) (jobs : List Job) :
    total ofPc queued pended { s with pending := update s.pending t jobs } +
        ((s.pending t).map pended).sum =
      total ofPc queued pended s + (jobs.map pended).sum := by
  have hsum := sum_change (f := fun u => ((update s.pending t jobs u).map pended).sum)
    (g := fun u => ((s.pending u).map pended).sum) (mem_range.mpr ht)
    (fun u _ hu => by rw [update_of_ne hu])
  rw [update_self] at hsum
  simp only [total, sum_add_distrib, add_assoc, hsum]

/-- A task moves on, and nothing else that is summed changes. -/
theorem total_move {s' : Stream} {old new : Pc} {gone come : M} (h : SameBooks s s')
    (ht : t < s.tasks) (hpc : s.pc t = old) (hbalance : ofPc new + gone = ofPc old + come) :
    total ofPc queued pended (s'.setPc t new) + gone = total ofPc queued pended s + come := by
  have hsame : total ofPc queued pended s' = total ofPc queued pended s := by
    rw [total, total, h.queue, h.tasks, h.pc, h.pending]
  have hmove := total_setPc ofPc queued pended (h.tasks ▸ ht) new
  rw [h.pc, hpc, hsame] at hmove
  apply add_right_cancel
  rw [add_right_comm, hmove, add_assoc, hbalance, add_assoc, add_comm come]

/-- The worker takes a job of its queue. -/
theorem total_pop {job : Job} {jobs : List Job} (ht : s.worker < s.tasks)
    (hidle : s.pc s.worker = .idle) (hqueue : s.queue = job :: jobs) :
    total ofPc queued pended ({ s with queue := jobs }.setPc s.worker (.running job)) +
        ofPc .idle + queued job =
      total ofPc queued pended s + ofPc (.running job) := by
  have hmove := total_setPc ofPc queued pended (s := { s with queue := jobs }) ht (.running job)
  have hqueued : total ofPc queued pended { s with queue := jobs } + queued job =
      total ofPc queued pended s := by
    simp only [total, hqueue, List.map_cons, List.sum_cons]
    abel
  rw [hidle] at hmove
  rw [hmove, ← hqueued]
  abel

/-- A job is handed to the worker, or waits for tokens. -/
theorem total_handOff (ht : t < s.tasks) (sqe : Sqe) :
    total ofPc queued pended (handOff s t sqe) = total ofPc queued pended s + queued ⟨sqe, t⟩ ∨
      total ofPc queued pended (handOff s t sqe) =
        total ofPc queued pended s + pended ⟨sqe, t⟩ := by
  have hqueue : total ofPc queued pended { s with queue := s.queue ++ [⟨sqe, t⟩] } =
      total ofPc queued pended s + queued ⟨sqe, t⟩ := by
    simpa using total_enqueue ofPc queued pended s [⟨sqe, t⟩]
  rw [handOff]
  split_ifs
  · exact .inl hqueue
  · refine .inr (add_right_cancel (b := ((s.pending t).map pended).sum) ?_)
    rw [total_pended ofPc queued pended ht, List.map_cons, List.sum_cons, add_assoc]
  · exact .inl hqueue

lemma handOff_keeps (s : Stream) (t : TaskId) (sqe : Sqe) : (handOff s t sqe).pc = s.pc ∧
    (handOff s t sqe).tasks = s.tasks ∧ (handOff s t sqe).activeJobs = s.activeJobs := by
  rw [handOff]
  split_ifs <;> exact ⟨rfl, rfl, rfl⟩

theorem total_hands {sqe : Sqe} {i n head : ℕ} (ht : t < s.tasks)
    (hpc : s.pc t = .linked sqe i n head) : let handed := (handOff s t sqe).setPc t (.loop i n head)
    total ofPc queued pended handed + ofPc (.linked sqe i n head) =
        total ofPc queued pended s + queued ⟨sqe, t⟩ + ofPc (.loop i n head) ∨
      total ofPc queued pended handed + ofPc (.linked sqe i n head) =
        total ofPc queued pended s + pended ⟨sqe, t⟩ + ofPc (.loop i n head) := by
  have hmove := total_setPc ofPc queued pended ((handOff_keeps s t sqe).2.1.symm ▸ ht)
    (.loop i n head)
  rw [(handOff_keeps s t sqe).1, hpc] at hmove
  dsimp only
  rw [hmove]
  exact (total_handOff ofPc queued pended ht sqe).imp (fun h => by rw [h]) fun h => by rw [h]

theorem drain_append (tokens : ℤ) (jobs : List Job) :
    (drain tokens jobs).2.1 ++ (drain tokens jobs).2.2 = jobs := by
  induction jobs generalizing tokens with
  | nil => rfl
  | cons job jobs ih =>
    rw [drain]
    split_ifs
    · rfl
    · simpa using ih _

/-- Jobs go from those that wait to the queue. -/
theorem total_refill (ht : t < s.tasks) (hrate : s.ioRate t ≠ 0) :
    total ofPc queued pended (refillIoTokens s t) +
        ((drain (refilled s t) (s.pending t)).2.1.map pended).sum =
      total ofPc queued pended s +
        ((drain (refilled s t) (s.pending t)).2.1.map queued).sum := by
  set moved := (drain (refilled s t) (s.pending t)).2.1 with hmoved
  set left := (drain (refilled s t) (s.pending t)).2.2 with hleft
  have hpended := total_pended ofPc queued pended ht left
  rw [← drain_append (refilled s t) (s.pending t), ← hmoved, ← hleft, List.map_append,
    List.sum_append] at hpended
  have hqueued := total_enqueue ofPc queued pended
    { s with pending := update s.pending t left } moved
  have hrefill : total ofPc queued pended (refillIoTokens s t) =
      total ofPc queued pended { s with
        pending := update s.pending t left
        queue := s.queue ++ moved } := by
    rw [refillIoTokens, if_neg hrate]
    rfl
  apply add_right_cancel
  rw [hrefill, hqueued, add_right_comm _ (moved.map queued).sum, add_assoc, add_right_comm,
    add_right_comm _ (moved.map queued).sum]
  rw [← hpended]
  abel

end Total

/-- The cookie of the completion that a task is to deliver. -/
def Pc.owes : Pc → Multiset ℕ
  | .linked sqe _ _ _ => {sqe.cookie}
  | .running job => {job.sqe.cookie}
  | .posting _ cqe _ => {cqe.cookie}
  | _ => 0

/-- The cookies of the completions that are still to come. -/
def owed (s : Stream) : Multiset ℕ :=
  total Pc.owes (fun job => {job.sqe.cookie}) (fun job => {job.sqe.cookie}) s

@[simp] lemma resume_owes (next : Option (ℕ × ℕ × ℕ)) : (resume next).owes = 0 := by
  cases next <;> rfl

variable {s s' : Stream} {t : TaskId} {op : Op} {e : Events}

/-- What a task is to deliver is owed. -/
theorem owed_ne_zero (ht : t < s.tasks) (howes : (s.pc t).owes ≠ 0) : owed s ≠ 0 := by
  intro hzero
  rw [owed, total, add_eq_zero, sum_eq_zero_iff] at hzero
  exact howes (add_eq_zero.mp (hzero.2 t (mem_range.mpr ht))).1

/-- The cookie of a completion, if there is one. -/
def cookie (cqe : Option Cqe) : Multiset ℕ := cqe.elim 0 fun c => {c.cookie}

def entryCookie (entry : Option (ℕ × Sqe)) : Multiset ℕ := entry.elim 0 fun e => {e.2.cookie}

@[simp] lemma cookie_none : cookie none = 0 := rfl

@[simp] lemma cookie_some (cqe : Cqe) : cookie (some cqe) = {cqe.cookie} := rfl

@[simp] lemma entryCookie_none : entryCookie none = 0 := rfl

@[simp] lemma entryCookie_some (entry : ℕ × Sqe) : entryCookie (some entry) = {entry.2.cookie} := rfl

lemma owed_move {old new : Pc} {posted dropped taken : Multiset ℕ} (ht : t < s.tasks)
    (hpc : s.pc t = old) (hbalance : new.owes + (posted + dropped) = old.owes + taken)
    (h : SameBooks s s') :
    owed (s'.setPc t new) + posted + dropped = owed s + taken := by
  rw [add_assoc]
  exact total_move _ _ _ h ht hpc hbalance

/-- What is consumed is owed, and what is posted or dropped is owed no more. -/
theorem owed_step (hstep : Steps s op s' e) :
    owed s' + cookie e.posted + cookie e.dropped = owed s + entryCookie e.consumed := by
  cases hstep with
  | stays | writeSqe | setSqHead | reap => exact add_zero _
  | @refill t ht =>
    by_cases hrate : s.ioRate t = 0
    · simp [refillIoTokens, hrate]
    · have hrefill : owed (refillIoTokens s t) = owed s :=
        add_right_cancel (total_refill _ _ _ ht hrate)
      simp [hrefill]
  | pop ht hidle hqueue =>
    have hpop := total_pop Pc.owes (fun job => ({job.sqe.cookie} : Multiset ℕ))
      (fun job => {job.sqe.cookie}) ht hidle hqueue
    simpa [Pc.owes, owed] using hpop
  | submit hpc _ ht | round ht hpc | ends ht hpc | takes ht hpc | fails ht hpc | runs ht hpc
  | begins ht hpc | stores ht hpc => exact owed_move ht hpc rfl ⟨rfl, rfl, rfl, rfl⟩
  | rejects ht hpc e | links ht hpc => exact owed_move ht hpc (by simp [Pc.owes]) ⟨rfl, rfl, rfl, rfl⟩
  | @hands t _ sqe i n head ht hpc =>
    have hmove : owed ((handOff s t sqe).setPc t (.loop i n head)) + {sqe.cookie} =
        owed s + {sqe.cookie} + 0 := (total_hands Pc.owes _ _ ht hpc).elim id id
    simpa using hmove
  | drops ht hpc hfull | publishes ht hpc =>
    exact owed_move ht hpc (by rw [resume_owes]; simp [Pc.owes]) ⟨rfl, rfl, rfl, rfl⟩

/-- Whether a task has a job in its hands. -/
def Pc.jobs : Pc → ℕ
  | .linked _ _ _ _ => 1
  | .running _ => 1
  | _ => 0

/-- The number of jobs. -/
def jobs (s : Stream) : ℕ := total Pc.jobs (fun _ => 1) (fun _ => 1) s

@[simp] lemma resume_jobs (next : Option (ℕ × ℕ × ℕ)) : (resume next).jobs = 0 := by
  cases next <;> rfl

lemma activeJobs_move {old new : Pc} (ht : t < s.tasks) (hpc : s.pc t = old)
    (hcount : s.activeJobs = jobs s) (hactive : s'.activeJobs = s.activeJobs + new.jobs - old.jobs)
    (h : SameBooks s s') :
    (s'.setPc t new).activeJobs = jobs (s'.setPc t new) := by
  have hmove : jobs (s'.setPc t new) + old.jobs = jobs s + new.jobs :=
    total_move _ _ _ h ht hpc (add_comm _ _)
  change s'.activeJobs = _
  omega

/-- `active_jobs` counts the jobs. -/
theorem activeJobs_step (hstep : Steps s op s' e) (hcount : s.activeJobs = jobs s) :
    s'.activeJobs = jobs s' := by
  cases hstep with
  | stays | writeSqe | setSqHead | reap => exact hcount
  | @refill t ht =>
    have hrefill : jobs (refillIoTokens s t) = jobs s ∧
        (refillIoTokens s t).activeJobs = s.activeJobs := by
      by_cases hrate : s.ioRate t = 0
      · simp [refillIoTokens, hrate]
      · refine ⟨add_right_cancel (total_refill _ _ _ ht hrate), ?_⟩
        rw [refillIoTokens, if_neg hrate]
    rw [hrefill.1, hrefill.2, hcount]
  | pop ht hidle hqueue =>
    have hpop := total_pop Pc.jobs (fun _ => 1) (fun _ => 1) ht hidle hqueue
    exact hcount.trans (add_right_cancel hpop).symm
  | submit hpc _ ht | round ht hpc | ends ht hpc | takes ht hpc | rejects ht hpc e
  | links ht hpc | fails ht hpc | runs ht hpc | begins ht hpc | stores ht hpc =>
    exact activeJobs_move ht hpc hcount rfl ⟨rfl, rfl, rfl, rfl⟩
  | @hands t _ sqe i n head ht hpc =>
    have hmove : jobs ((handOff s t sqe).setPc t (.loop i n head)) + 1 = jobs s + 1 + 0 :=
      (total_hands Pc.jobs _ _ ht hpc).elim id id
    have hactive := (handOff_keeps s t sqe).2.2
    change (handOff s t sqe).activeJobs = _
    omega
  | drops ht hpc hfull | publishes ht hpc =>
    exact activeJobs_move ht hpc hcount (by rw [resume_jobs]; rfl) ⟨rfl, rfl, rfl, rfl⟩

/-- Each job is owed a completion. -/
theorem jobs_le_owed (s : Stream) : jobs s ≤ (owed s).card := by
  have hpc : ∀ pc : Pc, pc.jobs ≤ pc.owes.card := by
    intro pc
    cases pc <;> simp [Pc.jobs, Pc.owes]
  have hlist : ∀ js : List Job, (js.map fun _ => 1).sum =
      ((js.map fun job => ({job.sqe.cookie} : Multiset ℕ)).sum).card := by
    intro js
    induction js with
    | nil => rfl
    | cons job js ih =>
      rw [List.map_cons, List.sum_cons, ih, List.map_cons, List.sum_cons, Multiset.card_add,
        Multiset.card_singleton]
  rw [jobs, owed, total, total, Multiset.card_add, Multiset.card_sum, hlist]
  refine Nat.add_le_add_left (sum_le_sum fun t _ => ?_) _
  rw [Multiset.card_add, hlist]
  exact Nat.add_le_add_right (hpc _) _

end GrahaOS.SubmissionStream
