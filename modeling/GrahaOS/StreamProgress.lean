import GrahaOS.StreamCompletions

/-!
# What is owed is delivered

The invariants of a stream together, the steps that bring what is owed closer to user space, and
the result: in a run that meets the conditions each entry that the kernel consumes gets one
completion with its cookie, and no completion is lost on the way.
-/

namespace GrahaOS.SubmissionStream

open Runs Function List

/-- The entry whose job a task is about to hand off. -/
def Pc.handing : Pc → Option Sqe
  | .linked sqe _ _ _ => some sqe
  | _ => none

@[simp] lemma resume_handing (next : Option (ℕ × ℕ × ℕ)) : (resume next).handing = none := by
  cases next <;> rfl

/-- A job that waits for tokens can get them. -/
structure WithinLimits (s : Stream) : Prop where
  pended : ∀ t < s.tasks, ∀ job ∈ s.pending t,
    s.ioRate t ≠ 0 ∧ asInt64 job.sqe.len ≤ s.ioRate t
  handing : ∀ t < s.tasks, ∀ sqe, (s.pc t).handing = some sqe →
    needsTokens s t sqe = true → asInt64 sqe.len ≤ s.ioRate t

namespace WithinLimits

variable {s s' : Stream} {e : Events} {op : Op}

/-- No job is added to those that wait or are about to be handed off. -/
structure SameLimits (s s' : Stream) : Prop where
  tasks : s'.tasks = s.tasks
  ioRate : s'.ioRate = s.ioRate
  pending : ∀ t, ∀ job ∈ s'.pending t, job ∈ s.pending t
  handing : ∀ t sqe, (s'.pc t).handing = some sqe → (s.pc t).handing = some sqe

lemma sameLimits_setPc {t : TaskId} {new : Pc} (h : SameLimits s s') (hnew : new.handing = none) :
    SameLimits s (s'.setPc t new) := { h with
  handing := by
    intro u sqe hu
    by_cases hut : u = t
    · rw [hut, Stream.setPc_self, hnew] at hu
      cases hu
    · rw [Stream.setPc_of_ne _ hut] at hu
      exact h.handing u sqe hu }

lemma sameLimits_refill (s : Stream) (t : TaskId) : SameLimits s (refillIoTokens s t) := by
  rw [refillIoTokens]
  split_ifs
  · exact ⟨rfl, rfl, fun _ _ h => h, fun _ _ h => h⟩
  refine ⟨rfl, rfl, fun u job hjob => ?_, fun _ _ h => h⟩
  change job ∈ update s.pending t _ u at hjob
  by_cases hu : u = t
  · rw [hu, update_self] at hjob
    rw [hu, ← drain_append (refilled s t) (s.pending t)]
    exact mem_append_right _ hjob
  · rwa [update_of_ne hu] at hjob

theorem quiet (h : WithinLimits s) (hsame : SameLimits s s') : WithinLimits s' where
  pended := by
    rw [hsame.tasks, hsame.ioRate]
    intro t ht job hjob
    exact h.pended t ht job (hsame.pending t job hjob)
  handing := by
    rw [hsame.tasks, hsame.ioRate]
    intro t ht sqe hsqe htokens
    refine h.handing t ht sqe (hsame.handing t sqe hsqe) ?_
    rwa [needsTokens, hsame.ioRate] at htokens

/-- A job that is handed off waits if it needs tokens, and then its length is within the limit. -/
theorem handOff (h : WithinLimits s) {t : TaskId} {sqe : Sqe}
    (hlen : needsTokens s t sqe = true → asInt64 sqe.len ≤ s.ioRate t) :
    WithinLimits (handOff s t sqe) := by
  rw [SubmissionStream.handOff]
  split_ifs with htokens hcovered
  · exact h.quiet ⟨rfl, rfl, fun _ _ h => h, fun _ _ h => h⟩
  · refine ⟨fun u hu job hjob => ?_, h.handing⟩
    change job ∈ update s.pending t _ u at hjob
    by_cases hut : u = t
    · subst hut
      rw [update_self, mem_cons] at hjob
      rcases hjob with rfl | hjob
      · have hrate : s.ioRate u ≠ 0 := by
          simp only [needsTokens, decide_eq_true_eq] at htokens
          exact htokens.2.2
        exact ⟨hrate, hlen htokens⟩
      · exact h.pended u hu job hjob
    · rw [update_of_ne hut] at hjob
      exact h.pended u hu job hjob
  · exact h.quiet ⟨rfl, rfl, fun _ _ h => h, fun _ _ h => h⟩

theorem step (h : WithinLimits s) (hstep : Steps s op s' e) (hcareful : Careful s op) :
    WithinLimits s' := by
  cases hstep with
  | stays => exact h
  | writeSqe | setSqHead | reap => exact h.quiet ⟨rfl, rfl, fun _ _ h => h, fun _ _ h => h⟩
  | submit | pop | round | ends | takes | rejects | fails | runs | begins | stores =>
    exact h.quiet (sameLimits_setPc ⟨rfl, rfl, fun _ _ h => h, fun _ _ h => h⟩ rfl)
  | refill => exact h.quiet (sameLimits_refill s _)
  | @links t choice sqe slot i n head ht hpc =>
    refine ⟨h.pended, fun u hu sqe' hsqe htokens => ?_⟩
    by_cases hut : u = t
    · subst hut
      rw [Stream.setPc_self] at hsqe
      cases hsqe
      exact (hcareful.1 sqe (by rw [hpc]; rfl)).2 htokens
    · rw [Stream.setPc_of_ne _ hut] at hsqe
      exact h.handing u hu sqe' hsqe htokens
  | hands ht hpc =>
    have hoff := h.handOff (h.handing _ ht _ (by rw [hpc]; rfl))
    exact hoff.quiet (sameLimits_setPc ⟨rfl, rfl, fun _ _ h => h, fun _ _ h => h⟩ rfl)
  | drops | publishes =>
    exact h.quiet (sameLimits_setPc ⟨rfl, rfl, fun _ _ h => h, fun _ _ h => h⟩ (resume_handing _))

end WithinLimits

structure Sound (s : Stream) (log : Log) : Prop where
  ring : CompletionRing s log
  order : SubmissionOrder s log
  limits : WithinLimits s
  active : s.activeJobs = jobs s
  books : ((log.consumed.map fun entry => entry.2.cookie : List ℕ) : Multiset ℕ) =
    ((log.posted.map Cqe.cookie : List ℕ) : Multiset ℕ) + owed s
  worker : s.worker < s.tasks

variable {s s' : Stream} {x y : Stream × Log} {t : TaskId} {job : Job} {op : Op} {log : Log}
  {e : Events}

lemma steps_worker (hstep : Steps s op s' e) : s'.worker = s.worker ∧ s'.tasks = s.tasks := by
  cases hstep with
  | refill =>
    rw [refillIoTokens]
    split_ifs <;> exact ⟨rfl, rfl⟩
  | @hands t _ sqe =>
    rw [handOff]
    split_ifs <;> exact ⟨rfl, rfl⟩
  | _ => exact ⟨rfl, rfl⟩

lemma cookie_toList (cqe : Option Cqe) :
    ((cqe.toList.map Cqe.cookie : List ℕ) : Multiset ℕ) = cookie cqe := by
  cases cqe <;> rfl

lemma entryCookie_toList (entry : Option (ℕ × Sqe)) :
    ((entry.toList.map fun e => e.2.cookie : List ℕ) : Multiset ℕ) = entryCookie entry := by
  cases entry <;> rfl

/-- Every step that meets the conditions keeps the invariants. -/
theorem Sound.step (h : Sound s log) (hstep : Steps s op s' e) (hcareful : Careful s op) :
    Sound s' (log.add e) where
  ring := h.ring.step hstep hcareful
  order := h.order.step hstep hcareful
  limits := h.limits.step hstep hcareful
  active := activeJobs_step hstep h.active
  books := by
    have hdropped : cookie e.dropped = 0 := by
      have hnone := (h.ring.step hstep hcareful).dropped
      rw [Log.add, append_eq_nil_iff] at hnone
      rw [← cookie_toList, hnone.2]
      rfl
    have howed := owed_step hstep
    rw [hdropped, add_zero] at howed
    simp only [Log.add, map_append, ← Multiset.coe_add, cookie_toList, entryCookie_toList]
    rw [h.books, add_assoc, add_assoc, ← howed, add_comm (owed s')]
  worker := by
    rw [(steps_worker hstep).1, (steps_worker hstep).2]
    exact h.worker

/-- A step of a logged run meets the conditions. -/
def CarefulLogged (x : Stream × Log) (op : Op) : Prop := Careful x.1 op

variable (h : Sound x.1 x.2)
include h

theorem sound_run {ops : List Op} (hcareful : Guarded loggedStep CarefulLogged x ops) :
    Sound (run loggedStep x ops).1 (run loggedStep x ops).2 :=
  invariant_run (fun x : Stream × Log => Sound x.1 x.2)
    (fun x op hx hop => hx.step (step_steps x.1 op) hop) h hcareful

omit h

/-- Whether a step is one of the kernel's own. -/
def Op.isKernel : Op → Bool
  | .refill _ => true
  | .task _ _ => true
  | _ => false

/-- The number of steps that a task has before it, until its completion is posted. -/
def Pc.weight : Pc → ℕ
  | .linked _ _ _ _ => 7
  | .running _ => 4
  | .posting .check _ _ => 3
  | .posting (.write _) _ _ => 2
  | .posting (.publish _) _ _ => 1
  | _ => 0

/-- The number of steps until everything that is owed is posted. -/
def weight (s : Stream) : ℕ := total Pc.weight (fun _ => 5) (fun _ => 6) s

@[simp] lemma resume_weight (next : Option (ℕ × ℕ × ℕ)) : (resume next).weight = 0 := by
  cases next <;> rfl

lemma weight_move {old new : Pc} (ht : t < s.tasks) (hpc : s.pc t = old)
    (hlt : new.weight < old.weight) (h : SameBooks s s') :
    weight (s'.setPc t new) < weight s := by
  have hmove : weight (s'.setPc t new) + old.weight = weight s + new.weight :=
    total_move _ _ _ h ht hpc (add_comm _ _)
  omega

/-- A task that owes a completion comes closer to it. -/
theorem taskStep_weight (ht : t < s.tasks) (howes : (s.pc t).owes ≠ 0)
    (hroom : FreeRunning.distance wrap s.cqHeadKernel s.cqTail < s.geometry.cqEntries) :
    weight (taskStep s t {}) < weight s ∧ (taskEvents s t {}).consumed = none := by
  rw [taskStep, taskEvents]
  cases hpc : s.pc t with
  | idle | loop i n head | take slot i n head | taken sqe slot i n head =>
    exact absurd (by rw [hpc]; rfl) howes
  | linked sqe i n head =>
    refine ⟨?_, rfl⟩
    have hmove := total_hands Pc.weight (fun _ => 5) (fun _ => 6) ht hpc
    simp only [Pc.weight] at hmove
    rw [weight, weight]
    dsimp only
    omega
  | running job => exact ⟨weight_move ht hpc (by decide : 3 < 4) ⟨rfl, rfl, rfl, rfl⟩, rfl⟩
  | posting post cqe next =>
    cases post with
    | check =>
      simp only [postStep, if_neg (not_le.mpr hroom)]
      exact ⟨weight_move ht hpc (by decide : 2 < 3) ⟨rfl, rfl, rfl, rfl⟩, trivial⟩
    | write head => exact ⟨weight_move ht hpc (by decide : 1 < 2) ⟨rfl, rfl, rfl, rfl⟩, rfl⟩
    | publish head =>
      refine ⟨weight_move ht hpc ?_ ⟨rfl, rfl, rfl, rfl⟩, rfl⟩
      rw [resume_weight]
      exact Nat.one_pos

/-- The worker takes a job. -/
theorem workerPop_weight {jobs : List Job} (ht : s.worker < s.tasks) (hidle : s.pc s.worker = .idle)
    (hqueue : s.queue = job :: jobs) :
    weight (taskStep s s.worker {}) < weight s ∧ (taskEvents s s.worker {}).consumed = none := by
  have hpop := total_pop Pc.weight (fun _ => 5) (fun _ => 6) ht hidle hqueue
  have hstep : taskStep s s.worker {} = { s with queue := jobs }.setPc s.worker (.running job) := by
    rw [taskStep, hidle]
    simp only [if_true, workerPop, hqueue]
  have hevents : (taskEvents s s.worker {}).consumed = none := by
    rw [taskEvents, hidle]
  refine ⟨?_, hevents⟩
  rw [hstep, weight, weight]
  simp only [Pc.weight] at hpop
  omega

/-- The second state is reached by steps of the kernel that meet the conditions and consume no
entry. -/
def Reaches (x y : Stream × Log) : Prop :=
  ∃ ops : List Op, (∀ op ∈ ops, op.isKernel = true) ∧ Guarded loggedStep CarefulLogged x ops ∧
    run loggedStep x ops = y ∧ y.2.consumed = x.2.consumed

lemma Reaches.refl (x : Stream × Log) : Reaches x x := ⟨[], nofun, trivial, rfl, rfl⟩

lemma Reaches.trans {z : Stream × Log} (hxy : Reaches x y) (hyz : Reaches y z) : Reaches x z := by
  obtain ⟨ops, hops, hguard, rfl, hconsumed⟩ := hxy
  obtain ⟨ops', hops', hguard', rfl, hconsumed'⟩ := hyz
  refine ⟨ops ++ ops', ?_, ?_, run_append .., hconsumed'.trans hconsumed⟩
  · intro op hop
    exact (mem_append.mp hop).elim (hops op) (hops' op)
  · exact (guarded_append loggedStep CarefulLogged).mpr ⟨hguard, hguard'⟩

lemma reaches_step (hkernel : op.isKernel = true) (hcareful : Careful x.1 op)
    (hconsumed : (events x.1 op).consumed = none) : Reaches x (loggedStep x op) := by
  refine ⟨[op], ?_, ⟨hcareful, trivial⟩, rfl, ?_⟩
  · intro op' hop'
    rw [mem_singleton.mp hop']
    exact hkernel
  · simp [loggedStep, Log.add, hconsumed]

include h

lemma Sound.reaches (hreach : Reaches x y) : Sound y.1 y.2 := by
  obtain ⟨ops, -, hguard, rfl, -⟩ := hreach
  exact sound_run h hguard

/-- A task that owes a completion takes a step, if no other is in the middle of posting. -/
lemma reaches_task (ht : t < x.1.tasks) (howes : (x.1.pc t).owes ≠ 0)
    (hcheck : (x.1.pc t).checks = true → ∀ u < x.1.tasks, (x.1.pc u).mark = none) :
    ∃ y, Reaches x y ∧ weight y.1 < weight x.1 := by
  have hroom := h.ring.not_full (owed_ne_zero ht howes)
  obtain ⟨hlt, hconsumed⟩ := taskStep_weight ht howes hroom
  have hentry : (x.1.pc t).entry = none := by
    cases hpc : x.1.pc t with
    | taken => exact absurd (by rw [hpc]; rfl) howes
    | _ => rfl
  refine ⟨loggedStep x (.task t {}), reaches_step rfl ⟨?_, hcheck⟩ ?_, ?_⟩
  · rw [hentry]
    exact nofun
  · rw [events, if_pos ht]
    exact hconsumed
  · change weight (step x.1 (.task t {})) < _
    rwa [step, if_pos ht]

omit h

lemma refill_more {jobs : List Job} (hpending : s.pending t = job :: jobs) (hrate : s.ioRate t ≠ 0)
    (hlen : asInt64 job.sqe.len ≤ s.ioRate t) (hless : refilled s t < asInt64 job.sqe.len) :
    (refillIoTokens s t).pending t = job :: jobs ∧
      s.ioTokens t < (refillIoTokens s t).ioTokens t := by
  have hdrain : drain (refilled s t) (s.pending t) = (refilled s t, [], job :: jobs) := by
    rw [hpending, drain, if_pos hless]
  rw [refillIoTokens, if_neg hrate, hdrain]
  simp only [update_self]
  refine ⟨trivial, ?_⟩
  rw [refilled] at hless ⊢
  omega

include h

/-- Jobs that wait for tokens get them. -/
theorem reaches_refill (ht : t < x.1.tasks) {jobs : List Job}
    (hpending : x.1.pending t = job :: jobs) : ∃ y, Reaches x y ∧ weight y.1 < weight x.1 := by
  -- the tokens that are missing get fewer with each tick
  induction hn : (asInt64 job.sqe.len - x.1.ioTokens t).toNat using Nat.strong_induction_on
    generalizing x with
  | _ n ih =>
    obtain ⟨hrate, hlen⟩ := h.limits.pended t ht job (by rw [hpending]; exact mem_cons_self)
    have hstep : (loggedStep x (.refill t)).1 = refillIoTokens x.1 t := by
      change step x.1 (.refill t) = _
      rw [step, if_pos ht]
    have hreach : Reaches x (loggedStep x (.refill t)) := reaches_step rfl trivial rfl
    have hweight := total_refill Pc.weight (fun _ => 5) (fun _ => 6) ht hrate
    by_cases hless : refilled x.1 t < asInt64 job.sqe.len
    · obtain ⟨hsame, hmore⟩ := refill_more hpending hrate hlen hless
      have hnomove : (drain (refilled x.1 t) (x.1.pending t)).2.1 = [] := by
        rw [hpending, drain, if_pos hless]
      have hkept : weight (refillIoTokens x.1 t) = weight x.1 := by
        rw [hnomove] at hweight
        exact add_right_cancel hweight
      have hcloser : (asInt64 job.sqe.len - (refillIoTokens x.1 t).ioTokens t).toNat < n := by
        have hbelow : x.1.ioTokens t < asInt64 job.sqe.len := by
          rw [refilled] at hless
          omega
        omega
      have hsound := h.reaches hreach
      obtain ⟨y, hy, hlt⟩ := ih _ hcloser hsound
        (by rw [hstep, (WithinLimits.sameLimits_refill x.1 t).tasks]; exact ht)
        (by rw [hstep]; exact hsame) (by rw [hstep])
      rw [hstep, hkept] at hlt
      exact ⟨y, hreach.trans hy, hlt⟩
    · have hmoves : (drain (refilled x.1 t) (x.1.pending t)).2.1 ≠ [] := by
        rw [hpending, drain, if_neg hless]
        exact cons_ne_nil _ _
      have hpos := length_pos_iff.mpr hmoves
      refine ⟨_, hreach, ?_⟩
      rw [hstep]
      simp only [map_const', sum_replicate, smul_eq_mul] at hweight
      change weight (refillIoTokens x.1 t) + _ = weight x.1 + _ at hweight
      omega

/-- While something is owed, the kernel can bring it closer. -/
theorem reaches_closer (howed : owed x.1 ≠ 0) : ∃ y, Reaches x y ∧ weight y.1 < weight x.1 := by
  by_cases hmark : ∃ t < x.1.tasks, (x.1.pc t).mark ≠ none
  · -- first the task in the middle of posting
    obtain ⟨t, ht, hmark⟩ := hmark
    refine reaches_task h ht ?_ ?_
    · intro hzero
      cases hpc : x.1.pc t with
      | posting post cqe next =>
        rw [hpc] at hzero
        exact Multiset.singleton_ne_zero _ hzero
      | _ => exact hmark (by rw [hpc]; rfl)
    · intro hcheck
      cases hpc : x.1.pc t with
      | posting post cqe next =>
        cases post with
        | check => exact absurd (by rw [hpc]; rfl) hmark
        | _ => rw [hpc] at hcheck; cases hcheck
      | _ => rw [hpc] at hcheck; cases hcheck
  push Not at hmark
  by_cases htask : ∃ t < x.1.tasks, (x.1.pc t).owes ≠ 0
  · obtain ⟨t, ht, howes⟩ := htask
    exact reaches_task h ht howes fun _ => hmark
  push Not at htask
  by_cases hpending : ∃ t < x.1.tasks, x.1.pending t ≠ []
  · obtain ⟨t, ht, hne⟩ := hpending
    obtain ⟨job, jobs, hjobs⟩ := exists_cons_of_ne_nil hne
    exact reaches_refill h ht hjobs
  push Not at hpending
  -- what is owed is in the queue, and the worker is free to take it
  have hqueue : x.1.queue ≠ [] := by
    intro hnil
    apply howed
    rw [owed, total, hnil]
    simp only [map_nil, sum_nil, zero_add]
    refine Finset.sum_eq_zero fun t ht => ?_
    rw [htask t (Finset.mem_range.mp ht), hpending t (Finset.mem_range.mp ht)]
    rfl
  have hidle : x.1.pc x.1.worker = .idle := by
    have howes := htask _ h.worker
    have hbatch := h.order.worker
    cases hpc : x.1.pc x.1.worker with
    | idle => rfl
    | linked | running | posting =>
      rw [hpc] at howes; exact absurd howes (Multiset.singleton_ne_zero _)
    | _ => rw [hpc] at hbatch; cases hbatch
  obtain ⟨job, jobs, hjobs⟩ := exists_cons_of_ne_nil hqueue
  obtain ⟨hlt, hconsumed⟩ := workerPop_weight h.worker hidle hjobs
  refine ⟨loggedStep x (.task x.1.worker {}), reaches_step rfl ⟨?_, fun _ => hmark⟩ ?_, ?_⟩
  · simp [hidle, Pc.entry]
  · rw [events, if_pos h.worker]
    exact hconsumed
  · change weight (step x.1 (.task x.1.worker {})) < _
    rwa [step, if_pos h.worker]

/-- Everything that is owed is posted in the end. -/
theorem reaches_settled : ∃ y, Reaches x y ∧ owed y.1 = 0 := by
  induction hn : weight x.1 using Nat.strong_induction_on generalizing x with
  | _ n ih =>
    by_cases howed : owed x.1 = 0
    · exact ⟨x, .refl x, howed⟩
    · obtain ⟨y, hxy, hlt⟩ := reaches_closer h howed
      obtain ⟨z, hyz, hz⟩ := ih _ (hn ▸ hlt) (h.reaches hxy) rfl
      exact ⟨z, hxy.trans hyz, hz⟩

omit h

/-- What a stream promises. Each entry that was consumed has been completed once with its cookie,
or its completion is still to come, and the entries were consumed in order; no completion was
dropped, and those that were posted have been read in order or wait in their slots; and there is
room for those that are to come. -/
structure NothingLost (s : Stream) (log : Log) : Prop where
  completed : ((log.consumed.map fun entry => entry.2.cookie : List ℕ) : Multiset ℕ) =
    ((log.posted.map Cqe.cookie : List ℕ) : Multiset ℕ) + owed s
  numbers : log.consumed.map Prod.fst = (List.range log.consumed.length).map (· % wrap)
  dropped : log.dropped = []
  kept : log.posted = log.reaped ++
    (List.range (unread s)).map fun k => s.cq ((s.cqTail + k) % s.geometry.cqEntries)
  room : (owed s).card ≤ s.geometry.cqEntries - unread s
  jobs : s.activeJobs ≤ s.geometry.cqEntries - unread s

/-- What user space has not read is in the ring. -/
theorem CompletionRing.posted_eq (h : CompletionRing s log) :
    log.posted = log.reaped ++
      (List.range (unread s)).map fun k => s.cq ((s.cqTail + k) % s.geometry.cqEntries) := by
  obtain ⟨rest, hrest⟩ := h.reaped
  have hlength : rest.length = unread s := by
    rw [h.unread_eq, ← hrest, length_append, Nat.add_sub_cancel_left]
  rw [← hrest, append_cancel_left_eq, ← hlength]
  refine ext_getElem (by simp) fun k hk _ => ?_
  have hposted : log.posted[log.reaped.length + k]? = some rest[k] := by
    rw [← hrest, getElem?_append_right (Nat.le_add_right _ _), Nat.add_sub_cancel_left,
      getElem?_eq_getElem hk]
  have hslot : (s.cqTail + k) % s.geometry.cqEntries =
      (log.reaped.length + k) % s.geometry.cqEntries := by
    rw [h.tail, Nat.add_mod, FreeRunning.slot_mod (cqEntries_dvd_wrap _), ← Nat.add_mod]
  rw [getElem_map, getElem_range, hslot]
  exact (h.stored _ _ (Nat.le_add_right _ _) hposted).symm

theorem Sound.nothingLost (h : Sound s log) : NothingLost s log := by
  have hroom := h.ring.room
  have hunread := h.ring.unread_eq
  have hle := h.ring.reaped_le
  have hjobs := jobs_le_owed s
  have hactive := h.active
  exact {
    completed := h.books
    numbers := h.order.numbers
    dropped := h.ring.dropped
    kept := h.ring.posted_eq
    room := by omega
    jobs := by omega }

section Creation

variable (geometry : Geometry) (manifest : List OpSchema) (tasks : ℕ) (worker : TaskId)
  (pledgeMask : TaskId → BitVec 16) (ioRate : TaskId → ℕ)

theorem sound_create (hworker : worker < tasks) :
    Sound (create geometry manifest tasks worker pledgeMask ioRate) {} := by
  have howed : owed (create geometry manifest tasks worker pledgeMask ioRate) = 0 := by
    simp [owed, total, create, Pc.owes]
  refine ⟨?_, ?_, ?_, ?_, ?_, hworker⟩
  · refine ⟨rfl, rfl, rfl, nil_prefix, rfl, ?_, by simp [create], by simp [create, Pc.mark], ?_⟩
    · rw [howed]
      exact Nat.zero_le _
    · intro t _ u _ hmark
      exact absurd rfl hmark
  · exact ⟨by simp [create, Pc.holds], fun _ => rfl, by simp [create, Pc.inBatch], rfl, rfl⟩
  · exact ⟨by simp [create], by simp [create, Pc.handing]⟩
  · simp [jobs, total, create, Pc.jobs]
  · rw [howed]
    rfl

end Creation

instance decidableCarefulLogged (x : Stream × Log) (op : Op) : Decidable (CarefulLogged x op) :=
  match op with
  | .writeSqe _ _ => inferInstanceAs (Decidable True)
  | .setSqHead _ => inferInstanceAs (Decidable True)
  | .reap => inferInstanceAs (Decidable True)
  | .submit _ _ =>
    inferInstanceAs (Decidable (∀ u < x.1.tasks, (x.1.pc u).inBatch = false))
  | .refill _ => inferInstanceAs (Decidable True)
  | .task t _ => inferInstanceAs (Decidable
    ((∀ sqe ∈ (x.1.pc t).entry, (owed x.1).card + unread x.1 < x.1.geometry.cqEntries ∧
      (needsTokens x.1 t sqe = true → asInt64 sqe.len ≤ x.1.ioRate t)) ∧
    ((x.1.pc t).checks = true → ∀ u < x.1.tasks, (x.1.pc u).mark = none)))

/-- The smallest rings. -/
def smallest : Geometry := ⟨4, 4, by decide, by decide, by decide, by decide⟩

/-- A stream with the smallest rings, a task without limits and the worker. -/
def smallStream : Stream := create smallest opSchemaIoV1 2 1 (fun _ => 0xfff) (fun _ => 0)

/-- One job and one rejection, and the first completion is read. -/
def twoEntries : List Op :=
  [.writeSqe 0 ⟨3, 0, 7⟩, .writeSqe 1 ⟨99, 0, 8⟩, .setSqHead 2, .submit 0 2] ++
    List.replicate 11 (.task 0 {}) ++ List.replicate 5 (.task 1 {}) ++ [.reap]

/-- Seventeen entries of an unknown operation, submitted as the ring allows, and no completion is
read. -/
def seventeenEntries : List Op :=
  [.setSqHead 16, .submit 0 16] ++ List.replicate 97 (.task 0 {}) ++
    [.setSqHead 17, .submit 0 1] ++ List.replicate 5 (.task 0 {})

end GrahaOS.SubmissionStream
