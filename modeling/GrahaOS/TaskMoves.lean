import GrahaOS.TaskPlaces

/-!
# What every step leaves alone

`Wired` holds of every state of the machine: the idle tasks stay what they are, and CPUs that do not
exist do nothing. `BarrierStep` says what a step does to the barrier of snapshots. `Moves` puts the
two together with the CPUs that a step does not touch, and is proved once for all steps.
-/

namespace GrahaOS.Scheduler

open World Function

/-- `schedule` is about to put the outgoing task on a list. -/
def Pc.busy : Pc → Prop
  | .park | .starve | .requeue _ => True
  | _ => False

structure Wired (w : World) : Prop where
  idle : ∀ c < w.cpuCount, w.idleTask c < w.nextTaskId ∧ w.isIdle (w.idleTask c) = true
  parent : ∀ x task, w.tasks x = some task → task.isIdle = true → task.parent = none
  outside : ∀ c, w.cpuCount ≤ c → w.pc c = .out ∧ w.current c = w.idleTask c
  busy : ∀ c, (w.pc c).busy → w.current c ≠ w.idleTask c
  reaping : ∀ t x i, w.cont t = .reaping x i → w.isIdle x = false

section Wiring

variable {w w' : World} {c : CpuId} {t x : TaskId}

lemma Wired.lt (h : Wired w) (hpc : w.pc c ≠ .out) : c < w.cpuCount :=
  not_le.mp fun hc => hpc (h.outside c hc).1

lemma Wired.ne_idle (h : Wired w) (hc : c < w.cpuCount) (hx : w.isIdle x = false) :
    x ≠ w.idleTask c := by
  rintro rfl
  rw [(h.idle c hc).2] at hx
  cases hx

lemma Wired.steady (h : Wired w) (hs : Steady w w') : Wired w' where
  idle := fun c hc => by
    rw [hs.cpuCount] at hc
    rw [hs.idleTask, hs.nextTaskId, hs.isIdle]
    exact h.idle c hc
  parent := fun x task' hx hidle => by
    cases hw : w.tasks x with
    | none => rw [hs.none x hw] at hx; cases hx
    | some task =>
      obtain ⟨task'', hx', hidle', hparent⟩ := hs.kept x task hw
      obtain rfl := Option.mem_unique hx hx'
      exact hparent (h.parent x task hw (hidle'.symm.trans hidle))
  outside := fun c hc => by
    rw [hs.cpuCount] at hc
    rw [hs.pc, hs.current, hs.idleTask]
    exact h.outside c hc
  busy := fun c hc => by
    rw [hs.pc] at hc
    rw [hs.current, hs.idleTask]
    exact h.busy c hc
  reaping := fun t x i ht => by
    rw [hs.cont] at ht
    rw [hs.isIdle]
    exact h.reaping t x i ht

lemma Wired.setPc {pc : Pc} (h : Wired w) (hc : c < w.cpuCount)
    (hbusy : pc.busy → w.current c ≠ w.idleTask c) : Wired (w.setPc c pc) := { h with
  outside := fun d hd => by
    have hne : d ≠ c := (hc.trans_le hd).ne'
    refine ⟨?_, (h.outside d hd).2⟩
    rw [setPc_of_ne _ hne]
    exact (h.outside d hd).1
  busy := fun d hd => by
    by_cases hdc : d = c
    · subst hdc
      rw [setPc_self] at hd
      exact hbusy hd
    · rw [setPc_of_ne _ hdc] at hd
      exact h.busy d hd }

lemma Wired.setCont {cont : Cont} (h : Wired w)
    (hcont : ∀ x i, cont = .reaping x i → w.isIdle x = false) : Wired (w.setCont t cont) := { h with
  reaping := fun s x i hs => by
    by_cases hst : s = t
    · subst hst
      rw [setCont_self] at hs
      exact hcont x i hs
    · rw [setCont_of_ne _ hst] at hs
      exact h.reaping s x i hs }

lemma Wired.setCurrent (h : Wired w) (hc : c < w.cpuCount) (hbusy : ¬ (w.pc c).busy) :
    Wired (w.setCurrent c t) := { h with
  outside := fun d hd => by
    have hne : d ≠ c := (hc.trans_le hd).ne'
    refine ⟨(h.outside d hd).1, ?_⟩
    rw [setCurrent_of_ne _ hne]
    exact (h.outside d hd).2
  busy := fun d hd => by
    have hne : d ≠ c := fun heq => hbusy (heq ▸ hd)
    rw [setCurrent_of_ne _ hne]
    exact h.busy d hd }

lemma Wired.modify {f : Task → Task} (h : Wired w)
    (hkin : ∀ task, ((f task).isIdle, (f task).parent) = (task.isIdle, task.parent)) :
    Wired (w.modify t f) := by
  simp only [Prod.mk.injEq, forall_and] at hkin
  obtain ⟨hidle, hparent⟩ := hkin
  have hkept := isIdle_modify (w := w) (t := t) hidle
  refine ⟨fun c hc => ⟨(h.idle c hc).1, (hkept _).trans (h.idle c hc).2⟩, fun x task hx hflag => ?_,
    h.outside, h.busy, fun s x i hs => (hkept x).trans (h.reaping s x i hs)⟩
  by_cases hxt : x = t
  · subst hxt
    simp only [World.modify, update_self, Option.map_eq_some_iff] at hx
    obtain ⟨old, hold, rfl⟩ := hx
    exact (hparent old).trans (h.parent x old hold ((hidle old).symm.trans hflag))
  · simp only [World.modify, update_of_ne hxt] at hx
    exact h.parent x task hx hflag

lemma Wired.free (h : Wired w) (hx : w.isIdle x = false) : Wired (free w x) := by
  refine ⟨fun c hc => ?_, fun y task hy hflag => ?_, h.outside, h.busy, fun s y i hs => ?_⟩
  · obtain ⟨hlt, hflag⟩ := h.idle c hc
    have hne : w.idleTask c ≠ x := (h.ne_idle hc hx).symm
    exact ⟨hlt, by simpa [World.isIdle, Scheduler.free, hne] using hflag⟩
  · have hyx : y ≠ x := by
      rintro rfl
      simp [Scheduler.free] at hy
    exact h.parent y task (by simpa [Scheduler.free, hyx] using hy) hflag
  · have hy := h.reaping s y i hs
    by_cases hyx : y = x
    · simp [World.isIdle, Scheduler.free, hyx]
    · simpa [World.isIdle, Scheduler.free, hyx] using hy

lemma Wired.createTask (h : Wired w) (kernel : Bool) : Wired (createTask w t kernel) := by
  rw [Scheduler.createTask]
  split_ifs
  · exact h
  refine Wired.setCont ⟨fun c hc => ?_, fun y task hy hflag => ?_, h.outside, h.busy,
    fun s y i hs => ?_⟩ (by simp)
  · obtain ⟨hlt, hflag⟩ := h.idle c hc
    have hne : w.idleTask c ≠ w.nextTaskId := hlt.ne
    exact ⟨Nat.lt_succ_of_lt hlt, by simpa [World.isIdle, hne] using hflag⟩
  · have hyx : y ≠ w.nextTaskId := by
      rintro rfl
      simp only [update_self, Option.some.injEq] at hy
      rw [← hy] at hflag
      cases hflag
    exact h.parent y task (by simpa [hyx] using hy) hflag
  · have hy := h.reaping s y i hs
    by_cases hyx : y = w.nextTaskId
    · simp [World.isIdle, hyx, newTask]
    · simpa [World.isIdle, hyx] using hy

lemma saveOutgoing_busy (h : Wired w) (hc : c < w.cpuCount) {active exhausted : Bool}
    (hbusy : (saveOutgoing w c active exhausted).busy) : w.current c ≠ w.idleTask c := by
  rw [saveOutgoing] at hbusy
  split_ifs at hbusy with hrun hpark hstarve
  · exact h.ne_idle hc (by simpa using hpark.2)
  · exact h.ne_idle hc (by simpa using hstarve.2)
  · exact hbusy.elim
  · exact hbusy.elim

lemma idleOr_not_busy {next : TaskId → Pc} (hnext : ∀ t, ¬ (next t).busy) :
    ¬ (idleOr w c next).busy := by
  rw [idleOr]
  split_ifs
  · exact id
  · exact hnext _

lemma steady_park (t : TaskId) :
    Steady w ({ w with parked := t :: w.parked }.setState t .barrierWait) := by
  have hparked : Calm w { w with parked := t :: w.parked } := calm_of_tasks rfl
  exact ⟨hparked.trans (calm_setState (by decide)), rfl, rfl, rfl⟩

lemma steady_starve (c : CpuId) (t : TaskId) :
    Steady w ((w.setStarved c (t :: w.starved c)).setState t .starved) := by
  have hstarved : Calm w (w.setStarved c (t :: w.starved c)) := calm_of_tasks rfl
  exact ⟨hstarved.trans (calm_setState (by decide)), rfl, rfl, rfl⟩

end Wiring

/-- The barrier stays as it is. -/
structure SameBarrier (w w' : World) : Prop where
  flag : w'.barrierFlag = w.barrierFlag
  owner : w'.ownerTask = w.ownerTask
  seq : w'.barrierSeq = w.barrierSeq
  parked : w'.parked = w.parked

/-- The CPUs, the code of tasks and the barrier stay as they are. -/
structure Beside (w w' : World) : Prop extends Steady w w', SameBarrier w w'

section Same

variable {w w' w'' : World} {c : CpuId} {t : TaskId} {l : WaitList}

lemma SameBarrier.refl (w : World) : SameBarrier w w := ⟨rfl, rfl, rfl, rfl⟩

lemma SameBarrier.trans (h : SameBarrier w w') (h' : SameBarrier w' w'') : SameBarrier w w'' :=
  ⟨h'.flag.trans h.flag, h'.owner.trans h.owner, h'.seq.trans h.seq, h'.parked.trans h.parked⟩

lemma Beside.trans (h : Beside w w') (h' : Beside w' w'') : Beside w w'' :=
  ⟨h.toSteady.trans h'.toSteady, h.toSameBarrier.trans h'.toSameBarrier⟩

lemma Quiet.beside (h : Quiet w w') (hb : (w'.barrierFlag, w'.ownerTask, w'.barrierSeq) =
    (w.barrierFlag, w.ownerTask, w.barrierSeq)) : Beside w w' := by
  simp only [Prod.mk.injEq] at hb
  exact ⟨h.toSteady, hb.1, hb.2.1, hb.2.2, h.parked⟩

lemma Beside.refl (w : World) : Beside w w := (Quiet.refl w).beside rfl

lemma beside_setState {s : TaskState} (hs : s ≠ .chanWait) : Beside w (w.setState t s) :=
  (quiet_setState hs).beside rfl

lemma beside_setReady (ts : List TaskId) : Beside w (w.setReady c ts) :=
  ⟨steady_setReady ts, rfl, rfl, rfl, rfl⟩

lemma beside_enqueueReady : Beside w (enqueueReady w t) :=
  (beside_setReady _).trans (beside_setState (by decide))

lemma wakes_beside : Wakes Beside where
  refl := Beside.refl
  trans := Beside.trans
  pops := fun _ => (quiet_setWaiters _).beside rfl
  result := fun r => (quiet_waitResult r).beside rfl
  readies := fun _ => beside_setState (by decide)
  exits := fun status => (quiet_exitStatus status).beside rfl
  orphans := quiet_orphanChildren.beside rfl

lemma beside_expire : Beside w (expire w t) := by
  rw [expire]
  cases w.tasks t with
  | none => exact Beside.refl w
  | some task =>
    rw [Option.elim_some]
    split_ifs
    · have hquiet : Quiet w
          (w.modify t fun task => { task with waitResult := -110, state := .ready }) :=
        quiet_modify (fun _ => rfl) fun _ h => TaskState.noConfusion h
      exact (hquiet.beside rfl).trans beside_enqueueReady
    · exact Beside.refl w

lemma beside_stealFrom (thief victim : CpuId) : Beside w (stealFrom w thief victim) := by
  rw [stealFrom]
  split_ifs
  · exact Beside.refl w
  · exact (beside_setReady _).trans (beside_setReady _)

lemma beside_findWork (victim : Option CpuId) : Beside w (findWork w c victim) := by
  rw [findWork]
  split_ifs
  · cases victim with
    | none => exact Beside.refl w
    | some victim => exact beside_stealFrom c victim
  · exact Beside.refl w

lemma beside_dequeue : Beside w (dequeue w c).2 := by
  rw [dequeue]
  cases w.ready c with
  | nil => exact Beside.refl w
  | cons t ts => exact beside_setReady ts

lemma beside_foldl_ready (ts : List TaskId) (w : World) :
    Beside w (ts.foldl (fun w t => w.setState t .ready) w) := by
  induction ts generalizing w with
  | nil => exact Beside.refl w
  | cons t ts ih => exact (beside_setState (by decide)).trans (ih _)

lemma beside_refill : Beside w (runqRefillStarved w c) := by
  refine Beside.trans ?_ (beside_foldl_ready _ _)
  exact ⟨⟨calm_of_tasks rfl, rfl, rfl, rfl⟩, rfl, rfl, rfl, rfl⟩

end Same

/-- The task is inside `snap_begin_barrier` or `snap_end_barrier`, or between the two. -/
def Cont.barred : Cont → Prop
  | .begun | .polling _ | .holding | .ending _ _ | .releasing _ _ => True
  | _ => False

/-- The task that a step parks. -/
def parksBy (w : World) : Op → Option TaskId
  | .schedule c _ => if w.pc c = .park then some (w.current c) else none
  | _ => none

/-- The barrier whose end puts a task on a queue in a step, and the task. -/
def releasesBy (w : World) : Op → Option (ℕ × TaskId)
  | .continue c => (executing w c).bind fun t =>
    match w.cont t with
    | .releasing seq (x :: _) => some (seq, x)
    | _ => none
  | _ => none

/-- What a step does to the barrier. -/
inductive BarrierStep (w : World) : Op → World → Prop
  /-- nothing -/
  | aside {op : Op} {w' : World} (silent : parksBy w op = none ∧ releasesBy w op = none)
      (same : SameBarrier w w')
      (cont : ∀ t, w'.cont t = w.cont t ∨ ¬ (w.cont t).barred ∧ ¬ (w'.cont t).barred) :
      BarrierStep w op w'
  | park {c : CpuId} {choice : Choice} (hpc : w.pc c = .park) :
      BarrierStep w (.schedule c choice)
        (({ w with parked := w.current c :: w.parked }.setState (w.current c) .barrierWait).setPc c
          (.pick true))
  | begins {c : CpuId} {t : TaskId} (ht : executing w c = some t) (hcont : w.cont t = .user)
      (hflag : w.barrierFlag = false) :
      BarrierStep w (.call c .beginBarrier) ({ w with barrierFlag := true }.setCont t .begun)
  | resets {c : CpuId} {t : TaskId} (ht : executing w c = some t) (hcont : w.cont t = .begun) :
      BarrierStep w (.continue c)
        ({ w with
          parked := []
          ownerTask := some t
          barrierSeq := w.barrierSeq + 1 }.setCont t (.polling 0))
  | polls {c : CpuId} {t : TaskId} {i : CpuId} (ht : executing w c = some t)
      (hcont : w.cont t = .polling i) (hi : i < w.cpuCount)
      (hidle : i = c ∨ w.current i = w.idleTask i) :
      BarrierStep w (.continue c) (w.setCont t (.polling (i + 1)))
  | retries {c : CpuId} {t : TaskId} {i : CpuId} (ht : executing w c = some t)
      (hcont : w.cont t = .polling i) :
      BarrierStep w (.continue c) (w.setCont t (.polling 0))
  | succeeds {c : CpuId} {t : TaskId} {i : CpuId} (ht : executing w c = some t)
      (hcont : w.cont t = .polling i) (hi : w.cpuCount ≤ i) :
      BarrierStep w (.continue c) (w.setCont t .holding)
  | timesOut {c : CpuId} {t : TaskId} {i : CpuId} (ht : executing w c = some t)
      (hcont : w.cont t = .polling i) :
      BarrierStep w (.call c .barrierTimeout) ({ w with barrierFlag := false }.setCont t .user)
  | ends {c : CpuId} {t : TaskId} (ht : executing w c = some t) (hcont : w.cont t = .holding) :
      BarrierStep w (.call c .endBarrier)
        ({ w with parked := [], ownerTask := none }.setCont t (.ending w.barrierSeq w.parked))
  | clears {c : CpuId} {t : TaskId} {seq : ℕ} {ts : List TaskId} (ht : executing w c = some t)
      (hcont : w.cont t = .ending seq ts) :
      BarrierStep w (.continue c) ({ w with barrierFlag := false }.setCont t (.releasing seq ts))
  | releases {c : CpuId} {t x : TaskId} {seq : ℕ} {xs : List TaskId} (ht : executing w c = some t)
      (hcont : w.cont t = .releasing seq (x :: xs)) :
      BarrierStep w (.continue c)
        ((enqueueReady (w.setState x .ready) x).setCont t (.releasing seq xs))
  | finishes {c : CpuId} {t : TaskId} {seq : ℕ} (ht : executing w c = some t)
      (hcont : w.cont t = .releasing seq []) : BarrierStep w (.continue c) (w.setCont t .user)

section Barrier

variable {w w' : World} {t : TaskId}

lemma aside_of_cont {op : Op} (silent : parksBy w op = none ∧ releasesBy w op = none)
    (same : SameBarrier w w') (hcont : w'.cont = w.cont) : BarrierStep w op w' :=
  .aside silent same fun _ => .inl (congrFun hcont _)

/-- The code of a task goes on outside of the barrier. -/
lemma aside_setCont {op : Op} {cont : Cont} (silent : parksBy w op = none ∧ releasesBy w op = none)
    (same : SameBarrier w w') (hcont : w'.cont = w.cont) (hold : ¬ (w.cont t).barred)
    (hnew : ¬ cont.barred) : BarrierStep w op (w'.setCont t cont) := by
  refine .aside silent (same.trans ⟨rfl, rfl, rfl, rfl⟩) fun s => ?_
  by_cases hs : s = t
  · subst hs
    exact .inr ⟨hold, by rwa [setCont_self]⟩
  · exact .inl ((setCont_of_ne _ hs).trans (congrFun hcont s))

end Barrier

/-- The CPU that a step moves. -/
def movedBy : Op → Option CpuId
  | .enter c | .schedule c _ => some c
  | _ => none

/-- What a step does to the barrier, to the CPUs and to the idle tasks. -/
structure Moves (w : World) (op : Op) (w' : World) : Prop where
  barrier : BarrierStep w op w'
  pc : ∀ d, movedBy op ≠ some d → w'.pc d = w.pc d
  current : ∀ d, movedBy op ≠ some d → w'.current d = w.current d
  cpuCount : w'.cpuCount = w.cpuCount
  idleTask : w'.idleTask = w.idleTask
  wired : Wired w → Wired w'

section Steps

variable {w w' : World} {c : CpuId} {t : TaskId} {op : Op} {choice : Choice} {pc : Pc}

lemma moves_of_beside (silent : parksBy w op = none ∧ releasesBy w op = none) (hs : Beside w w') :
    Moves w op w' := { hs with
  barrier := aside_of_cont silent hs.toSameBarrier hs.cont
  pc := fun d _ => congrFun hs.pc d
  current := fun d _ => congrFun hs.current d
  wired := fun h => h.steady hs.toSteady }

lemma moves_refl (silent : parksBy w op = none ∧ releasesBy w op = none) : Moves w op w :=
  moves_of_beside silent (Beside.refl w)

lemma moves_setCont {cont : Cont} (hstep : BarrierStep w op (w'.setCont t cont)) (hs : Steady w w')
    (hcont : ∀ x i, cont ≠ .reaping x i) : Moves w op (w'.setCont t cont) := { hs with
  barrier := hstep
  pc := fun d _ => congrFun hs.pc d
  current := fun d _ => congrFun hs.current d
  wired := fun h => (h.steady hs).setCont fun x i hx => absurd hx (hcont x i) }

lemma moves_setPc (hout : w.pc c ≠ .out)
    (hstep : BarrierStep w (.schedule c choice) (w'.setPc c pc)) (hs : Steady w w')
    (hbusy : Wired w → pc.busy → w.current c ≠ w.idleTask c) :
    Moves w (.schedule c choice) (w'.setPc c pc) := { hs with
  barrier := hstep
  pc := fun d hd => (setPc_of_ne _ fun heq => hd (congrArg some heq.symm)).trans (congrFun hs.pc d)
  current := fun d _ => congrFun hs.current d
  wired := fun h => (h.steady hs).setPc (hs.cpuCount ▸ h.lt hout) fun hb => by
    rw [hs.current, hs.idleTask]
    exact hbusy h hb }

lemma moves_setCurrent (hout : w.pc c ≠ .out)
    (hstep : BarrierStep w (.schedule c choice) ((w.setCurrent c t).setPc c pc))
    (hold : ¬ (w.pc c).busy) (hnew : ¬ pc.busy) :
    Moves w (.schedule c choice) ((w.setCurrent c t).setPc c pc) where
  barrier := hstep
  pc := fun _ hd => setPc_of_ne _ fun heq => hd (congrArg some heq.symm)
  current := fun _ hd => setCurrent_of_ne _ fun heq => hd (congrArg some heq.symm)
  cpuCount := rfl
  idleTask := rfl
  wired := fun h => (h.setCurrent (h.lt hout) hold).setPc (h.lt hout) fun hb => absurd hb hnew

lemma scheduleStep_moves (choice : Choice) :
    Moves w (.schedule c choice) (scheduleStep w c choice) := by
  by_cases hout : w.pc c = .out
  · rw [scheduleStep, hout]
    exact moves_refl ⟨if_neg (by rw [hout]; simp), rfl⟩
  by_cases hpark : w.pc c = .park
  · rw [scheduleStep, hpark]
    exact moves_setPc hout (.park hpark) (steady_park (w.current c)) fun _ hb => hb.elim
  have silent : parksBy w (.schedule c choice) = none ∧ releasesBy w (.schedule c choice) = none :=
    ⟨if_neg hpark, rfl⟩
  -- the next point of the CPU, after a step that leaves the barrier and the code of tasks alone
  have hnext : ∀ {w' : World} {pc : Pc}, Beside w w' →
      (Wired w → pc.busy → w.current c ≠ w.idleTask c) →
      Moves w (.schedule c choice) (w'.setPc c pc) := fun hs hbusy =>
    moves_setPc hout (aside_of_cont silent (hs.toSameBarrier.trans ⟨rfl, rfl, rfl, rfl⟩) hs.cont)
      hs.toSteady hbusy
  have hcalm : ∀ {pc : Pc}, ¬ pc.busy → Wired w → pc.busy → w.current c ≠ w.idleTask c :=
    fun hpc _ hb => absurd hb hpc
  have hself : ∀ {pc : Pc}, ¬ pc.busy → Moves w (.schedule c choice) (w.setPc c pc) :=
    fun hpc => hnext (Beside.refl w) (hcalm hpc)
  have hstate : ∀ {x : TaskId} {s : TaskState} {pc : Pc}, s ≠ .chanWait → ¬ pc.busy →
      Moves w (.schedule c choice) ((w.setState x s).setPc c pc) := fun hs hpc =>
    hnext (beside_setState hs) (hcalm hpc)
  rw [scheduleStep]
  cases hpc : w.pc c with
  | out => exact absurd hpc hout
  | scan i =>
    dsimp only
    split_ifs
    · exact hnext beside_expire (hcalm id)
    · exact hself id
  | load => exact hself id
  | loaded active =>
    dsimp only
    split_ifs
    · exact hself id
    · exact hself id
  | save active =>
    exact hnext (Beside.refl w) fun h => saveOutgoing_busy h (h.lt hout)
  | park => exact absurd hpc hpark
  | starve => exact hnext ⟨steady_starve c (w.current c), rfl, rfl, rfl, rfl⟩ (hcalm id)
  | yield active =>
    split_ifs with hidle
    · exact hstate (by decide) id
    · exact hnext (beside_setState (by decide)) fun h _ =>
        h.ne_idle (h.lt hout) (by simpa using hidle)
  | requeue active => exact hnext beside_enqueueReady (hcalm id)
  | pick active =>
    dsimp only
    split_ifs
    · exact hself id
    · exact hnext ((beside_findWork choice.victim).trans beside_dequeue) (hcalm id)
  | picked next =>
    refine hself ?_
    cases next.filter fun t => w.state t ≠ some .zombie with
    | none => exact idleOr_not_busy fun _ => id
    | some t => exact id
  | dispatch next => exact hstate (by decide) id
  | install next =>
    have hinstalled : Moves w (.schedule c choice) ((w.setCurrent c next).setPc c .deliver) :=
      moves_setCurrent hout (aside_of_cont silent ⟨rfl, rfl, rfl, rfl⟩ rfl) (by rw [hpc]; exact id) id
    refine ⟨aside_of_cont silent ⟨rfl, rfl, rfl, rfl⟩ rfl, hinstalled.pc, hinstalled.current, rfl,
      rfl, fun h => ?_⟩
    exact (hinstalled.wired h).modify fun _ => rfl
  | deliver =>
    cases hd : (w.tasks (w.current c)).map deliverSignals with
    | none => exact hself id
    | some r =>
      obtain ⟨o, task⟩ := r
      cases o with
      | none => exact hnext ((quiet_delivered hd).beside rfl) (hcalm id)
      | some sig =>
        exact hnext (((quiet_delivered hd).beside rfl).trans
          (wakes_beside.retire task.exitStatus)) (hcalm id)
  | notify woken =>
    cases woken with
    | none => exact hstate (by decide) id
    | some t => exact hnext beside_enqueueReady (hcalm id)
  | replace =>
    have hbeside : Beside w (dequeue w c).2 := beside_dequeue
    cases hr : dequeue w c with
    | mk o w₁ =>
    rw [hr] at hbeside
    cases o with
    | none => exact hnext hbeside (hcalm (idleOr_not_busy fun _ => id))
    | some t =>
      dsimp only
      split_ifs
      · exact hnext hbeside (hcalm id)
      · exact hnext hbeside (hcalm id)
  | replaced next => exact hstate (by decide) id
  | reinstall next =>
    exact moves_setCurrent hout (aside_of_cont silent ⟨rfl, rfl, rfl, rfl⟩ rfl)
      (by rw [hpc]; exact id) id
  | halted => exact moves_refl silent

lemma contStep_moves (ht : executing w c = some t) : Moves w (.continue c) (contStep w c t) := by
  have silent : ∀ {cont : Cont}, w.cont t = cont → ¬ cont.barred ∨ cont = .holding →
      parksBy w (.continue c) = none ∧ releasesBy w (.continue c) = none := by
    rintro _ rfl hnot
    refine ⟨rfl, ?_⟩
    rw [releasesBy, ht, Option.bind_some]
    cases hcont : w.cont t with
    | releasing seq ts => rw [hcont] at hnot; simp [Cont.barred] at hnot
    | _ => rfl
  have hnext : ∀ {w' : World} {cont cont' : Cont}, w.cont t = cont → Beside w w' →
      ¬ cont.barred → ¬ cont'.barred → (∀ x i, cont' ≠ .reaping x i) →
      Moves w (.continue c) (w'.setCont t cont') := by
    rintro w' _ cont' rfl hs hold hnew hreap
    exact moves_setCont (aside_setCont (silent rfl (.inl hold)) hs.toSameBarrier hs.cont hold hnew)
      hs.toSteady hreap
  have hself : Steady w w := (Quiet.refl w).toSteady
  rw [contStep]
  cases hcont : w.cont t with
  | user => exact moves_refl (silent hcont (.inl id))
  | linked l => exact moves_refl (silent hcont (.inl id))
  | holding => exact moves_refl (silent hcont (.inr rfl))
  | blocking l =>
    split_ifs
    · exact moves_refl (silent hcont (.inl id))
    · have hunlinked := quiet_setWaiters (w := w) (l := l) (unlink (w.waiters l) t)
      refine hnext hcont (Quiet.beside (hunlinked.trans ?_) rfl) id id (by simp)
      exact quiet_modify (fun _ => rfl) fun _ hs => hs
  | waking ts =>
    cases ts with
    | nil => exact hnext hcont (Beside.refl w) id id (by simp)
    | cons x xs => exact hnext hcont beside_enqueueReady id id (by simp)
  | killing target woken | dying woken =>
    cases woken with
    | none => exact hnext hcont (beside_setState (by decide)) id id (by simp)
    | some x => exact hnext hcont beside_enqueueReady id id (by simp)
  | exiting => exact hnext hcont wakes_beside.wakeWaitingParent id id (by simp)
  | creating child => exact hnext hcont (beside_setState (by decide)) id id (by simp)
  | reaping x i =>
    have hold : ¬ (w.cont t).barred := by rw [hcont]; exact id
    have hstep : ∀ {w' : World} {cont : Cont}, SameBarrier w w' → w'.cont = w.cont →
        ¬ cont.barred → BarrierStep w (.continue c) (w'.setCont t cont) := fun same hsame hnew =>
      aside_setCont (silent hcont (.inl id)) same hsame hold hnew
    dsimp only
    split_ifs
    · exact hnext hcont (Beside.refl w) id id (by simp)
    · refine ⟨hstep (SameBarrier.refl w) rfl id, fun _ _ => rfl, fun _ _ => rfl, rfl, rfl,
        fun h => h.setCont fun y j hy => ?_⟩
      cases hy
      exact h.reaping t x i hcont
    · exact ⟨hstep ⟨rfl, rfl, rfl, rfl⟩ rfl id, fun _ _ => rfl, fun _ _ => rfl, rfl, rfl,
        fun h => (h.free (h.reaping t x i hcont)).setCont (by simp)⟩
  | begun =>
    exact moves_setCont (.resets ht hcont) ⟨calm_of_tasks rfl, rfl, rfl, rfl⟩ (by simp)
  | polling i =>
    dsimp only
    split_ifs with hi hidle
    · exact moves_setCont (.polls ht hcont hi hidle) hself (by simp)
    · exact moves_setCont (.retries ht hcont) hself (by simp)
    · exact moves_setCont (.succeeds ht hcont (not_lt.mp hi)) hself (by simp)
  | ending seq ts =>
    exact moves_setCont (.clears ht hcont) ⟨calm_of_tasks rfl, rfl, rfl, rfl⟩ (by simp)
  | releasing seq ts =>
    cases ts with
    | nil => exact moves_setCont (.finishes ht hcont) hself (by simp)
    | cons x xs =>
      exact moves_setCont (.releases ht hcont)
        ((quiet_setState (by decide)).toSteady.trans ⟨calm_enqueueReady, rfl, rfl, rfl⟩) (by simp)

lemma callStep_moves (ht : executing w c = some t) (call : Call) :
    Moves w (.call c call) (callStep w t call) := by
  have hrefl : Moves w (.call c call) w := moves_refl ⟨rfl, rfl⟩
  -- the task leaves user code for code that is not the barrier's
  have hnext : ∀ {w' : World} {cont : Cont}, w.cont t = .user → Beside w w' →
      ¬ cont.barred → (∀ x i, cont ≠ .reaping x i) → Moves w (.call c call) (w'.setCont t cont) :=
    fun hcont hs hnew hreap => moves_setCont (aside_setCont ⟨rfl, rfl⟩ hs.toSameBarrier hs.cont
      (by rw [hcont]; exact id) hnew) hs.toSteady hreap
  cases call with
  | block l timeoutNs =>
    rw [callStep]
    split_ifs with hcont
    · refine ⟨aside_setCont ⟨rfl, rfl⟩ ⟨rfl, rfl, rfl, rfl⟩ rfl (by rw [hcont]; exact id) id,
        fun _ _ => rfl, fun _ _ => rfl, rfl, rfl, fun h => ?_⟩
      have hlinked := h.steady (quiet_setWaiters (l := l) (t :: w.waiters l)).toSteady
      exact Wired.setCont (hlinked.modify fun _ => rfl) (by simp)
    · exact hrefl
  | wakeOne l r =>
    rw [callStep]
    split_ifs with hcont
    · exact hnext hcont (wakes_beside.wakeOne r) id (by simp)
    · exact hrefl
  | wakeAll l r =>
    rw [callStep]
    split_ifs with hcont
    · exact hnext hcont (wakes_beside.wakeAll r) id (by simp)
    · exact hrefl
  | kill target =>
    rw [callStep]
    split_ifs with hguard
    · exact hnext hguard.1 (wakes_beside.retire _) id (by simp)
    · exact hrefl
  | signal target sig =>
    rw [callStep]
    dsimp only
    have hpending := (quiet_pending (w := w) (t := target) sig).beside rfl
    split_ifs with hguard
    · exact hnext hguard.1 (hpending.trans (beside_setState (by decide))) id (by simp)
    · exact moves_of_beside ⟨rfl, rfl⟩ hpending
    · exact hrefl
  | setHandler sig handler =>
    rw [callStep]
    split_ifs
    · refine moves_of_beside ⟨rfl, rfl⟩ (Quiet.beside ?_ rfl)
      exact quiet_modify (fun _ => rfl) fun _ hs => hs
    · exact hrefl
  | exit status =>
    rw [callStep]
    split_ifs with hguard
    · exact hnext hguard.1 ((((quiet_exitStatus status).trans quiet_orphanChildren).trans
        (quiet_setState (by decide))).beside rfl) id (by simp)
    · exact hrefl
  | crash status =>
    rw [callStep]
    split_ifs with hcont
    · exact hnext hcont (wakes_beside.retire status) id (by simp)
    · exact hrefl
  | create kernel =>
    rw [callStep]
    split_ifs with hcont
    · have hwired : Wired w → Wired (createTask w t kernel) := fun h => h.createTask kernel
      rw [createTask] at hwired ⊢
      split_ifs at hwired ⊢
      · exact hrefl
      · exact ⟨aside_setCont ⟨rfl, rfl⟩ ⟨rfl, rfl, rfl, rfl⟩ rfl (by rw [hcont]; exact id) id,
          fun _ _ => rfl, fun _ _ => rfl, rfl, rfl, hwired⟩
    · exact hrefl
  | createFails kernel =>
    rw [callStep]
    cases hcont : w.cont t with
    | creating child =>
      have hold : ¬ (w.cont t).barred := by rw [hcont]; exact id
      split_ifs
      · exact moves_setCont (aside_setCont ⟨rfl, rfl⟩ ⟨rfl, rfl, rfl, rfl⟩ rfl hold id)
          (quiet_setState (by decide)).toSteady (by simp)
      · exact moves_setCont (aside_setCont ⟨rfl, rfl⟩ (SameBarrier.refl w) rfl hold id)
          (Quiet.refl w).toSteady (by simp)
    | _ => exact hrefl
  | reap child =>
    rw [callStep]
    split_ifs with hreap
    · refine ⟨aside_setCont ⟨rfl, rfl⟩ (SameBarrier.refl w) rfl (by rw [hreap.1]; exact id) id,
        fun _ _ => rfl, fun _ _ => rfl, rfl, rfl, fun h => h.setCont fun x i hx => ?_⟩
      cases hx
      obtain ⟨task, htask, hparent⟩ := Option.bind_eq_some_iff.mp hreap.2.1
      cases hidle : task.isIdle with
      | false => simp [World.isIdle, htask, hidle]
      | true =>
        rw [h.parent child task htask hidle] at hparent
        cases hparent
    · exact hrefl
  | refill cpu =>
    rw [callStep]
    split_ifs
    · exact moves_of_beside ⟨rfl, rfl⟩ beside_refill
    · exact hrefl
  | beginBarrier =>
    rw [callStep]
    split_ifs with hguard
    · exact moves_setCont (.begins ht hguard.1 (by simpa using hguard.2))
        ⟨calm_of_tasks rfl, rfl, rfl, rfl⟩ (by simp)
    · exact hrefl
  | barrierTimeout =>
    rw [callStep]
    cases hcont : w.cont t with
    | polling i =>
      exact moves_setCont (.timesOut ht hcont) ⟨calm_of_tasks rfl, rfl, rfl, rfl⟩ (by simp)
    | _ => exact hrefl
  | endBarrier =>
    rw [callStep]
    split_ifs with hcont
    · exact moves_setCont (.ends ht hcont) ⟨calm_of_tasks rfl, rfl, rfl, rfl⟩ (by simp)
    · exact hrefl

lemma enter_moves (hc : c < w.cpuCount) : Moves w (.enter c) (enter w c) where
  barrier := by
    refine .aside ⟨rfl, rfl⟩ ⟨rfl, rfl, rfl, rfl⟩ fun t => ?_
    change (w.setCont (w.current c) (w.cont (w.current c)).interrupted).cont t = w.cont t ∨
      ¬ (w.cont t).barred ∧
        ¬ ((w.setCont (w.current c) (w.cont (w.current c)).interrupted).cont t).barred
    by_cases ht : t = w.current c
    · subst ht
      rw [setCont_self]
      cases w.cont (w.current c) <;> first | exact .inl rfl | exact .inr ⟨id, id⟩
    · exact .inl (setCont_of_ne _ ht)
  pc := fun _ hd => setPc_of_ne _ fun heq => hd (congrArg some heq.symm)
  current := fun _ _ => rfl
  cpuCount := rfl
  idleTask := rfl
  wired := fun h => by
    have hcont : Wired (w.setCont (w.current c) (w.cont (w.current c)).interrupted) := by
      refine h.setCont fun x i hx => ?_
      cases hold : w.cont (w.current c) <;> rw [hold] at hx <;> cases hx
      exact h.reaping _ x i hold
    refine hcont.setPc hc fun hb => ?_
    split_ifs at hb <;> exact hb.elim

/-- What any step does to the barrier, to the CPUs and to the idle tasks. -/
theorem step_moves (w : World) (op : Op) : Moves w op (step w op) := by
  cases op with
  | tick =>
    exact moves_of_beside ⟨rfl, rfl⟩ ⟨⟨calm_of_tasks rfl, rfl, rfl, rfl⟩, rfl, rfl, rfl, rfl⟩
  | enter c =>
    rw [step]
    split_ifs with hin
    · exact enter_moves hin.1
    · exact moves_refl ⟨rfl, rfl⟩
  | schedule c choice => exact scheduleStep_moves choice
  | «continue» c =>
    rw [step]
    cases ht : executing w c with
    | none => exact moves_refl ⟨rfl, by rw [releasesBy, ht]; rfl⟩
    | some t => exact contStep_moves ht
  | call c call =>
    rw [step]
    cases ht : executing w c with
    | none => exact moves_refl ⟨rfl, rfl⟩
    | some t => exact callStep_moves ht call

lemma step_wired (h : Wired w) (op : Op) : Wired (step w op) := (step_moves w op).wired h

end Steps

end GrahaOS.Scheduler
