import GrahaOS.SnapshotBarrier

/-!
# The owner of the barrier runs alone

`snap_begin_barrier` looks once at the current task of each CPU, and `schedule` reads the flag once
and acts on it many steps later. A CPU that is found idle after it has read the flag as clear goes
on to dispatch a task while the barrier holds.
-/

namespace GrahaOS.Scheduler.BarrierExclusion

open World Runs

/-- Steps that leave the CPUs alone. -/
structure SameCpus (w w' : World) : Prop where
  pc : w'.pc = w.pc
  current : w'.current = w.current
  cpuCount : w'.cpuCount = w.cpuCount
  idleTask : w'.idleTask = w.idleTask

section Cpus

variable {w w' : World} {c d : CpuId} {t : TaskId}

lemma sameCpus_of_moves {op : Op} (h : Moves w op w') (hop : movedBy op = none) : SameCpus w w' where
  pc := funext fun d => h.pc d (by simp [hop])
  current := funext fun d => h.current d (by simp [hop])
  cpuCount := h.cpuCount
  idleTask := h.idleTask

/-- The other CPUs do not notice a step of `schedule`. -/
structure Elsewhere (c : CpuId) (w w' : World) : Prop where
  pc : ∀ d, d ≠ c → w'.pc d = w.pc d
  current : ∀ d, d ≠ c → w'.current d = w.current d
  cpuCount : w'.cpuCount = w.cpuCount
  idleTask : w'.idleTask = w.idleTask

lemma scheduleStep_elsewhere (choice : Choice) : Elsewhere c w (scheduleStep w c choice) := by
  have hmoves : Moves w (.schedule c choice) (scheduleStep w c choice) := scheduleStep_moves choice
  have hmoved : ∀ {d}, d ≠ c → movedBy (.schedule c choice) ≠ some d := fun hd heq =>
    hd (Option.some.inj heq).symm
  exact ⟨fun d hd => hmoves.pc d (hmoved hd), fun d hd => hmoves.current d (hmoved hd),
    hmoves.cpuCount, hmoves.idleTask⟩

end Cpus

/-- Where a CPU is in `schedule` if it goes back to its idle task while the flag is set. -/
def settled (idle : TaskId) : Pc → Bool
  | .out | .scan _ | .load | .loaded true | .save true | .yield true | .pick true | .picked none
  | .deliver | .halted => true
  | .dispatch next | .install next => next = idle
  | _ => false

/-- The CPU is idle, and stays so. -/
def Settled (w : World) (c : CpuId) : Prop :=
  w.current c = w.idleTask c ∧ settled (w.idleTask c) (w.pc c) = true

/-- The CPU that `snap_begin_barrier` finds idle in a step. -/
def foundIdle (w : World) : Op → Option CpuId
  | .continue c => (executing w c).bind fun t =>
    match w.cont t with
    | .polling i => if i ≠ c ∧ w.current i = w.idleTask i then some i else none
    | _ => none
  | _ => none

/-- The idle task that a step delivers signals to. -/
def deliversIdle (w : World) : Op → Option TaskId
  | .schedule c _ =>
    if w.pc c = .deliver ∧ w.current c = w.idleTask c then some (w.current c) else none
  | _ => none

/-- A CPU that `snap_begin_barrier` finds idle has not read the flag as clear and is not about to
switch to a task, and no signal terminates an idle task. -/
def Careful (w : World) (op : Op) : Prop :=
  Switched w op ∧ (∀ i, foundIdle w op = some i → settled (w.idleTask i) (w.pc i) = true) ∧
    ∀ t, deliversIdle w op = some t → terminated w t = false

section Idle

variable {w : World} {c : CpuId}

lemma settled_setPc {w' : World} {pc : Pc} (hcurrent : w'.current c = w'.idleTask c)
    (hpc : settled (w'.idleTask c) pc = true) : Settled (w'.setPc c pc) c :=
  ⟨hcurrent, by rw [setPc_self]; exact hpc⟩

lemma settled_idleOr : settled (w.idleTask c) (idleOr w c .dispatch) = true := by
  rw [idleOr]
  split_ifs
  · rfl
  · exact decide_eq_true rfl

lemma scheduleStep_settled (hw : Wired w) (hc : c < w.cpuCount) (hflag : w.barrierFlag = true)
    (h : Settled w c) {choice : Choice} (hop : Careful w (.schedule c choice)) :
    Settled (scheduleStep w c choice) c := by
  obtain ⟨hcurrent, hpc⟩ := h
  have hidle : w.isIdle (w.current c) = true := by
    rw [hcurrent]
    exact (hw.idle c hc).2
  rw [scheduleStep]
  cases hc' : w.pc c with
  | out => exact ⟨hcurrent, by rw [hc']; rfl⟩
  | scan i =>
    dsimp only
    split_ifs
    · have hsteady : Steady w (expire w i) := beside_expire.toSteady
      refine settled_setPc ?_ rfl
      rw [hsteady.current, hsteady.idleTask]
      exact hcurrent
    · exact settled_setPc hcurrent rfl
  | load =>
    rw [hflag]
    exact settled_setPc hcurrent rfl
  | loaded active =>
    rw [hc'] at hpc
    dsimp only
    split_ifs
    · exact settled_setPc hcurrent rfl
    · cases active with
      | true => exact settled_setPc hcurrent rfl
      | false => cases hpc
  | save active =>
    rw [hc'] at hpc
    cases active with
    | false => cases hpc
    | true =>
    refine settled_setPc hcurrent ?_
    rw [saveOutgoing]
    -- the idle task is neither parked nor starved
    split_ifs with hrun hpark hstarve
    · exact absurd hidle hpark.2
    · exact absurd hidle hstarve.2
    · rfl
    · rfl
  | yield active =>
    rw [hc'] at hpc
    dsimp only
    rw [if_pos hidle]
    cases active with
    | true => exact settled_setPc hcurrent rfl
    | false => cases hpc
  | pick active =>
    rw [hc'] at hpc
    cases active with
    | true => exact settled_setPc hcurrent rfl
    | false => cases hpc
  | picked next =>
    rw [hc'] at hpc
    cases next with
    | none => exact settled_setPc hcurrent settled_idleOr
    | some t => cases hpc
  | dispatch next =>
    rw [hc'] at hpc
    exact settled_setPc hcurrent hpc
  | install next =>
    rw [hc'] at hpc
    have hnext : next = w.idleTask c := of_decide_eq_true hpc
    refine settled_setPc ?_ rfl
    exact (setCurrent_self w c next).trans hnext
  | deliver =>
    have hnot := hop.2.2 (w.current c) (if_pos ⟨hc', hcurrent⟩)
    cases hd : (w.tasks (w.current c)).map deliverSignals with
    | none => exact settled_setPc hcurrent rfl
    | some r =>
      obtain ⟨o, task⟩ := r
      cases o with
      | none => exact settled_setPc hcurrent rfl
      | some sig => simp [terminated, hd] at hnot
  | halted => exact ⟨hcurrent, by rw [hc']; rfl⟩
  | park | starve | requeue active | notify woken | replace | replaced next | reinstall next =>
    rw [hc'] at hpc; cases hpc

end Idle

/-- The CPUs that the owner of the barrier has found idle. -/
def polled (w : World) : Cont → ℕ
  | .polling i => i
  | .holding | .ending _ _ => w.cpuCount
  | _ => 0

/-- The owner keeps its CPU: interrupts are masked, or `schedule` returns at once. -/
def stays : Cont → Pc → Prop
  | _, .out => True
  | .holding, .scan _ | .holding, .load | .holding, .loaded true => True
  | _, _ => False

/-- The owner is on a CPU, and the CPUs it has found idle stay so. -/
def Exclusive (w : World) : Prop :=
  ∀ t, (w.cont t).owns → ∃ c, w.current c = t ∧ t ≠ w.idleTask c ∧ stays (w.cont t) (w.pc c) ∧
    ∀ j < polled w (w.cont t), j < w.cpuCount → j ≠ c → Settled w j

section Steps

variable {w w' : World} {c : CpuId} {t : TaskId} {cont : Cont}

lemma polled_eq (hcpus : SameCpus w w') (cont : Cont) : polled w' cont = polled w cont := by
  cases cont <;> simp [polled, hcpus.cpuCount]

lemma stays_out (cont : Cont) : stays cont .out := by
  cases cont <;> trivial

lemma mem_places_of_stays (hcurrent : w.current c = t) (hne : t ≠ w.idleTask c)
    (hpc : stays cont (w.pc c)) : t ∈ places w (.cpu c) := by
  have hholds : (w.pc c).holds (w.current c) (w.idleTask c) =
      other (w.idleTask c) (w.current c) := by
    generalize w.pc c = pc at hpc ⊢
    cases pc <;> first | rfl | (cases cont <;> exact hpc.elim)
  simp only [places, hholds]
  rw [hcurrent, other_of_ne hne]
  exact List.mem_singleton_self t

lemma Exclusive.at_executing (hp : Placed w) (h : Exclusive w) (ht : executing w c = some t)
    (hown : (w.cont t).owns) : ∀ j < polled w (w.cont t), j < w.cpuCount → j ≠ c → Settled w j := by
  obtain ⟨d, hcurrent, hne, hpc, hsettled⟩ := h t hown
  have hsame := hp.separate.apart (mem_places_of_stays hcurrent hne hpc)
    (mem_places_of_executing ht)
  cases hsame
  exact hsettled

lemma exclusive_of_executing (hcpus : SameCpus w w') (ht : executing w c = some t)
    (hcont : w'.cont t = cont) (hothers : ∀ s, s ≠ t → ¬ (w'.cont s).owns)
    (hsettled : cont.owns → ∀ j < polled w cont, j < w.cpuCount → j ≠ c → Settled w j) :
    Exclusive w' := by
  intro s hs
  have hst : s = t := by
    by_contra hne
    exact hothers s hne hs
  subst hst
  obtain ⟨hpc, hcurrent, hne⟩ := executing_eq ht
  rw [hcont] at hs ⊢
  refine ⟨c, ?_, ?_, ?_, fun j hj hlt hjc => ?_⟩
  · rw [hcpus.current]
    exact hcurrent
  · rw [hcpus.idleTask]
    exact hne
  · rw [hcpus.pc, hpc]
    exact stays_out cont
  · rw [Settled, hcpus.current, hcpus.idleTask, hcpus.pc]
    exact hsettled hs j (polled_eq hcpus _ ▸ hj) (hcpus.cpuCount ▸ hlt) hjc

/-- A step of another task, which is not the owner's. -/
lemma Exclusive.sameCpus (h : Exclusive w) (hcpus : SameCpus w w')
    (hcont : ∀ s, (w'.cont s).owns → w'.cont s = w.cont s) : Exclusive w' := by
  intro s hs
  have hsame := hcont s hs
  rw [hsame] at hs ⊢
  obtain ⟨c, hcurrent, hne, hpc, hsettled⟩ := h s hs
  refine ⟨c, ?_, ?_, ?_, fun j hj hlt hjc => ?_⟩
  · rw [hcpus.current]
    exact hcurrent
  · rw [hcpus.idleTask]
    exact hne
  · rw [hcpus.pc]
    exact hpc
  · rw [Settled, hcpus.current, hcpus.idleTask, hcpus.pc]
    exact hsettled j (polled_eq hcpus _ ▸ hj) (hcpus.cpuCount ▸ hlt) hjc

lemma Exclusive.barrierStep {op : Op} (hp : Placed w) (hown : Owned w) (h : Exclusive w)
    (hop : Careful w op) (hcpus : SameCpus w w') (hstep : BarrierStep w op w') : Exclusive w' := by
  -- a task that is not the owner after the step, next to the one that goes on
  have hothers : ∀ {w₁ : World} {cont : Cont} {t : TaskId}, w₁.cont = w.cont →
      (w.cont t).owns → ∀ s, s ≠ t → ¬ ((w₁.setCont t cont).cont s).owns := by
    intro w₁ cont t hcont ht s hs
    rw [setCont_of_ne _ hs, hcont]
    exact hown.others ht s hs
  cases hstep with
  | aside silent same hcont =>
    refine h.sameCpus hcpus fun s hs => ?_
    exact (hcont s).resolve_right fun hnot => hnot.2 (Cont.barred_of_owns hs)
  | park => exact h.sameCpus hcpus fun s _ => rfl
  | begins ht hcont hflag =>
    refine exclusive_of_executing hcpus ht (setCont_self ..) (fun s hs hsown => ?_)
      fun _ j hj => absurd hj (Nat.not_lt_zero j)
    rw [setCont_of_ne _ hs] at hsown
    rw [hown.flag hsown] at hflag
    cases hflag
  | resets ht hcont | retries ht hcont =>
    exact exclusive_of_executing hcpus ht (setCont_self ..) (hothers rfl (by rw [hcont]; trivial))
      fun _ j hj => absurd hj (Nat.not_lt_zero j)
  | @polls c t i ht hcont hi hidle =>
    have howns : (w.cont t).owns := by rw [hcont]; trivial
    refine exclusive_of_executing hcpus ht (setCont_self ..) (hothers rfl howns)
      fun _ j hj hlt hjc => ?_
    rcases Nat.lt_succ_iff_lt_or_eq.mp hj with hj | rfl
    · exact h.at_executing hp ht howns j (by rw [hcont]; exact hj) hlt hjc
    · have hcurrent := hidle.resolve_left hjc
      exact ⟨hcurrent, hop.2.1 j (by simp [foundIdle, ht, hcont, hjc, hcurrent])⟩
  | @succeeds c t i ht hcont hi =>
    have howns : (w.cont t).owns := by rw [hcont]; trivial
    refine exclusive_of_executing hcpus ht (setCont_self ..) (hothers rfl howns)
      fun _ j _ hlt hjc => ?_
    exact h.at_executing hp ht howns j (by rw [hcont]; exact hlt.trans_le hi) hlt hjc
  | timesOut ht hcont | clears ht hcont =>
    exact exclusive_of_executing hcpus ht (setCont_self ..) (hothers rfl (by rw [hcont]; trivial))
      fun howns => howns.elim
  | @ends c t ht hcont =>
    have howns : (w.cont t).owns := by rw [hcont]; trivial
    refine exclusive_of_executing hcpus ht (setCont_self ..) (hothers rfl howns)
      fun _ j hj hlt hjc => ?_
    exact h.at_executing hp ht howns j (by rw [hcont]; exact hj) hlt hjc
  | @releases c t x seq xs ht hcont | @finishes c t seq ht hcont =>
    refine h.sameCpus hcpus fun s hs => ?_
    have hst : s ≠ t := by
      rintro rfl
      rw [setCont_self] at hs
      exact hs.elim
    exact setCont_of_ne _ hst

lemma scheduleStep_stays (hown : Owned w) (hcurrent : w.current c = t) (ht : (w.cont t).owns)
    (hpc : stays (w.cont t) (w.pc c)) (choice : Choice) :
    (scheduleStep w c choice).current c = t ∧
      stays (w.cont t) ((scheduleStep w c choice).pc c) := by
  rw [scheduleStep]
  cases hc : w.pc c with
  | out => exact ⟨hcurrent, by rw [hc]; exact stays_out _⟩
  | scan i =>
    rw [hc] at hpc
    cases hcont : w.cont t <;> rw [hcont] at hpc <;> first | exact hpc.elim | skip
    dsimp only
    split_ifs
    · refine ⟨(congrFun beside_expire.current c).trans hcurrent, ?_⟩
      rw [setPc_self]
      trivial
    · exact ⟨hcurrent, by rw [setPc_self]; trivial⟩
  | load =>
    rw [hc] at hpc
    cases hcont : w.cont t <;> rw [hcont] at hpc <;> first | exact hpc.elim | skip
    refine ⟨hcurrent, ?_⟩
    rw [setPc_self, hown.flag ht]
    trivial
  | loaded active =>
    rw [hc] at hpc
    cases active with
    | false => cases hcont : w.cont t <;> rw [hcont] at hpc <;> exact hpc.elim
    | true =>
    have hholding : w.cont t = .holding := by
      cases hcont : w.cont t <;> rw [hcont] at hpc <;> first | rfl | exact hpc.elim
    have howner : w.ownerTask = some (w.current c) := by
      rw [hcurrent]
      exact hown.owner (by rw [hholding]; rfl)
    dsimp only
    rw [if_pos ⟨rfl, howner⟩]
    exact ⟨hcurrent, by rw [setPc_self]; exact stays_out _⟩
  | _ =>
    rw [hc] at hpc
    cases hcont : w.cont t <;> rw [hcont] at hpc <;> exact hpc.elim

end Steps

lemma interrupted_of_owns {cont : Cont} (h : cont.interrupted.owns) : cont.interrupted = cont := by
  cases cont <;> first | rfl | exact h.elim

lemma Exclusive.enter {w : World} {c : CpuId} (h : Exclusive w) (hpc : w.pc c = .out)
    (hmask : (w.cont (w.current c)).masked = false) : Exclusive (enter w c) := by
  intro t ht
  have hcont : (Scheduler.enter w c).cont t = w.cont t := by
    change (w.setCont (w.current c) (w.cont (w.current c)).interrupted).cont t = w.cont t
    change ((w.setCont (w.current c) (w.cont (w.current c)).interrupted).cont t).owns at ht
    by_cases htc : t = w.current c
    · subst htc
      rw [setCont_self] at ht ⊢
      exact interrupted_of_owns ht
    · exact setCont_of_ne _ htc
  rw [hcont] at ht ⊢
  obtain ⟨d, hcurrent, hne, hstays, hsettled⟩ := h t ht
  refine ⟨d, hcurrent, hne, ?_, fun j hj hlt hjd => ?_⟩
  · by_cases hdc : d = c
    · subst hdc
      -- interrupts are masked but while the barrier holds
      have hholding : w.cont t = .holding := by
        rw [hcurrent] at hmask
        cases hcont : w.cont t <;> rw [hcont] at hmask ht <;>
          first | rfl | exact ht.elim | cases hmask
      rw [hholding, Scheduler.enter, setPc_self]
      split_ifs <;> trivial
    · rw [Scheduler.enter, setPc_of_ne _ hdc]
      exact hstays
  · obtain ⟨hidle, hpcs⟩ := hsettled j hj hlt hjd
    by_cases hjc : j = c
    · subst hjc
      refine settled_setPc hidle ?_
      split_ifs <;> rfl
    · exact ⟨hidle, by rw [Scheduler.enter, setPc_of_ne _ hjc]; exact hpcs⟩

lemma Exclusive.schedule {w : World} {c : CpuId} {choice : Choice} (hw : Wired w) (hown : Owned w)
    (h : Exclusive w) (hop : Careful w (.schedule c choice)) :
    Exclusive (scheduleStep w c choice) := by
  have helse : Elsewhere c w (scheduleStep w c choice) := scheduleStep_elsewhere choice
  intro t ht
  have hcont : (scheduleStep w c choice).cont t = w.cont t := by
    have hstep : BarrierStep w (.schedule c choice) (scheduleStep w c choice) :=
      (scheduleStep_moves choice).barrier
    generalize scheduleStep w c choice = w' at hstep ht ⊢
    cases hstep with
    | aside silent same hcont =>
      exact (hcont t).resolve_right fun hnot => hnot.2 (Cont.barred_of_owns ht)
    | park => rfl
  have hpolled : polled (scheduleStep w c choice) (w.cont t) = polled w (w.cont t) := by
    cases w.cont t <;> simp [polled, helse.cpuCount]
  rw [hcont] at ht ⊢
  obtain ⟨d, hcurrent, hne, hstays, hsettled⟩ := h t ht
  -- the CPUs that were found idle stay so
  have hidle : ∀ j < polled (scheduleStep w c choice) (w.cont t),
      j < (scheduleStep w c choice).cpuCount → j ≠ d → Settled (scheduleStep w c choice) j := by
    intro j hj hlt hjd
    rw [hpolled] at hj
    rw [helse.cpuCount] at hlt
    by_cases hjc : j = c
    · subst hjc
      exact scheduleStep_settled hw hlt (hown.flag ht) (hsettled j hj hlt hjd) hop
    · rw [Settled, helse.current j hjc, helse.idleTask, helse.pc j hjc]
      exact hsettled j hj hlt hjd
  refine ⟨d, ?_, by rwa [helse.idleTask], ?_, hidle⟩
  · by_cases hdc : d = c
    · subst hdc
      exact (scheduleStep_stays hown hcurrent ht hstays choice).1
    · rw [helse.current d hdc]
      exact hcurrent
  · by_cases hdc : d = c
    · subst hdc
      exact (scheduleStep_stays hown hcurrent ht hstays choice).2
    · rw [helse.pc d hdc]
      exact hstays

/-- Every careful step keeps the barrier exclusive. -/
theorem step_exclusive (w : World) (op : Op) (hp : Placed w) (hown : Owned w) (h : Exclusive w)
    (hop : Careful w op) : Exclusive (step w op) := by
  cases op with
  | tick => exact h
  | enter c =>
    rw [step]
    split_ifs with hin
    · exact h.enter hin.2.1 hin.2.2
    · exact h
  | schedule c choice => exact h.schedule hp.toWired hown hop
  | «continue» c =>
    rw [step]
    cases ht : executing w c with
    | none => exact h
    | some t =>
      have hmoves := contStep_moves ht
      exact h.barrierStep hp hown hop (sameCpus_of_moves hmoves rfl) hmoves.barrier
  | call c call =>
    rw [step]
    cases ht : executing w c with
    | none => exact h
    | some t =>
      have hmoves := callStep_moves ht call
      exact h.barrierStep hp hown hop (sameCpus_of_moves hmoves rfl) hmoves.barrier

/-- In every state that is reached: from the success of `snap_begin_barrier` to the store with which
`snap_end_barrier` clears the flag, each CPU has its idle task or the owner of the barrier. -/
theorem owner_runs_alone (n : ℕ) {ops : List Op} (hops : Guarded step Careful (boot n) ops)
    {t : TaskId} (ht : (run step (boot n) ops).cont t = .holding ∨
      ∃ seq ts, (run step (boot n) ops).cont t = .ending seq ts) :
    ∀ c : CpuId, c < (run step (boot n) ops).cpuCount →
      (run step (boot n) ops).current c = (run step (boot n) ops).idleTask c ∨
        (run step (boot n) ops).current c = t := by
  have hexclusive : Exclusive (run step (boot n) ops) := by
    have hall := invariant_run (fun w => Placed w ∧ Owned w ∧ Exclusive w)
      (fun w op h hop => ⟨step_placed w op h.1 hop.1, step_owned w op h.2.1,
        step_exclusive w op h.1 h.2.1 h.2.2 hop⟩)
      ⟨placed_boot n, owned_boot n, fun t ht => ht.elim⟩ hops
    exact hall.2.2
  generalize run step (boot n) ops = w at hexclusive ht ⊢
  intro c hc
  obtain ⟨howns, hpolled⟩ : (w.cont t).owns ∧ polled w (w.cont t) = w.cpuCount := by
    rcases ht with hcont | ⟨seq, ts, hcont⟩ <;> rw [hcont] <;> exact ⟨trivial, rfl⟩
  obtain ⟨d, hcurrent, -, -, hsettled⟩ := hexclusive t howns
  by_cases hcd : c = d
  · exact .inr (hcd ▸ hcurrent)
  · exact .inl (hsettled c (hpolled ▸ hc) hc hcd).1

/-- `Careful`, looking at the CPUs that exist. -/
def CarefulHere (w : World) (op : Op) : Prop :=
  SwitchedHere w op ∧ (∀ i ∈ foundIdle w op, settled (w.idleTask i) (w.pc i) = true) ∧
    ∀ t ∈ deliversIdle w op, terminated w t = false

instance (w : World) (op : Op) : Decidable (CarefulHere w op) :=
  inferInstanceAs (Decidable (_ ∧ _ ∧ _))

lemma guarded_of_here {ops : List Op} {w : World} (h : Wired w)
    (hops : Guarded step CarefulHere w ops) : Guarded step Careful w ops :=
  guarded_of_invariant Wired (fun _ op h _ => step_wired h op)
    (fun _ _ h hop => ⟨switched_of_here h hop.1, hop.2⟩) h hops

/-- A task on the first CPU begins a barrier; the second one parks its task. -/
def holdOps : List Op :=
  reschedule 0 ++ spawn 0 ++ spawn 0 ++ steal 1 ++ [.call 0 .beginBarrier, .continue 0] ++
    reschedule 1 ++ [.continue 0, .continue 0, .continue 0]

/-- The second CPU is idle while the barrier holds. -/
theorem second_cpu_is_idle :
    Guarded step Careful (boot 2) holdOps ∧
    (run step (boot 2) holdOps).cont 2 = .holding ∧
    (run step (boot 2) holdOps).current 0 = 2 ∧
    ((run step (boot 2) holdOps).current 1 = (run step (boot 2) holdOps).idleTask 1 ∨
      (run step (boot 2) holdOps).current 1 = 2) := by
  have hops : Guarded step Careful (boot 2) holdOps :=
    guarded_of_here (placed_boot 2).toWired (by decide +kernel)
  have hholding : (run step (boot 2) holdOps).cont 2 = .holding := by decide +kernel
  have hcpu : 1 < (run step (boot 2) holdOps).cpuCount := by decide +kernel
  exact ⟨hops, hholding, by decide +kernel, owner_runs_alone 2 hops (.inl hholding) 1 hcpu⟩

/-- The second CPU reads the flag before a task on the first begins a barrier, and goes on after
the barrier has found it idle. -/
def staleOps : List Op :=
  reschedule 0 ++ spawn 0 ++ spawn 0 ++ [.enter 1, .schedule 1 {}] ++
    [.call 0 .beginBarrier, .continue 0, .continue 0, .continue 0, .continue 0] ++
    List.replicate 8 (.schedule 1 { victim := some 0 })

/-- The barrier holds, and the second CPU executes a task. -/
theorem second_cpu_runs_a_task :
    (run step (boot 2) staleOps).cont 2 = .holding ∧
    (run step (boot 2) staleOps).barrierFlag = true ∧
    (run step (boot 2) staleOps).cpuCount = 2 ∧
    (run step (boot 2) staleOps).idleTask 1 = 1 ∧
    (run step (boot 2) staleOps).current 1 = 4 ∧
    executing (run step (boot 2) staleOps) 1 = some 4 := by
  refine ⟨?_, ?_, ?_, ?_, ?_, ?_⟩ <;> decide +kernel

end GrahaOS.Scheduler.BarrierExclusion
