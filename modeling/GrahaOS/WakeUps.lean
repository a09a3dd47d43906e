import GrahaOS.TaskSeparation

/-!
# Wake-ups are neither lost nor doubled

A task that is woken leaves the list it waits on only when it runs again, so the first task of a
list may be one that has timed out or was killed. `sched_wake_one_on_channel` takes it off the list
and wakes nobody.
-/

namespace GrahaOS.Scheduler.WakeUps

open Runs Option

section Waking

variable {w : World} {c : CpuId} {t x : TaskId} {l : WaitList} {ts : List TaskId}

lemma wakeOne_state (hl : w.waiters l = t :: ts) (hs : w.state t = some .chanWait) (r : ℤ)
    (x : TaskId) : (wakeOne w l r).2.state x = if x = t then some .ready else w.state x := by
  have hwoken : (wakeOne w l r).1 = some t := wakeOne_head hl hs
  split_ifs with hx
  · rw [hx]
    exact (wakeOne_woken hwoken).2.2
  · refine wakeOne_others fun h => hx ?_
    exact (Option.mem_unique hwoken h).symm

lemma wakeWaitingParent_state (hp : parentList w c = some l) (hl : w.waiters l = t :: ts)
    (hs : w.state t = some .chanWait) :
    (wakeWaitingParent w c).1 = some t ∧
      ∀ x, (wakeWaitingParent w c).2.state x = if x = t then some .ready else w.state x := by
  rw [wakeWaitingParent_eq, hp]
  exact ⟨wakeOne_head hl hs, wakeOne_state hl hs 0⟩

lemma retire_state (hp : retireList w c = some l) (hl : w.waiters l = t :: ts)
    (hs : w.state t = some .chanWait) (status : ℤ) :
    (retire w c status).1 = some t ∧
      ∀ x, (retire w c status).2.state x = if x = t then some .ready else w.state x := by
  have hsame : ∀ x, (orphanChildren (w.modify c fun task =>
      { task with exitStatus := status }) c).state x = w.state x := fun x => by
    rw [state_orphanChildren, state_exitStatus]
  have hlist : retireList (w.modify c fun task => { task with exitStatus := status }) c = some l :=
    (retireList_exitStatus status).trans hp
  obtain ⟨hwoken, hstate⟩ := wakeWaitingParent_state hlist hl ((hsame t).trans hs)
  refine ⟨hwoken, fun x => (hstate x).trans ?_⟩
  rw [hsame]

/-- A step that wakes a list whose first task waits makes this task ready and no other, and has it
in hand for a queue. -/
lemma wakesOne_step {op : Op} (hop : wakesOne w op = some l) (hl : w.waiters l = t :: ts)
    (hs : w.state t = some .chanWait) :
    (∀ x, (step w op).state x = if x = t then some .ready else w.state x) ∧
      ∃ p, t ∈ places (step w op) p := by
  cases op with
  | tick => cases hop
  | enter c => cases hop
  | schedule c choice =>
    rw [wakesOne] at hop
    split_ifs at hop with hd
    obtain ⟨hpc, hterm⟩ := hd
    obtain ⟨⟨o, task⟩, hd, hsome⟩ := (any_eq_true _ _).mp hterm
    obtain ⟨sig, rfl⟩ := isSome_iff_exists.mp hsome
    have hsame := state_delivered hd
    obtain ⟨hwoken, hstate⟩ := retire_state ((retireList_delivered hd).trans hop) hl
      ((hsame t).trans hs) task.exitStatus
    rw [step, scheduleStep, hpc]
    rw [hd]
    refine ⟨fun x => (hstate x).trans (by rw [hsame]), .cpu c, ?_⟩
    rw [places_setPc_self]
    exact List.mem_append.mpr (.inr (mem_toList.mpr hwoken))
  | «continue» c =>
    rw [wakesOne, bind_eq_some_iff] at hop
    obtain ⟨s, hexec, hop⟩ := hop
    split_ifs at hop with hcont
    obtain ⟨hwoken, hstate⟩ := wakeWaitingParent_state hop hl hs
    rw [step, hexec, elim_some, contStep, hcont]
    refine ⟨hstate, .kernel s, ?_⟩
    rw [places_setCont_self]
    exact mem_toList.mpr hwoken
  | call c call =>
    cases call with
    | wakeOne l' r =>
      rw [wakesOne, bind_eq_some_iff] at hop
      obtain ⟨s, hexec, hop⟩ := hop
      split_ifs at hop with hcont
      cases hop
      rw [step, hexec, elim_some, callStep, if_pos hcont]
      refine ⟨wakeOne_state hl hs r, .kernel s, ?_⟩
      rw [places_setCont_self]
      exact mem_toList.mpr (wakeOne_head hl hs)
    | kill target =>
      rw [wakesOne, bind_eq_some_iff] at hop
      obtain ⟨s, hexec, hop⟩ := hop
      split_ifs at hop with hguard
      obtain ⟨hwoken, hstate⟩ := retire_state hop hl hs (128 + sigkill)
      rw [step, hexec, elim_some, callStep, if_pos hguard]
      refine ⟨hstate, .kernel s, ?_⟩
      rw [places_setCont_self]
      exact mem_toList.mpr hwoken
    | crash status =>
      rw [wakesOne, bind_eq_some_iff] at hop
      obtain ⟨s, hexec, hop⟩ := hop
      split_ifs at hop with hcont
      obtain ⟨hwoken, hstate⟩ := retire_state hop hl hs status
      rw [step, hexec, elim_some, callStep, if_pos hcont]
      refine ⟨hstate, .kernel s, ?_⟩
      rw [places_setCont_self]
      exact mem_toList.mpr hwoken
    | _ => cases hop

end Waking

/-- The step frees a task. -/
def frees (w : World) : Op → Option TaskId
  | .continue c => (executing w c).bind fun t =>
    match w.cont t with
    | .reaping x i => if i < w.cpuCount then none else some x
    | _ => none
  | _ => none

/-- No task is woken that is still on a CPU, and no signal reaches a task that is not complete
(`Switched`); the first task of a list that is woken still waits, if any does; and a task that is
freed is nowhere. -/
def Careful (w : World) (op : Op) : Prop :=
  Switched w op ∧
  (∀ l t ts, wakesOne w op = some l → w.waiters l = t :: ts →
    (∃ s ∈ ts, w.state s = some .chanWait) → w.state t = some .chanWait) ∧
  ∀ x, frees w op = some x → (∀ p, x ∉ places w p) ∧ ∀ l, x ∉ w.waiters l

/-- In every state that is reached: no task is on the ready queues twice; a step that wakes one
task of a list with a task that waits makes exactly one of these ready; a step that wakes all
makes every one ready; and what kernel code has made ready it puts on a queue in its next steps. -/
theorem wake_ups_are_exact (n : ℕ) {ops : List Op} (hops : Guarded step Careful (boot n) ops) :
    (∀ c, ((run step (boot n) ops).ready c).Nodup) ∧
    (∀ c d t, t ∈ (run step (boot n) ops).ready c → t ∈ (run step (boot n) ops).ready d → c = d) ∧
    (∀ op l, Careful (run step (boot n) ops) op → wakesOne (run step (boot n) ops) op = some l →
      (∃ t ∈ (run step (boot n) ops).waiters l,
        (run step (boot n) ops).state t = some .chanWait) →
      ∃! t, (t ∈ (run step (boot n) ops).waiters l ∧
        (run step (boot n) ops).state t = some .chanWait) ∧
          (step (run step (boot n) ops) op).state t = some .ready ∧
          ∃ p, t ∈ places (step (run step (boot n) ops) op) p) ∧
    (∀ c l r t, executing (run step (boot n) ops) c = some t →
      (run step (boot n) ops).cont t = .user → ∀ s ∈ (run step (boot n) ops).waiters l,
        (run step (boot n) ops).state s = some .chanWait →
        (step (run step (boot n) ops) (.call c (.wakeAll l r))).state s = some .ready ∧
        s ∈ places (step (run step (boot n) ops) (.call c (.wakeAll l r))) (.kernel t)) ∧
    ∀ c t x xs, executing (run step (boot n) ops) c = some t →
      (run step (boot n) ops).cont t = .waking (x :: xs) →
      ∃ d, x ∈ (step (run step (boot n) ops) (.continue c)).ready d := by
  have hplaced : Placed (run step (boot n) ops) :=
    invariant_run Placed (fun w op h hop => step_placed w op h hop.1) (placed_boot n) hops
  generalize run step (boot n) ops = w at hplaced ⊢
  refine ⟨fun c => hplaced.separate.nodup (.ready c), fun c d t hc hd => ?_, ?_, ?_, ?_⟩
  · have hsame : Place.ready c = .ready d := hplaced.separate.apart hc hd
    cases hsame
    rfl
  · rintro op l hop hl ⟨s, hmem, hs⟩
    obtain ⟨t, ts, hts⟩ : ∃ t ts, w.waiters l = t :: ts :=
      List.exists_cons_of_ne_nil (List.ne_nil_of_mem hmem)
    have ht : w.state t = some .chanWait := by
      rw [hts] at hmem
      rcases List.mem_cons.mp hmem with rfl | hmem
      · exact hs
      · exact hop.2.1 l t ts hl hts ⟨s, hmem, hs⟩
    obtain ⟨hstate, p, hp⟩ := wakesOne_step hl hts ht
    refine ⟨t, ⟨⟨hts ▸ List.mem_cons_self, ht⟩, by rw [hstate, if_pos rfl], p, hp⟩, ?_⟩
    rintro y ⟨⟨-, hy⟩, hready, -⟩
    by_contra hne
    rw [hstate, if_neg hne, hy] at hready
    cases hready
  · intro c l r t hexec hcont s hmem hs
    have hall := wakeAll_spec w l r
    have hwoken := (hall.mem s).mpr ⟨hmem, hs⟩
    rw [step, hexec, Option.elim_some, callStep, if_pos hcont]
    refine ⟨(hall.state s).trans (if_pos hwoken), ?_⟩
    rw [places_setCont_self]
    exact hwoken
  · intro c t x xs hexec hcont
    rw [step, hexec, Option.elim_some, contStep, hcont]
    refine ⟨targetCpu w x, ?_⟩
    have hqueue := places_enqueueReady_self (w := w) (t := x)
    change x ∈ places (enqueueReady w x) (.ready (targetCpu w x))
    rw [hqueue]
    exact List.mem_append.mpr (.inr List.mem_cons_self)

/-- `Careful`, looking at what exists, for steps that free no task. -/
def CarefulHere (w : World) (op : Op) : Prop :=
  SwitchedHere w op ∧
  (∀ l ∈ wakesOne w op, (∃ s ∈ (w.waiters l).tail, w.state s = some .chanWait) →
    ∀ t ∈ (w.waiters l).head?, w.state t = some .chanWait) ∧
  frees w op = none

instance (w : World) (op : Op) : Decidable (CarefulHere w op) :=
  inferInstanceAs (Decidable (_ ∧ _ ∧ _))

lemma careful_of_here {w : World} {op : Op} (h : Placed w) (hop : CarefulHere w op) :
    Careful w op := by
  refine ⟨switched_of_here h.toWired hop.1, fun l t ts hl hts hs => ?_, fun x hx => ?_⟩
  · exact hop.2.1 l hl (by rw [hts]; exact hs) t (by rw [hts]; rfl)
  · rw [hop.2.2] at hx
    cases hx

lemma guarded_of_here {ops : List Op} {w : World} (h : Placed w)
    (hops : Guarded step CarefulHere w ops) : Guarded step Careful w ops :=
  guarded_of_invariant Placed (fun w op h hop => step_placed w op h (careful_of_here h hop).1)
    (fun _ _ => careful_of_here) h hops

/-- The first task creates a second one, which waits on a list; the first runs again. -/
def waitOps : List Op :=
  reschedule 0 ++ spawn 0 ++ reschedule 0 ++ [.call 0 (.block (.object 0) 0)] ++ reschedule 0

/-- The waiting task is woken. -/
theorem waiting_task_is_woken :
    Guarded step Careful (boot 1) waitOps ∧
    (run step (boot 1) waitOps).waiters (.object 0) = [2] ∧
    (run step (boot 1) waitOps).state 2 = some .chanWait ∧
    ∃! t, (t ∈ (run step (boot 1) waitOps).waiters (.object 0) ∧
      (run step (boot 1) waitOps).state t = some .chanWait) ∧
        (step (run step (boot 1) waitOps) (.call 0 (.wakeOne (.object 0) 0))).state t =
          some .ready ∧
        ∃ p, t ∈ places (step (run step (boot 1) waitOps) (.call 0 (.wakeOne (.object 0) 0))) p := by
  have hops : Guarded step Careful (boot 1) (waitOps ++ [.call 0 (.wakeOne (.object 0) 0)]) :=
    guarded_of_here (placed_boot 1) (by decide +kernel)
  rw [guarded_append] at hops
  have hwaiters : (run step (boot 1) waitOps).waiters (.object 0) = [2] := by decide +kernel
  have hstate : (run step (boot 1) waitOps).state 2 = some .chanWait := by decide +kernel
  refine ⟨hops.1, hwaiters, hstate, ?_⟩
  refine (wake_ups_are_exact 1 hops.1).2.2.1 _ _ hops.2.1 (by decide +kernel) ⟨2, ?_, hstate⟩
  rw [hwaiters]
  exact List.mem_singleton_self 2

/-- Two tasks wait on a list, the second of them with a deadline. The deadline passes, and a third
task is first on the queue. -/
def expireOps : List Op :=
  reschedule 0 ++ spawn 0 ++ spawn 0 ++ spawn 0 ++
    reschedule 0 ++ [.call 0 (.block (.object 0) 0)] ++
    reschedule 0 ++ [.call 0 (.block (.object 0) 10000000)] ++
    reschedule 0 ++ reschedule 0 ++ [.tick, .tick] ++ reschedule 0

/-- The third task wakes the list, which has the task whose time is over in front: it makes nobody
ready, and the other task waits on. -/
theorem wake_up_is_lost :
    wakesOne (run step (boot 1) expireOps) (.call 0 (.wakeOne (.object 0) 0)) =
      some (.object 0) ∧
    (run step (boot 1) expireOps).waiters (.object 0) = [3, 2] ∧
    (run step (boot 1) expireOps).state 3 = some .ready ∧
    (run step (boot 1) expireOps).state 2 = some .chanWait ∧
    (step (run step (boot 1) expireOps) (.call 0 (.wakeOne (.object 0) 0))).state 2 =
      some .chanWait ∧
    (step (run step (boot 1) expireOps) (.call 0 (.wakeOne (.object 0) 0))).waiters (.object 0) =
      [2] ∧
    ¬ ∃ t, (t ∈ (run step (boot 1) expireOps).waiters (.object 0) ∧
      (run step (boot 1) expireOps).state t = some .chanWait) ∧
        (step (run step (boot 1) expireOps) (.call 0 (.wakeOne (.object 0) 0))).state t =
          some .ready := by
  have hwaiters : (run step (boot 1) expireOps).waiters (.object 0) = [3, 2] := by decide +kernel
  have hready : (run step (boot 1) expireOps).state 3 = some .ready := by decide +kernel
  have hstill : (step (run step (boot 1) expireOps) (.call 0 (.wakeOne (.object 0) 0))).state 2 =
      some .chanWait := by decide +kernel
  refine ⟨by decide +kernel, hwaiters, hready, by decide +kernel, hstill, by decide +kernel, ?_⟩
  rintro ⟨t, ⟨hmem, hwait⟩, hwoken⟩
  rw [hwaiters] at hmem
  rcases List.mem_cons.mp hmem with rfl | hmem
  · rw [hready] at hwait
    cases hwait
  · rw [List.mem_singleton.mp hmem, hstill] at hwoken
    cases hwoken

end GrahaOS.Scheduler.WakeUps
