import GrahaOS.TaskMoves

/-!
# No task is in two places

`Placed` is kept by every step that wakes no task which a CPU has not left, and sends no signal to
a task that is not complete (`Switched`). The proofs name the place a task leaves and the place it
goes to; `Placement` does the rest.
-/

namespace GrahaOS.Scheduler

open World Placement Function List Option Runs

structure Placed (w : World) : Prop extends Wired w where
  separate : Separate (places w)
  bounded : ∀ {p t}, t ∈ places w p → t < w.nextTaskId
  regular : ∀ {p t}, t ∈ places w p → w.isIdle t = false
  waiting : ∀ {p t}, t ∈ places w p → w.state t = some .chanWait → ∃ c, p = .cpu c
  asleep : ∀ {t}, w.state t = some .chanWait → t < w.nextTaskId ∧ w.isIdle t = false

section Moving

variable {w w' : World} {c : CpuId} {t x : TaskId} {p q : Place}

variable (h : Placed w)
include h

/-- Tasks go from place to place, and tasks that waited come to a place; those that go to another
place than a CPU are awake. -/
lemma Placed.moves (hc : Calm w w') (hsep : Separate (places w'))
    (hfrom : ∀ {p t}, t ∈ places w' p → t ∈ places w p ∨
      ((∃ q, t ∈ places w q) ∨ w.state t = some .chanWait) ∧
        ((∃ c, p = .cpu c) ∨ w'.state t ≠ some .chanWait)) : Wired w' → Placed w' := by
  intro hw
  have hknown : ∀ {p t}, t ∈ places w' p → t < w.nextTaskId ∧ w.isIdle t = false := by
    intro p t ht
    rcases hfrom ht with hp | ⟨⟨q, hq⟩ | hs, -⟩
    · exact ⟨h.bounded hp, h.regular hp⟩
    · exact ⟨h.bounded hq, h.regular hq⟩
    · exact h.asleep hs
  refine ⟨hw, hsep, fun ht => hc.nextTaskId ▸ (hknown ht).1,
    fun ht => (hc.isIdle _).trans (hknown ht).2, fun {p t} ht hs => ?_, fun {t} hs => ?_⟩
  · rcases hfrom ht with hp | ⟨-, hcpu | hne⟩
    · exact h.waiting hp (hc.asleep t hs)
    · exact hcpu
    · exact absurd hs hne
  · rw [hc.nextTaskId, hc.isIdle]
    exact h.asleep (hc.asleep t hs)

lemma Placed.shrinks (hc : Calm w w') (hsub : ∀ p, (places w' p).Sublist (places w p))
    : Wired w' → Placed w' :=
  h.moves hc (h.separate.mono hsub) fun ht => .inl ((hsub _).subset ht)

lemma Placed.stays (hc : Calm w w') (hplaces : ∀ p, places w' p = places w p)
    : Wired w' → Placed w' :=
  h.shrinks hc fun p => by rw [hplaces p]

lemma Placed.quiet (hq : Quiet w w') : Placed w' :=
  h.stays hq.toCalm (congrFun hq.places) (h.toWired.steady hq.toSteady)

lemma Placed.hands (hc : Calm w w') (hne : p ≠ q) (hp : (places w p).Perm (x :: places w' p))
    (hq : (places w' q).Perm (x :: places w q))
    (hothers : ∀ r, r ≠ p → r ≠ q → places w' r = places w r)
    (hx : (∃ c, q = .cpu c) ∨ w'.state x ≠ some .chanWait) : Wired w' → Placed w' := by
  refine h.moves hc (h.separate.hand hne hp hq hothers) fun {r t} ht => ?_
  by_cases hrq : r = q
  · subst hrq
    rcases mem_cons.mp (hq.mem_iff.mp ht) with rfl | hold
    · exact .inr ⟨.inl ⟨p, hp.mem_iff.mpr mem_cons_self⟩, hx⟩
    · exact .inl hold
  · by_cases hrp : r = p
    · subst hrp
      exact .inl (hp.mem_iff.mpr (mem_cons_of_mem x ht))
    · exact .inl (hothers r hrp hrq ▸ ht)

/-- Tasks that waited, and have left their CPUs, come to a place. -/
lemma Placed.puts (xs : List TaskId) (hc : Calm w w') (hnodup : xs.Nodup)
    (hxs : ∀ x ∈ xs, w.state x = some .chanWait ∧ OffCpu w x)
    (hq : (places w' q).Perm (xs ++ places w q)) (hothers : ∀ r, r ≠ q → places w' r = places w r)
    (hawake : ∀ x ∈ xs, w'.state x ≠ some .chanWait) : Wired w' → Placed w' := by
  have hnowhere : ∀ x ∈ xs, ∀ p, x ∉ places w p := by
    intro x hx p hp
    obtain ⟨hs, hoff⟩ := hxs x hx
    obtain ⟨c, rfl⟩ := h.waiting hp hs
    exact hoff c hp
  refine h.moves hc (h.separate.put hnodup hnowhere hq hothers) fun {r t} ht => ?_
  by_cases hrq : r = q
  · subst hrq
    rcases mem_append.mp (hq.mem_iff.mp ht) with hx | hold
    · exact .inr ⟨.inr (hxs t hx).1, .inr (hawake t hx)⟩
    · exact .inl hold
  · exact .inl (hothers r hrq ▸ ht)

omit h

lemma enqueueReady_awake : (enqueueReady w x).state x ≠ some .chanWait := by
  rw [enqueueReady, state_setState_self]
  cases (w.setReady (targetCpu w x) (w.ready (targetCpu w x) ++ [x])).state x <;> simp

lemma setState_awake {s : TaskState} (hs : s ≠ .chanWait) :
    (w.setState x s).state x ≠ some .chanWait := by
  rw [state_setState_self]
  cases w.state x <;> simp [hs]

include h

lemma Placed.enqueue (hp : ∀ d, p ≠ .ready d) (hc : Calm (enqueueReady w x) w')
    (hx : (places w p).Perm (x :: places w' p))
    (hothers : ∀ r, r ≠ p → places w' r = places (enqueueReady w x) r)
    (hawake : w'.state x = (enqueueReady w x).state x) : Wired w' → Placed w' := by
  refine h.hands (q := .ready (targetCpu w x)) (calm_enqueueReady.trans hc) (hp _) hx ?_
    (fun r hr hr' => ?_) (.inr (hawake ▸ enqueueReady_awake))
  · rw [hothers _ (hp _).symm, places_enqueueReady_self]
    exact perm_append_singleton x _
  · rw [hothers r hr, places_enqueueReady_of_ne hr']

lemma Placed.enqueueFromCpu {pc : Pc}
    (hx : (places w (.cpu c)).Perm (x :: pc.holds (w.current c) (w.idleTask c))) :
    Wired ((enqueueReady w x).setPc c pc) → Placed ((enqueueReady w x).setPc c pc) :=
  h.enqueue (by simp) (calm_setPc pc) (by rwa [places_setPc_self])
    (fun _ => places_setPc_of_ne pc) rfl

lemma Placed.enqueueFromKernel {cont : Cont} (hx : (w.cont t).holds.Perm (x :: cont.holds)) :
    Wired ((enqueueReady w x).setCont t cont) → Placed ((enqueueReady w x).setCont t cont) :=
  h.enqueue (by simp) (calm_setCont cont) (by rwa [places_setCont_self])
    (fun _ => places_setCont_of_ne cont) rfl

/-- One place keeps its tasks or loses some. -/
lemma Placed.loses (hc : Calm w w') (hself : (places w' p).Sublist (places w p))
    (hothers : ∀ r, r ≠ p → places w' r = places w r) : Wired w' → Placed w' := by
  refine h.shrinks hc fun r => ?_
  by_cases hr : r = p
  · exact hr ▸ hself
  · rw [hothers r hr]

lemma Placed.setPc {pc : Pc}
    (hsub : (pc.holds (w.current c) (w.idleTask c)).Sublist (places w (.cpu c))) :
    Wired (w.setPc c pc) → Placed (w.setPc c pc) :=
  h.loses (calm_setPc pc) (by rwa [places_setPc_self]) fun _ => places_setPc_of_ne pc

lemma Placed.setCont {cont : Cont} (hsub : cont.holds.Sublist (w.cont t).holds) :
    Wired (w.setCont t cont) → Placed (w.setCont t cont) :=
  h.loses (calm_setCont cont) (by rwa [places_setCont_self]) fun _ => places_setCont_of_ne cont

end Moving

section Queues

variable {w w' : World} {c : CpuId} {t x : TaskId}

lemma Placed.exchanges {p q : Place} (h : Placed w) (hc : Calm w w') (hne : p ≠ q)
    (hperm : (places w' p ++ places w' q).Perm (places w p ++ places w q))
    (hothers : ∀ r, r ≠ p → r ≠ q → places w' r = places w r)
    (hawake : ∀ t, t ∈ places w p ∨ t ∈ places w q → w'.state t ≠ some .chanWait) :
    Wired w' → Placed w' := by
  refine h.moves hc (h.separate.exchange hne hperm hothers) fun {r t} ht => ?_
  by_cases hr : r = p ∨ r = q
  · have hold : t ∈ places w p ∨ t ∈ places w q := by
      refine mem_append.mp (hperm.mem_iff.mp (mem_append.mpr ?_))
      rcases hr with rfl | rfl
      · exact .inl ht
      · exact .inr ht
    exact .inr ⟨.inl (hold.elim (⟨p, ·⟩) (⟨q, ·⟩)), .inr (hawake t hold)⟩
  · rw [not_or] at hr
    exact .inl (hothers r hr.1 hr.2 ▸ ht)

lemma Placed.ready_awake (h : Placed w) (ht : t ∈ w.ready c) : w.state t ≠ some .chanWait := by
  intro hs
  obtain ⟨d, hd⟩ := h.waiting (p := .ready c) ht hs
  cases hd

lemma spliceTail_perm (stealable : TaskId → Bool) (n : ℕ) (ts : List TaskId) :
    ((spliceTail stealable n ts).1 ++ (spliceTail stealable n ts).2).Perm ts := by
  induction ts generalizing n with
  | nil => cases n <;> exact List.Perm.refl _
  | cons t ts ih =>
    cases n with
    | zero => exact List.Perm.refl _
    | succ n =>
      rw [spliceTail]
      split_ifs
      · exact (ih n).cons t
      · exact perm_middle.trans ((ih (n + 1)).cons t)

lemma Placed.stealFrom (h : Placed w) (thief victim : CpuId) :
    Placed (stealFrom w thief victim) := by
  have hsteady : Steady w (Scheduler.stealFrom w thief victim) :=
    (beside_stealFrom thief victim).toSteady
  refine (?_ : Wired _ → _) (h.toWired.steady hsteady)
  rw [Scheduler.stealFrom] at hsteady ⊢
  split_ifs at hsteady ⊢ with hfew
  · exact fun _ => h
  rw [not_or] at hfew
  have hsplice := spliceTail_perm (stealableBy w thief) ((w.ready victim).length / 2)
    (w.ready victim).reverse
  generalize spliceTail (stealableBy w thief) ((w.ready victim).length / 2)
    (w.ready victim).reverse = r at hsteady hsplice ⊢
  obtain ⟨taken, left⟩ := r
  have hne : Place.ready victim ≠ .ready thief := fun heq => hfew.1 (by cases heq; rfl)
  refine h.exchanges hsteady.toCalm hne ?_ (fun r hr hr' => ?_) fun t ht => ?_
  · rw [places_setReady_of_ne _ hne, places_setReady_self, places_setReady_self]
    rw [← append_assoc, ← reverse_append]
    refine List.Perm.append_right _ ?_
    exact ((taken ++ left).reverse_perm).trans (hsplice.trans (w.ready victim).reverse_perm)
  · rw [places_setReady_of_ne _ hr', places_setReady_of_ne _ hr]
  · rcases ht with ht | ht
    · exact h.ready_awake ht
    · exact h.ready_awake ht

lemma Placed.findWork (h : Placed w) (victim : Option CpuId) : Placed (findWork w c victim) := by
  rw [Scheduler.findWork]
  split_ifs
  · cases victim with
    | none => exact h
    | some victim => exact h.stealFrom c victim
  · exact h

lemma Placed.dequeue {pc : Pc} (h : Placed w) (hc : c < w.cpuCount)
    (hempty : places w (.cpu c) = []) {ts : List TaskId} (hready : w.ready c = t :: ts)
    (hpc : pc.holds (w.current c) (w.idleTask c) = other (w.idleTask c) t)
    (hbusy : ¬ pc.busy) : Placed ((w.setReady c ts).setPc c pc) := by
  have hmem : t ∈ places w (.ready c) := by
    change t ∈ w.ready c
    rw [hready]
    exact mem_cons_self
  have hother := other_of_ne (h.ne_idle hc (h.regular hmem))
  refine h.hands (p := .ready c) (q := .cpu c) (x := t) ((calm_setReady ts).trans (calm_setPc pc))
    (by simp) ?_ ?_ (fun r hr hr' => ?_) (.inl ⟨c, rfl⟩)
    ((h.toWired.steady (steady_setReady ts)).setPc hc fun hb => absurd hb hbusy)
  · rw [places_setPc_of_ne _ (by simp), places_setReady_self]
    change (w.ready c).Perm (t :: ts)
    rw [hready]
  · rw [places_setPc_self, hempty]
    change (pc.holds (w.current c) (w.idleTask c)).Perm [t]
    rw [hpc, hother]
  · rw [places_setPc_of_ne _ hr', places_setReady_of_ne _ hr]

lemma foldl_ready_awake (ts : List TaskId) (w : World) (ht : t ∈ ts ∨ w.state t ≠ some .chanWait) :
    (ts.foldl (fun w t => w.setState t .ready) w).state t ≠ some .chanWait := by
  induction ts generalizing w with
  | nil => exact ht.resolve_left not_mem_nil
  | cons s ts ih =>
    refine ih _ ?_
    by_cases hts : t = s
    · exact .inr (hts ▸ setState_awake (by decide))
    · refine ht.imp (fun hmem => ?_) fun hs => ?_
      · exact (mem_cons.mp hmem).resolve_left hts
      · rwa [state_setState_of_ne _ hts]

lemma Placed.refill (h : Placed w) : Placed (runqRefillStarved w c) := by
  have hquiet := quiet_foldl_ready (w.starved c)
    ((w.setReady c (w.ready c ++ w.starved c)).setStarved c [])
  have hplaces := hquiet.places
  have hsteady : Steady w (runqRefillStarved w c) := beside_refill.toSteady
  refine h.exchanges (p := .ready c) (q := .starved c) hsteady.toCalm (by simp) ?_
    (fun r hr hr' => ?_) (fun t ht => ?_) (h.toWired.steady hsteady)
  · rw [runqRefillStarved, hplaces, places_setStarved_self, places_setStarved_of_ne _ (by simp),
      places_setReady_self, append_nil]
    exact List.Perm.refl _
  · rw [runqRefillStarved, hplaces, places_setStarved_of_ne _ hr', places_setReady_of_ne _ hr]
  · refine foldl_ready_awake _ _ (ht.elim (fun hr => .inr ?_) .inl)
    exact h.ready_awake hr

end Queues

variable (w : World)

/-- The list that `wake_waiting_parent` wakes a task of. -/
def parentList (child : TaskId) : Option WaitList :=
  ((w.tasks child).bind Task.parent).bind fun parent =>
    if (w.tasks parent).isSome then some (.child parent) else none

/-- The list that the end of a task wakes a task of, once its children have lost their parent. -/
def retireList (t : TaskId) : Option WaitList := parentList (orphanChildren w t) t

/-- A signal terminates the task. -/
def terminated (t : TaskId) : Bool :=
  ((w.tasks t).map deliverSignals).any fun r => r.1.isSome

/-- The list that a step calls `sched_wake_one_on_channel` for. -/
def wakesOne : Op → Option WaitList
  | .schedule c _ =>
    if w.pc c = .deliver ∧ terminated w (w.current c) then retireList w (w.current c) else none
  | .continue c =>
    (executing w c).bind fun t => if w.cont t = .exiting then parentList w t else none
  | .call c (.wakeOne l _) =>
    (executing w c).bind fun t => if w.cont t = .user then some l else none
  | .call c (.kill target) =>
    (executing w c).bind fun t =>
      if w.cont t = .user ∧ (w.tasks target).isSome ∧ w.state target ≠ some .zombie then
        retireList w target
      else none
  | .call c (.crash _) =>
    (executing w c).bind fun t => if w.cont t = .user then retireList w t else none
  | _ => none

/-- The scan for deadlines wakes the task. -/
def Expired (t : TaskId) : Prop :=
  ∃ task, w.tasks t = some task ∧ task.state = .chanWait ∧ task.deadline ≠ 0 ∧
    task.deadline ≤ w.timerTicks

/-- A task that the step wakes has left its CPU; no signal is sent to a task that is not complete. -/
def Switched (op : Op) : Prop :=
  (∀ l t ts, wakesOne w op = some l → w.waiters l = t :: ts → w.state t = some .chanWait →
    OffCpu w t) ∧
  match op with
  | .schedule c _ => ∀ i, w.pc c = .scan i → Expired w i → OffCpu w i
  | .call c (.wakeAll l _) => (executing w c).isSome → ∀ t ∈ w.waiters l,
      w.state t = some .chanWait → OffCpu w t
  | .call c (.signal target _) => (executing w c).isSome → w.state target ≠ some .blocked
  | _ => True

section Waking

variable {w : World} {c : CpuId} {t x : TaskId}

lemma wakeWaitingParent_eq (w : World) (t : TaskId) :
    wakeWaitingParent w t = (parentList w t).elim (none, w) fun l => wakeOne w l 0 := by
  rw [wakeWaitingParent, parentList]
  cases (w.tasks t).bind Task.parent with
  | none => rfl
  | some parent =>
    rw [bind_some]
    dsimp only
    split_ifs <;> rfl

lemma wakeWaitingParent_woken (h : (wakeWaitingParent w t).1 = some x) :
    ∃ l ts, parentList w t = some l ∧ w.waiters l = x :: ts ∧ w.state x = some .chanWait ∧
      (wakeWaitingParent w t).2.state x = some .ready := by
  rw [wakeWaitingParent_eq] at h ⊢
  cases hl : parentList w t with
  | none => rw [hl] at h; cases h
  | some l =>
    rw [hl] at h
    obtain ⟨⟨ts, hts⟩, hs, hready⟩ := wakeOne_woken h
    exact ⟨l, ts, rfl, hts, hs, hready⟩

lemma retireList_modify {f : Task → Task}
    (hparent : ∀ task, w.tasks t = some task → (f task).parent = task.parent)
    (hstate : ∀ task, w.tasks t = some task → (f task).state = task.state) :
    retireList (w.modify t f) t = retireList w t := by
  rw [retireList, retireList]
  have hcomm : ∀ y, ((orphanChildren (w.modify t f) t).tasks y).bind Task.parent =
      ((orphanChildren w t).tasks y).bind Task.parent ∧
      ((orphanChildren (w.modify t f) t).tasks y).isSome =
        ((orphanChildren w t).tasks y).isSome := by
    intro y
    rw [orphanChildren_tasks, orphanChildren_tasks]
    by_cases hy : y = t
    · subst hy
      cases hw : w.tasks y with
      | none => simp [World.modify, hw]
      | some task =>
        simp only [World.modify, update_self, hw, map_some, bind_some,
          isSome_some, and_true, orphaned, hparent task hw, hstate task hw]
        split_ifs
        · rfl
        · exact hparent task hw
    · simp [World.modify, hy]
  rw [parentList, parentList, (hcomm t).1]
  simp only [fun y => (hcomm y).2]

lemma retireList_exitStatus (status : ℤ) :
    retireList (w.modify t fun task => { task with exitStatus := status }) t = retireList w t :=
  retireList_modify (fun _ _ => rfl) fun _ _ => rfl

lemma retire_woken {status : ℤ} (h : (retire w t status).1 = some x) :
    ∃ l ts, retireList w t = some l ∧ w.waiters l = x :: ts ∧ w.state x = some .chanWait ∧
      (retire w t status).2.state x = some .ready := by
  obtain ⟨l, ts, hl, hts, hs, hready⟩ := wakeWaitingParent_woken h
  rw [state_orphanChildren, state_exitStatus] at hs
  exact ⟨l, ts, (retireList_exitStatus status).symm.trans hl, hts, hs, hready⟩

end Waking

section Delivered

variable {w : World} {t : TaskId} {o : Option ℕ} {task : Task}

lemma state_delivered (h : (w.tasks t).map deliverSignals = some (o, task)) (x : TaskId) :
    (w.modify t fun _ => task).state x = w.state x := by
  obtain ⟨old, hold, -, -, hstate⟩ := delivered_kept h
  by_cases hx : x = t
  · rw [hx, state_modify_self, World.state, hold]
    exact congrArg some hstate
  · exact state_modify_of_ne hx

lemma retireList_delivered (h : (w.tasks t).map deliverSignals = some (o, task)) :
    retireList (w.modify t fun _ => task) t = retireList w t := by
  obtain ⟨old, hold, -, hparent, hstate⟩ := delivered_kept h
  refine retireList_modify (fun k hk => ?_) fun k hk => ?_
  · rw [← Option.mem_unique hold hk]
    exact hparent
  · rw [← Option.mem_unique hold hk]
    exact hstate

end Delivered

section Schedule

variable {w w' : World} {c : CpuId} {t x : TaskId} {active : Bool} {choice : Choice}

variable (h : Placed w)
include h

lemma Placed.expire (hoff : Expired w t → OffCpu w t) : Placed (expire w t) := by
  have hc : Calm w (Scheduler.expire w t) := beside_expire.toCalm
  refine (?_ : Wired _ → _) (h.toWired.steady (beside_expire (t := t)).toSteady)
  rw [Scheduler.expire] at hc ⊢
  cases htask : w.tasks t with
  | none => exact fun _ => h
  | some task =>
  rw [htask] at hc
  rw [elim_some] at hc ⊢
  split_ifs at hc ⊢ with hexp
  · have hstate : w.state t = some .chanWait := by
      rw [World.state, htask, map_some, hexp.1]
    have hplaces : places (w.modify t fun task =>
        { task with waitResult := -110, state := .ready }) = places w := places_modify _
    generalize (w.modify t fun task => { task with waitResult := -110, state := .ready }) = w₁
      at hc hplaces ⊢
    refine h.puts (q := .ready (targetCpu w₁ t)) [t] hc (nodup_singleton t)
      (fun x hx => ?_) ?_ (fun r hr => ?_) fun x hx => ?_
    · obtain rfl := mem_singleton.mp hx
      exact ⟨hstate, hoff ⟨task, htask, hexp⟩⟩
    · rw [places_enqueueReady_self, ← hplaces]
      exact perm_append_singleton t _
    · rw [places_enqueueReady_of_ne hr, hplaces]
    · obtain rfl := mem_singleton.mp hx
      exact enqueueReady_awake
  · exact fun _ => h

lemma Placed.leaves {q : Place} {s : TaskState}
    (hpc : (w.pc c).holds (w.current c) (w.idleTask c) = other (w.idleTask c) (w.current c))
    (hne : w.current c ≠ w.idleTask c)
    (hc : Calm w ((w'.setState (w.current c) s).setPc c (.pick active))) (hq : ∀ d, q ≠ .cpu d)
    (hself : places w' q = w.current c :: places w q)
    (hothers : ∀ r, r ≠ q → places w' r = places w r) (hs : s ≠ .chanWait) :
    Wired ((w'.setState (w.current c) s).setPc c (.pick active)) →
      Placed ((w'.setState (w.current c) s).setPc c (.pick active)) := by
  refine h.hands hc (hq c).symm ?_ ?_ (fun r hr hr' => ?_) (.inr (setState_awake hs))
  · rw [places_setPc_self]
    change ((w.pc c).holds (w.current c) (w.idleTask c)).Perm [w.current c]
    rw [hpc, other_of_ne hne]
  · rw [places_setPc_of_ne _ (hq c), places_setState, hself]
  · rw [places_setPc_of_ne _ hr, places_setState, hothers r hr']

omit h

lemma saveOutgoing_holds (active exhausted : Bool) (idle : TaskId) :
    ((saveOutgoing w c active exhausted).holds (w.current c) idle).Sublist
      (other idle (w.current c)) := by
  rw [saveOutgoing]
  split_ifs
  · exact .refl _
  · exact .refl _
  · exact .refl _
  · exact nil_sublist _

lemma idleOr_holds {next : TaskId → Pc} {current : TaskId}
    (hnext : ∀ t, (next t).holds current (w.idleTask c) = other (w.idleTask c) t) :
    (idleOr w c next).holds current (w.idleTask c) = [] := by
  rw [idleOr]
  split_ifs
  · rfl
  · rw [hnext, other, if_pos rfl]

lemma Placed.installs {next : TaskId} {pc : Pc} (h : Placed w) (hc : c < w.cpuCount)
    (hbusy : ¬ (w.pc c).busy) (hpc : places w (.cpu c) = other (w.idleTask c) next)
    (hpc' : pc.holds next (w.idleTask c) = other (w.idleTask c) next) (hbusy' : ¬ pc.busy) :
    Placed ((w.setCurrent c next).setPc c pc) := by
  refine h.stays (calm_of_tasks rfl) (fun p => ?_)
    ((h.toWired.setCurrent hc hbusy).setPc hc fun hb => absurd hb hbusy')
  by_cases hp : p = .cpu c
  · subst hp
    rw [places_setPc_self, hpc]
    simp only [setCurrent_self]
    exact hpc'
  · rw [places_setPc_of_ne _ hp, places_setCurrent_of_ne hp]

/-- The queue of a CPU after a search for work does not change what the CPU holds. -/
lemma places_of_steady (hs : Steady w w') : places w' (.cpu c) = places w (.cpu c) := by
  simp only [places, hs.pc, hs.current, hs.idleTask]

include h

lemma Placed.pick (hpc : w.pc c = .pick active) (choice : Choice) :
    Placed (scheduleStep w c choice) := by
  have hc := h.lt (c := c) (by rw [hpc]; simp)
  have hempty : places w (.cpu c) = [] := by simp [places, hpc, Pc.holds]
  refine (?_ : Wired _ → _) ((scheduleStep_moves (c := c) choice).wired h.toWired)
  rw [scheduleStep, hpc]
  dsimp only
  split_ifs
  · exact h.setPc (nil_sublist _)
  have hsteady : Steady w (Scheduler.findWork w c choice.victim) :=
    (beside_findWork choice.victim).toSteady
  have hfound : Placed (Scheduler.findWork w c choice.victim) := h.findWork choice.victim
  generalize Scheduler.findWork w c choice.victim = w₁ at hsteady hfound ⊢
  rw [Scheduler.dequeue]
  cases hready : w₁.ready c with
  | nil => exact hfound.setPc (nil_sublist _)
  | cons t ts =>
    refine fun _ => hfound.dequeue (hsteady.cpuCount ▸ hc) ?_ hready rfl id
    rw [places_of_steady hsteady, hempty]

lemma Placed.replace (hpc : w.pc c = .replace) (choice : Choice) :
    Placed (scheduleStep w c choice) := by
  have hc := h.lt (c := c) (by rw [hpc]; simp)
  have hempty : places w (.cpu c) = [] := by simp [places, hpc, Pc.holds]
  refine (?_ : Wired _ → _) ((scheduleStep_moves (c := c) choice).wired h.toWired)
  rw [scheduleStep, hpc]
  dsimp only
  rw [Scheduler.dequeue]
  cases hready : w.ready c with
  | nil =>
    refine h.setPc ?_
    rw [idleOr_holds fun _ => rfl]
    exact nil_sublist _
  | cons t ts =>
  dsimp only
  split_ifs
  · -- a zombie is dropped, and the machine halts
    refine h.shrinks ((calm_setReady ts).trans (calm_setPc _)) fun p => ?_
    by_cases hp : p = .cpu c
    · subst hp
      rw [places_setPc_self]
      exact nil_sublist _
    rw [places_setPc_of_ne _ hp]
    by_cases hp' : p = .ready c
    · subst hp'
      rw [places_setReady_self]
      change ts.Sublist (w.ready c)
      rw [hready]
      exact sublist_cons_self t ts
    · rw [places_setReady_of_ne _ hp']
  · exact fun _ => h.dequeue hc hempty hready rfl id

lemma Placed.deliver (hpc : w.pc c = .deliver) (hop : Switched w (.schedule c choice))
    : Placed (scheduleStep w c choice) := by
  have hholds : places w (.cpu c) = other (w.idleTask c) (w.current c) := by
    simp [places, hpc, Pc.holds]
  refine (?_ : Wired _ → _) ((scheduleStep_moves (c := c) choice).wired h.toWired)
  rw [scheduleStep, hpc]
  cases hd : (w.tasks (w.current c)).map deliverSignals with
  | none => exact h.setPc (by rw [hholds]; exact .refl _)
  | some r =>
  obtain ⟨o, task⟩ := r
  have hdelivered := quiet_delivered hd
  cases o with
  | none =>
    refine (h.quiet hdelivered).setPc ?_
    rw [hdelivered.places, hholds]
    exact .refl _
  | some sig =>
  have hwakes : wakesOne w (.schedule c choice) = retireList w (w.current c) :=
    if_pos ⟨hpc, by simp [terminated, hd]⟩
  have hlist := retireList_delivered hd
  have hsame := state_delivered hd
  have hquiet := hdelivered.trans (wakes_quiet.retire (t := w.current c) task.exitStatus)
  have hwoken := fun x (hx : (retire (w.modify (w.current c) fun _ => task) (w.current c)
    task.exitStatus).1 = some x) => retire_woken hx
  dsimp only
  generalize retire (w.modify (w.current c) fun _ => task) (w.current c) task.exitStatus = r
    at hquiet hwoken ⊢
  obtain ⟨woken, w₁⟩ := r
  refine h.puts (q := .cpu c) woken.toList (hquiet.toCalm.trans (calm_setPc _))
    (by cases woken <;> simp) (fun x hx => ?_) ?_ (fun r hr => ?_) fun x hx => ?_
  · obtain ⟨l, ts, hl, hts, hs, -⟩ := hwoken x (by simpa using hx)
    rw [hsame] at hs
    exact ⟨hs, hop.1 l x ts (hwakes.trans (hlist ▸ hl)) hts hs⟩
  · rw [places_setPc_self, hholds]
    dsimp only at hquiet ⊢
    rw [hquiet.current, hquiet.idleTask]
    exact perm_append_comm
  · rw [places_setPc_of_ne _ hr, hquiet.places]
  · obtain ⟨l, ts, -, -, -, hready⟩ := hwoken x (by simpa using hx)
    have hready' : (w₁.setPc c (.notify woken)).state x = some .ready := hready
    rw [hready']
    decide

lemma scheduleStep_placed (hop : Switched w (.schedule c choice)) :
    Placed (scheduleStep w c choice) := by
  by_cases hout : w.pc c = .out
  · rw [scheduleStep, hout]
    exact h
  have hc := h.lt hout
  -- the CPU holds the same tasks at the next point, or fewer
  have hnext : ∀ {pc pc' : Pc}, w.pc c = pc →
      (pc'.holds (w.current c) (w.idleTask c)).Sublist (pc.holds (w.current c) (w.idleTask c)) →
      Wired (w.setPc c pc') → Placed (w.setPc c pc') := by
    rintro _ pc' rfl hsub
    exact h.setPc hsub
  refine (?_ : Wired _ → _) ((scheduleStep_moves (c := c) choice).wired h.toWired)
  rw [scheduleStep]
  cases hpc : w.pc c with
  | out => exact absurd hpc hout
  | scan i =>
    dsimp only
    split_ifs
    · have hexpire := h.expire (hop.2 i hpc)
      refine hexpire.setPc ?_
      rw [places_of_steady beside_expire.toSteady]
      simp only [beside_expire.current, beside_expire.idleTask, places, hpc, Pc.holds]
      exact .refl _
    · exact hnext hpc (.refl _)
  | load =>
    exact hnext hpc (.refl _)
  | loaded active =>
    dsimp only
    split_ifs
    · exact hnext hpc (.refl _)
    · exact hnext hpc (.refl _)
  | save active =>
    exact hnext hpc (saveOutgoing_holds active choice.exhausted _)
  | park =>
    refine h.leaves (q := .parked) (by rw [hpc]; rfl) (h.busy c (by rw [hpc]; trivial))
      ((steady_park _).toCalm.trans (calm_setPc _)) (by simp) rfl (fun r hr => ?_) (by decide)
    cases r <;> first | rfl | exact absurd rfl hr
  | starve =>
    refine h.leaves (q := .starved c) (by rw [hpc]; rfl) (h.busy c (by rw [hpc]; trivial))
      ((steady_starve c _).toCalm.trans (calm_setPc _)) (by simp) (places_setStarved_self _)
      (fun r hr => places_setStarved_of_ne _ hr) (by decide)
  | yield active =>
    refine (h.quiet (quiet_setState (by decide))).setPc ?_
    rw [places_setState]
    simp only [places, hpc]
    split_ifs
    · exact nil_sublist _
    · exact .refl _
  | requeue active =>
    refine h.enqueueFromCpu ?_
    simp only [places, hpc, Pc.holds]
    rw [other_of_ne (h.busy c (by rw [hpc]; trivial))]
  | pick active => exact fun _ => by simpa only [scheduleStep, hpc] using h.pick hpc choice
  | picked next =>
    refine hnext hpc ?_
    cases hf : next.filter fun t => w.state t ≠ some .zombie with
    | none =>
      rw [idleOr_holds fun _ => rfl]
      exact nil_sublist _
    | some t =>
      obtain ⟨rfl, -⟩ := filter_eq_some_iff.mp hf
      exact .refl _
  | dispatch next | replaced next =>
    refine (h.quiet (quiet_setState (by decide))).setPc ?_
    rw [places_setState]
    simp only [places, hpc]
    exact .refl _
  | install next =>
    have hbusy : ¬ (w.pc c).busy := by rw [hpc]; exact id
    have hheld : places w (.cpu c) = other (w.idleTask c) next := by simp [places, hpc, Pc.holds]
    have hinstalled : Placed ((w.setCurrent c next).setPc c .deliver) :=
      h.installs hc hbusy hheld rfl id
    exact fun _ => hinstalled.quiet (quiet_modify (fun _ => rfl) fun _ hs => hs)
  | deliver => exact fun _ => by simpa only [scheduleStep, hpc] using h.deliver hpc hop
  | notify woken =>
    cases woken with
    | none =>
      refine (h.quiet (quiet_setState (by decide))).setPc ?_
      exact nil_sublist _
    | some t =>
      refine h.enqueueFromCpu ?_
      simp only [places, hpc, Pc.holds]
      exact perm_append_singleton t _ |>.trans (by simp)
  | replace => exact fun _ => by simpa only [scheduleStep, hpc] using h.replace hpc choice
  | reinstall next =>
    have hbusy : ¬ (w.pc c).busy := by rw [hpc]; exact id
    have hheld : places w (.cpu c) = other (w.idleTask c) next := by simp [places, hpc, Pc.holds]
    exact fun _ => h.installs hc hbusy hheld rfl id
  | halted => exact fun _ => h

end Schedule

section Tasks

variable {w w' : World} {c : CpuId} {t x : TaskId}

lemma executing_eq (h : executing w c = some t) :
    w.pc c = .out ∧ w.current c = t ∧ t ≠ w.idleTask c := by
  rw [executing] at h
  split_ifs at h with hrun
  cases h
  exact ⟨hrun.1, rfl, hrun.2⟩

lemma mem_places_of_executing (h : executing w c = some t) : t ∈ places w (.cpu c) := by
  obtain ⟨hpc, rfl, hne⟩ := executing_eq h
  simp only [places, hpc, Pc.holds, other_of_ne hne]
  exact mem_cons_self

variable (h : Placed w)
include h

lemma Placed.takes {cont : Cont} (xs : List TaskId) (hq : Quiet w w') (hold : (w.cont t).holds = [])
    (hnew : cont.holds = xs)
    (hnodup : xs.Nodup) (hxs : ∀ x ∈ xs, w.state x = some .chanWait ∧ OffCpu w x)
    (hawake : ∀ x ∈ xs, w'.state x ≠ some .chanWait) :
    Wired (w'.setCont t cont) → Placed (w'.setCont t cont) := by
  refine h.puts (q := .kernel t) xs (hq.toCalm.trans (calm_setCont cont)) hnodup hxs ?_
    (fun r hr => ?_) hawake
  · rw [places_setCont_self, hnew]
    change xs.Perm (xs ++ (w.cont t).holds)
    rw [hold, append_nil]
  · rw [places_setCont_of_ne _ hr, hq.places]

/-- Kernel code that held no task takes the first task of a list. -/
lemma Placed.takesOne {cont : Cont} {op : Op} {o : Option WaitList} {r : Option TaskId × World}
    (hop : Switched w op) (hwakes : wakesOne w op = o) (hq : Quiet w r.2)
    (hold : (w.cont t).holds = []) (hnew : cont.holds = r.1.toList)
    (hwoken : ∀ x, r.1 = some x → ∃ l ts, o = some l ∧ w.waiters l = x :: ts ∧
      w.state x = some .chanWait ∧ r.2.state x = some .ready) :
    Wired (r.2.setCont t cont) → Placed (r.2.setCont t cont) := by
  refine h.takes r.1.toList hq hold hnew (by cases r.1 <;> simp) (fun x hx => ?_) fun x hx => ?_
  · obtain ⟨l, ts, hl, hts, hs, -⟩ := hwoken x (mem_toList.mp hx)
    exact ⟨hs, hop.1 l x ts (hwakes.trans hl) hts hs⟩
  · obtain ⟨l, ts, -, -, -, hready⟩ := hwoken x (mem_toList.mp hx)
    rw [hready]
    decide

lemma Placed.free (hx : w.isIdle x = false) : Placed (free w x) := by
  have hstate : ∀ {t s}, (Scheduler.free w x).state t = some s → w.state t = some s := by
    intro t s hs
    by_cases ht : t = x
    · simp [World.state, Scheduler.free, ht] at hs
    · simpa [World.state, Scheduler.free, ht] using hs
  have hidle : ∀ {t}, w.isIdle t = false → (Scheduler.free w x).isIdle t = false := by
    intro t ht
    by_cases htx : t = x
    · simp [World.isIdle, Scheduler.free, htx]
    · simpa [World.isIdle, Scheduler.free, htx] using ht
  have hplaces : places (Scheduler.free w x) = places w := by
    funext p
    cases p <;> rfl
  refine ⟨h.toWired.free hx, hplaces ▸ h.separate, fun ht => h.bounded (hplaces ▸ ht),
    fun ht => hidle (h.regular (hplaces ▸ ht)),
    fun ht hs => h.waiting (hplaces ▸ ht) (hstate hs), fun hs => ?_⟩
  exact ⟨(h.asleep (hstate hs)).1, hidle (h.asleep (hstate hs)).2⟩

lemma contStep_placed (ht : executing w c = some t) (hop : Switched w (.continue c))
    : Placed (contStep w c t) := by
  -- the code holds the same tasks at the next point, or fewer
  have hnext : ∀ {w' : World} {cont cont' : Cont}, w.cont t = cont → Quiet w w' →
      cont'.holds.Sublist cont.holds → Wired (w'.setCont t cont') → Placed (w'.setCont t cont') := by
    rintro w' _ cont' rfl hq hsub
    exact (h.quiet hq).setCont (by rw [hq.cont]; exact hsub)
  refine (?_ : Wired _ → _) ((contStep_moves ht).wired h.toWired)
  rw [contStep]
  cases hcont : w.cont t with
  | user => exact fun _ => h
  | linked l => exact fun _ => h
  | holding => exact fun _ => h
  | blocking l =>
    split_ifs
    · exact fun _ => h
    · have hunlinked : Quiet w (w.setWaiters l (unlink (w.waiters l) t)) := quiet_setWaiters _
      refine hnext hcont (hunlinked.trans ?_) (.refl _)
      exact quiet_modify (fun _ => rfl) fun _ hs => hs
  | waking ts =>
    cases ts with
    | nil => exact hnext hcont (Quiet.refl w) (.refl _)
    | cons x xs => exact h.enqueueFromKernel (by rw [hcont]; exact List.Perm.refl _)
  | killing target woken | dying woken =>
    cases woken with
    | none => exact hnext hcont (quiet_setState (by decide)) (.refl _)
    | some x => exact h.enqueueFromKernel (by rw [hcont]; exact List.Perm.refl _)
  | exiting =>
    exact h.takesOne hop (by simp [wakesOne, ht, hcont]) wakes_quiet.wakeWaitingParent
      (by rw [hcont]; rfl) rfl fun _ => wakeWaitingParent_woken
  | creating child =>
    exact hnext hcont (quiet_setState (by decide)) (.refl _)
  | reaping x i =>
    dsimp only
    split_ifs
    · exact hnext hcont (Quiet.refl w) (.refl _)
    · exact hnext hcont (Quiet.refl w) (.refl _)
    · refine (h.free (h.reaping t x i hcont)).setCont ?_
      exact nil_sublist _
  | begun =>
    refine h.shrinks (calm_of_tasks rfl) fun p => ?_
    by_cases hp : p = .kernel t
    · subst hp
      rw [places_setCont_self]
      exact nil_sublist _
    · rw [places_setCont_of_ne _ hp]
      cases p with
      | parked => exact nil_sublist _
      | _ => exact .refl _
  | polling i =>
    dsimp only
    split_ifs
    · exact hnext hcont (Quiet.refl w) (.refl _)
    · exact hnext hcont (Quiet.refl w) (.refl _)
    · exact hnext hcont (Quiet.refl w) (.refl _)
  | ending seq ts =>
    refine hnext hcont ?_ (.refl _)
    exact ⟨⟨calm_of_tasks rfl, rfl, rfl, rfl⟩, rfl, rfl, rfl⟩
  | releasing seq ts =>
    cases ts with
    | nil => exact hnext hcont (Quiet.refl w) (.refl _)
    | cons x xs =>
      have hquiet : Quiet w (w.setState x .ready) := quiet_setState (by decide)
      refine (h.quiet hquiet).enqueueFromKernel ?_
      rw [hquiet.cont, hcont]
      exact List.Perm.refl _

lemma Placed.block (ht : executing w c = some t) {l : WaitList} {timeoutNs : ℕ}
    (hcont : w.cont t = .user) : Placed (blockOnChannel w t l timeoutNs) := by
  have hw : Wired (blockOnChannel w t l timeoutNs) := by
    have := (callStep_moves ht (.block l timeoutNs)).wired h.toWired
    rwa [callStep, if_pos hcont] at this
  have hplaces : ∀ p, places (blockOnChannel w t l timeoutNs) p = places w p := by
    intro p
    by_cases hp : p = .kernel t
    · subst hp
      rw [blockOnChannel, places_setCont_self]
      simp [places, hcont, Cont.holds]
    · rw [blockOnChannel, places_setCont_of_ne _ hp, places_modify, places_setWaiters]
  have hidle : ∀ x, (blockOnChannel w t l timeoutNs).isIdle x = w.isIdle x := by
    intro x
    by_cases hx : x = t
    · subst hx
      cases hx' : w.tasks x <;>
        simp [World.isIdle, blockOnChannel, World.setCont, World.modify, World.setWaiters, hx']
    · simp [World.isIdle, blockOnChannel, World.setCont, World.modify, World.setWaiters, hx]
  have hstate : ∀ {x}, x ≠ t → (blockOnChannel w t l timeoutNs).state x = w.state x := by
    intro x hx
    simp [World.state, blockOnChannel, World.setCont, World.modify, World.setWaiters, hx]
  have hself := mem_places_of_executing ht
  have hsep : Separate (places (blockOnChannel w t l timeoutNs)) :=
    (funext hplaces : places (blockOnChannel w t l timeoutNs) = places w) ▸ h.separate
  refine ⟨hw, hsep, fun hx => h.bounded (hplaces _ ▸ hx),
    fun hx => (hidle _).trans (h.regular (hplaces _ ▸ hx)), fun {p x} hx hs => ?_, fun {x} hs => ?_⟩
  · rw [hplaces] at hx
    by_cases hxt : x = t
    · subst hxt
      exact ⟨c, h.separate.apart hx hself⟩
    · exact h.waiting hx (hstate hxt ▸ hs)
  · rw [hidle]
    by_cases hxt : x = t
    · subst hxt
      exact ⟨h.bounded hself, h.regular hself⟩
    · exact h.asleep (hstate hxt ▸ hs)

lemma Placed.create (hcont : w.cont t = .user) (kernel : Bool) :
    Placed (createTask w t kernel) := by
  refine (?_ : Wired _ → _) (h.toWired.createTask (t := t) kernel)
  rw [createTask]
  split_ifs
  · exact fun _ => h
  obtain ⟨w₁, hw₁⟩ : ∃ w₁, w₁ = { w with
      tasks := update w.tasks w.nextTaskId (some (newTask t kernel))
      nextTaskId := w.nextTaskId + 1
      taskCount := w.taskCount + 1 } := ⟨_, rfl⟩
  rw [← hw₁]
  have hplaces : places w₁ = places w := by
    rw [hw₁]
    funext p
    cases p <;> rfl
  have hfresh : ∀ p, w.nextTaskId ∉ places w p := fun p hp => lt_irrefl _ (h.bounded hp)
  have hnext : (w₁.setCont t (.creating w.nextTaskId)).nextTaskId = w.nextTaskId + 1 := by
    rw [hw₁]
    rfl
  have hidle : ∀ {x}, w.isIdle x = false → w₁.isIdle x = false := by
    intro x hx
    by_cases hxn : x = w.nextTaskId
    · simp [hw₁, World.isIdle, hxn, newTask]
    · simpa [hw₁, World.isIdle, hxn] using hx
  have hstate : ∀ {x}, w₁.state x = some .chanWait → w.state x = some .chanWait := by
    intro x hs
    by_cases hxn : x = w.nextTaskId
    · simp [hw₁, World.state, hxn, newTask] at hs
    · simpa [hw₁, World.state, hxn] using hs
  have hwhere : ∀ {p x}, x ∈ places (w₁.setCont t (.creating w.nextTaskId)) p →
      p = .kernel t ∧ x = w.nextTaskId ∨ x ∈ places w p := by
    intro p x hx
    by_cases hp : p = .kernel t
    · subst hp
      rw [places_setCont_self] at hx
      exact .inl ⟨rfl, mem_singleton.mp hx⟩
    · rw [places_setCont_of_ne _ hp, hplaces] at hx
      exact .inr hx
  refine fun hw => ⟨hw, ?_, fun {p x} hx => ?_, fun {p x} hx => ?_, fun {p x} hx hs => ?_,
    fun {x} hs => ?_⟩
  · refine h.separate.put (q := .kernel t) (nodup_singleton w.nextTaskId)
      (fun x hx => mem_singleton.mp hx ▸ hfresh) ?_ fun r hr => ?_
    · rw [places_setCont_self]
      simp [places, hcont, Cont.holds]
    · rw [places_setCont_of_ne _ hr, hplaces]
  · rw [hnext]
    rcases hwhere hx with ⟨-, rfl⟩ | hold
    · exact Nat.lt_succ_self _
    · exact Nat.lt_succ_of_lt (h.bounded hold)
  · rcases hwhere hx with ⟨-, rfl⟩ | hold
    · have hnew : w₁.isIdle w.nextTaskId = false := by simp [hw₁, World.isIdle, newTask]
      exact hnew
    · exact hidle (h.regular hold)
  · have hs' := hstate hs
    rcases hwhere hx with ⟨-, rfl⟩ | hold
    · exact absurd (h.asleep hs').1 (lt_irrefl _)
    · exact h.waiting hold hs'
  · rw [hnext]
    exact ⟨Nat.lt_succ_of_lt (h.asleep (hstate hs)).1, hidle (h.asleep (hstate hs)).2⟩

lemma callStep_placed (ht : executing w c = some t) {call : Call} (hop : Switched w (.call c call))
    : Placed (callStep w t call) := by
  have hsome : (executing w c).isSome := by rw [ht]; rfl
  -- the task has not been in the kernel, and holds nothing in the end
  have hnext : ∀ {w' : World} {cont cont' : Cont}, w.cont t = cont → Quiet w w' →
      cont'.holds = [] → Wired (w'.setCont t cont') → Placed (w'.setCont t cont') := by
    rintro w' _ cont' rfl hq hnone
    exact (h.quiet hq).setCont (by rw [hnone]; exact nil_sublist _)
  refine (?_ : Wired _ → _) ((callStep_moves ht call).wired h.toWired)
  cases call with
  | block l timeoutNs =>
    rw [callStep]
    split_ifs with hcont
    · exact fun _ => h.block ht hcont
    · exact fun _ => h
  | wakeOne l r =>
    rw [callStep]
    split_ifs with hcont
    · refine h.takesOne (o := some l) hop (by simp [wakesOne, ht, hcont]) (wakes_quiet.wakeOne r)
        (by rw [hcont]; rfl) rfl fun x hx => ?_
      obtain ⟨⟨ts, hts⟩, hs, hready⟩ := wakeOne_woken hx
      exact ⟨l, ts, rfl, hts, hs, hready⟩
    · exact fun _ => h
  | wakeAll l r =>
    rw [callStep]
    split_ifs with hcont
    · have hall := wakeAll_spec w l r
      refine h.takes _ hall.quiet (by rw [hcont]; rfl) rfl hall.nodup (fun x hx => ?_) fun x hx => ?_
      · obtain ⟨hmem, hs⟩ := (hall.mem x).mp hx
        exact ⟨hs, hop.2 hsome x hmem hs⟩
      · have hready := (hall.state x).trans (if_pos hx)
        exact fun hs => absurd (hready.symm.trans hs) (by decide)
    · exact fun _ => h
  | kill target =>
    rw [callStep]
    split_ifs with hguard
    · exact h.takesOne hop (by simp [wakesOne, ht, hguard]) (wakes_quiet.retire _)
        (by rw [hguard.1]; rfl) rfl fun _ => retire_woken
    · exact fun _ => h
  | signal target sig =>
    rw [callStep]
    split_ifs with hguard
    · have hpending : Quiet w (w.modify target fun task =>
          { task with pendingSignals := update task.pendingSignals sig true }) :=
        quiet_pending sig
      have hnot : ¬ (w.modify target fun task => { task with
          pendingSignals := update task.pendingSignals sig true }).state target =
            some .blocked := by
        rw [state_modify fun _ => by rfl]
        exact hop.2 hsome
      rw [if_neg hnot]
      exact fun _ => h.quiet hpending
    · exact fun _ => h
  | setHandler sig handler =>
    rw [callStep]
    split_ifs
    · exact fun _ => h.quiet (quiet_modify (fun _ => rfl) fun _ hs => hs)
    · exact fun _ => h
  | exit status =>
    rw [callStep]
    split_ifs with hguard
    · exact hnext hguard.1 (((quiet_exitStatus status).trans quiet_orphanChildren).trans
        (quiet_setState (by decide))) rfl
    · exact fun _ => h
  | crash status =>
    rw [callStep]
    split_ifs with hcont
    · exact h.takesOne hop (by simp [wakesOne, ht, hcont]) (wakes_quiet.retire status)
        (by rw [hcont]; rfl) rfl fun _ => retire_woken
    · exact fun _ => h
  | create kernel =>
    rw [callStep]
    split_ifs with hcont
    · exact fun _ => h.create hcont kernel
    · exact fun _ => h
  | createFails kernel =>
    rw [callStep]
    cases hcont : w.cont t with
    | creating child =>
      split_ifs
      · exact hnext hcont (quiet_setState (by decide)) rfl
      · exact hnext hcont (Quiet.refl w) rfl
    | _ => exact fun _ => h
  | reap child =>
    rw [callStep]
    split_ifs with hguard
    · exact hnext hguard.1 (Quiet.refl w) rfl
    · exact fun _ => h
  | refill cpu =>
    rw [callStep]
    split_ifs
    · exact fun _ => h.refill
    · exact fun _ => h
  | beginBarrier =>
    rw [callStep]
    split_ifs with hguard
    · refine hnext hguard.1 ?_ rfl
      exact ⟨⟨calm_of_tasks rfl, rfl, rfl, rfl⟩, rfl, rfl, rfl⟩
    · exact fun _ => h
  | barrierTimeout =>
    rw [callStep]
    cases hcont : w.cont t with
    | polling i =>
      refine hnext hcont ?_ rfl
      exact ⟨⟨calm_of_tasks rfl, rfl, rfl, rfl⟩, rfl, rfl, rfl⟩
    | _ => exact fun _ => h
  | endBarrier =>
    rw [callStep]
    split_ifs with hcont
    · -- the list of parked tasks goes into the hands of the caller
      refine h.exchanges (p := .parked) (q := .kernel t) (calm_of_tasks rfl) (by simp)
        ?_ (fun r hr hr' => ?_) fun x hx => ?_
      · rw [places_setCont_self, places_setCont_of_ne _ (by simp)]
        simp [places, hcont, Cont.holds]
      · rw [places_setCont_of_ne _ hr']
        cases r <;> first | rfl | exact absurd rfl hr
      · intro hs
        rcases hx with hx | hx
        · obtain ⟨d, hd⟩ := h.waiting hx hs
          cases hd
        · simp [places, hcont, Cont.holds] at hx
    · exact fun _ => h

end Tasks

/-- Every step keeps the tasks apart if it wakes no task that is still on a CPU. -/
theorem step_placed (w : World) (op : Op) (h : Placed w) (hop : Switched w op) :
    Placed (step w op) := by
  cases op with
  | tick =>
    exact h.quiet ⟨⟨calm_of_tasks rfl, rfl, rfl, rfl⟩, rfl, rfl, rfl⟩
  | enter c =>
    refine (?_ : Wired _ → _) (step_wired h.toWired (.enter c))
    rw [step]
    split_ifs with hin
    · rw [enter]
      have hsame : (w.cont (w.current c)).interrupted.holds = (w.cont (w.current c)).holds := by
        cases w.cont (w.current c) <;> rfl
      refine h.stays ((calm_setCont _).trans (calm_setPc _)) fun p => ?_
      by_cases hp : p = .cpu c
      · subst hp
        rw [places_setPc_self]
        simp only [places, hin.2.1]
        split_ifs <;> rfl
      · rw [places_setPc_of_ne _ hp]
        by_cases hp' : p = .kernel (w.current c)
        · subst hp'
          rw [places_setCont_self, hsame]
          rfl
        · rw [places_setCont_of_ne _ hp']
    · exact fun _ => h
  | schedule c choice => exact scheduleStep_placed h hop
  | «continue» c =>
    rw [step]
    cases ht : executing w c with
    | none => exact h
    | some t => exact contStep_placed h ht hop
  | call c call =>
    rw [step]
    cases ht : executing w c with
    | none => exact h
    | some t => exact callStep_placed h ht hop

lemma placed_boot (n : ℕ) : Placed (boot n) := by
  have hplaces : ∀ {p t}, t ∈ places (boot n) p → p = .ready 0 ∧ t = n := by
    intro p t ht
    cases p with
    | ready c =>
      by_cases hc : c = 0
      · simpa [places, boot, hc] using ht
      · simp [places, boot, hc] at ht
    | cpu c => simp [places, boot, Pc.holds, other] at ht
    | starved c => simp [places, boot] at ht
    | kernel s => simp [places, boot, Cont.holds] at ht
    | parked => simp [places, boot] at ht
  refine ⟨⟨fun c hc => ?_, fun x task hx hidle => ?_, fun c _ => ⟨rfl, rfl⟩, fun c hb => hb.elim,
    fun t x i hx => by cases hx⟩, ⟨fun p => ?_, fun hp hq => ?_⟩, fun ht => ?_, fun ht => ?_,
    fun ht hs => ?_, fun {t} hs => ?_⟩
  · have hlt : c < n := hc
    exact ⟨Nat.lt_succ_of_lt hlt, by simp [World.isIdle, boot, hlt]⟩
  · simp only [boot] at hx
    split_ifs at hx
    · rw [← Option.some.inj hx]
    · rw [← Option.some.inj hx] at hidle
      cases hidle
  · cases p with
    | ready c =>
      by_cases hc : c = 0
      · simp [places, boot, hc]
      · simp [places, boot, hc]
    | _ => simp [places, boot, Pc.holds, Cont.holds, other]
  · exact (hplaces hp).1.trans (hplaces hq).1.symm
  · rw [(hplaces ht).2]
    exact Nat.lt_succ_self n
  · rw [(hplaces ht).2]
    simp [World.isIdle, boot]
  · rw [(hplaces ht).2] at hs
    simp [World.state, boot] at hs
  · simp only [World.state, boot] at hs
    split_ifs at hs
    · cases hs
    · cases hs
    · cases hs

lemma offCpu_of_wired {w : World} (h : Wired w) {t : TaskId}
    (ht : ∀ c < w.cpuCount, t ∉ places w (.cpu c)) : OffCpu w t := by
  intro c hc
  by_cases hlt : c < w.cpuCount
  · exact ht c hlt hc
  · obtain ⟨hpc, hcurrent⟩ := h.outside c (not_lt.mp hlt)
    simp [places, hpc, hcurrent, Pc.holds, other] at hc

/-- The tasks that a step wakes if they wait. -/
def wakeCandidates (w : World) (op : Op) : List TaskId :=
  ((wakesOne w op).bind fun l => (w.waiters l).head?).toList ++
  match op with
  | .schedule c _ =>
    match w.pc c with
    | .scan i =>
      if (w.tasks i).any fun task => task.deadline ≠ 0 ∧ task.deadline ≤ w.timerTicks then [i]
      else []
    | _ => []
  | .call _ (.wakeAll l _) => w.waiters l
  | _ => []

def signalled : Op → Option TaskId
  | .call _ (.signal target _) => some target
  | _ => none

/-- `Switched`, looking at the CPUs that exist. -/
def SwitchedHere (w : World) (op : Op) : Prop :=
  (∀ t ∈ wakeCandidates w op, w.state t = some .chanWait →
    ∀ c < w.cpuCount, t ∉ places w (.cpu c)) ∧
  ∀ target ∈ signalled op, w.state target ≠ some .blocked

instance (w : World) (op : Op) : Decidable (SwitchedHere w op) :=
  inferInstanceAs (Decidable (_ ∧ _))

lemma switched_of_here {w : World} {op : Op} (h : Wired w) (hop : SwitchedHere w op) :
    Switched w op := by
  have hoff : ∀ t ∈ wakeCandidates w op, w.state t = some .chanWait → OffCpu w t :=
    fun t ht hs => offCpu_of_wired h (hop.1 t ht hs)
  refine ⟨fun l t ts hl hts hs => hoff t ?_ hs, ?_⟩
  · refine mem_append.mpr (.inl (mem_toList.mpr ?_))
    rw [hl, bind_some, hts]
    rfl
  cases op with
  | schedule c choice =>
    rintro i hpc ⟨task, htask, hs, hpast⟩
    refine hoff i (mem_append.mpr (.inr ?_)) ?_
    · simp only [hpc]
      rw [if_pos (by simpa [htask] using hpast)]
      exact mem_singleton_self i
    · rw [World.state, htask, map_some, hs]
  | call c call =>
    cases call with
    | wakeAll l r => exact fun _ t ht hs => hoff t (mem_append.mpr (.inr ht)) hs
    | signal target sig => exact fun _ => hop.2 target rfl
    | _ => trivial
  | _ => trivial

/-- In every state that such steps reach, a task is on one CPU, on one queue, parked or in the hands
of one task at most, and a task that waits is on no queue. -/
theorem task_is_in_one_place (n : ℕ) {ops : List Op} (hops : Guarded step Switched (boot n) ops) :
    Placed (run step (boot n) ops) :=
  invariant_run Placed step_placed (placed_boot n) hops

/-- The first task waits on a list. -/
def blockOps : List Op := reschedule 0 ++ .call 0 (.block (.object 0) 0) :: reschedule 0

theorem waiting_task_is_in_one_place :
    (run step (boot 1) blockOps).state 1 = some .chanWait ∧ Placed (run step (boot 1) blockOps) := by
  have hhere : Guarded step SwitchedHere (boot 1) blockOps := by decide +kernel
  refine ⟨by decide +kernel, task_is_in_one_place 1 ?_⟩
  exact guarded_of_invariant Wired (fun _ op h _ => step_wired h op) (fun _ _ => switched_of_here)
    (placed_boot 1).toWired hhere

end GrahaOS.Scheduler
