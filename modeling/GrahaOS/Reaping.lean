import GrahaOS.WakeUps

/-!
# A task that is freed is nowhere

`sched_reap_zombie` frees a task that is a zombie and that no CPU executes. A signal makes a task a
zombie wherever it is, and leaves it on the queue or the list it is on.
-/

namespace GrahaOS.Scheduler.Reaping

open World Runs Function List Option

/-- `schedule` has not looked at the state of the outgoing task yet. -/
def early : Pc → Prop
  | .out | .scan _ | .load | .loaded _ | .save _ => True
  | _ => False

def parentOf (w : World) (t : TaskId) : Option TaskId := (w.tasks t).bind Task.parent

/-- Zombies are nowhere but on a CPU that executes them, and those that are about to be freed stay
zombies. -/
structure Graves (w : World) : Prop where
  zombies : ∀ {p x}, x ∈ places w p → w.state x = some .zombie → ∃ c, p = .cpu c ∧ early (w.pc c)
  mortal : ∀ {x}, w.state x = some .zombie → x < w.nextTaskId ∧ w.isIdle x = false
  unlinked : ∀ {l x}, x ∈ w.waiters l → w.state x ≠ some .zombie
  linked : ∀ {l x}, x ∈ w.waiters l → w.cont x = .linked l ∨ w.cont x = .blocking l
  once : ∀ l, (w.waiters l).Nodup
  started : ∀ {l x}, x ∈ w.waiters l → x < w.nextTaskId ∧ ∀ t, w.cont t ≠ .creating x
  reaped : ∀ {r x i}, w.cont r = .reaping x i →
    w.state x = some .zombie ∧ parentOf w x = some r ∧ ∀ j < i, w.current j ≠ x

/-- A step that makes no zombies and wakes none, and links no task. -/
structure Still (w w' : World) : Prop where
  zombie : ∀ x, w'.state x = some .zombie ↔ w.state x = some .zombie
  parent : ∀ x, w.state x = some .zombie → parentOf w' x = parentOf w x
  isIdle : ∀ x, w'.isIdle x = w.isIdle x
  nextTaskId : w'.nextTaskId = w.nextTaskId
  waiters : ∀ l, (w'.waiters l).Sublist (w.waiters l)
  pc : w'.pc = w.pc
  current : w'.current = w.current
  cont : w'.cont = w.cont

section StillSteps

variable {w w' w'' : World} {c : CpuId} {t x : TaskId} {l : WaitList}

lemma Still.trans (h : Still w w') (h' : Still w' w'') : Still w w'' where
  zombie := fun x => (h'.zombie x).trans (h.zombie x)
  parent := fun x hx => (h'.parent x ((h.zombie x).mpr hx)).trans (h.parent x hx)
  isIdle := fun x => (h'.isIdle x).trans (h.isIdle x)
  nextTaskId := h'.nextTaskId.trans h.nextTaskId
  waiters := fun l => (h'.waiters l).trans (h.waiters l)
  pc := h'.pc.trans h.pc
  current := h'.current.trans h.current
  cont := h'.cont.trans h.cont

/-- A change of what neither the tasks nor their lists are. -/
lemma still_of_tasks (h : (w'.tasks, w'.nextTaskId, w'.waiters, w'.pc, w'.current, w'.cont) =
    (w.tasks, w.nextTaskId, w.waiters, w.pc, w.current, w.cont)) : Still w w' := by
  simp only [Prod.mk.injEq] at h
  obtain ⟨htasks, hnext, hwaiters, hpc, hcurrent, hcont⟩ := h
  refine ⟨fun x => ?_, fun x _ => ?_, fun x => ?_, hnext, fun l => ?_, hpc, hcurrent, hcont⟩
  · rw [state, state, htasks]
  · rw [parentOf, parentOf, htasks]
  · rw [World.isIdle, World.isIdle, htasks]
  · rw [hwaiters]

lemma Still.refl (w : World) : Still w w := still_of_tasks rfl

lemma parentOf_modify {f : Task → Task} (hf : ∀ task, (f task).parent = task.parent) (x : TaskId) :
    parentOf (w.modify t f) x = parentOf w x := by
  by_cases hx : x = t
  · subst hx
    cases hw : w.tasks x <;> simp [parentOf, World.modify, hw, hf]
  · simp [parentOf, World.modify, hx]

lemma still_modify {f : Task → Task}
    (hkin : ∀ task, ((f task).isIdle, (f task).parent) = (task.isIdle, task.parent))
    (hstate : ∀ task, w.tasks t = some task → ((f task).state = .zombie ↔ task.state = .zombie)) :
    Still w (w.modify t f) where
  zombie := fun x => by
    by_cases hx : x = t
    · subst hx
      rw [state_modify_self, state]
      cases hw : w.tasks x with
      | none => rfl
      | some task => simp [hstate task hw]
    · rw [state_modify_of_ne hx]
  parent := fun x _ => parentOf_modify (fun task => (Prod.ext_iff.mp (hkin task)).2) x
  isIdle := isIdle_modify fun task => (Prod.ext_iff.mp (hkin task)).1
  nextTaskId := rfl
  waiters := fun _ => .refl _
  pc := rfl
  current := rfl
  cont := rfl

lemma still_setState {s : TaskState} (hs : s ≠ .zombie) (ht : w.state t ≠ some .zombie) :
    Still w (w.setState t s) := by
  refine still_modify (fun _ => rfl) fun task htask => ?_
  refine iff_of_false hs fun hz => ht ?_
  rw [state, htask, map_some, hz]

lemma still_enqueueReady (ht : w.state t ≠ some .zombie) : Still w (enqueueReady w t) := by
  have hqueue : Still w (w.setReady (targetCpu w t) (w.ready (targetCpu w t) ++ [t])) :=
    still_of_tasks rfl
  exact hqueue.trans (still_setState (by decide) ht)

lemma still_exitStatus (status : ℤ) :
    Still w (w.modify t fun task => { task with exitStatus := status }) :=
  still_modify (fun _ => rfl) fun _ _ => Iff.rfl

lemma still_setWaiters {ts : List TaskId} (h : ts.Sublist (w.waiters l)) :
    Still w (w.setWaiters l ts) where
  zombie := fun _ => Iff.rfl
  parent := fun _ _ => rfl
  isIdle := fun _ => rfl
  nextTaskId := rfl
  waiters := fun l' => by
    by_cases hl : l' = l
    · subst hl
      rw [setWaiters_self]
      exact h
    · rw [setWaiters_of_ne _ hl]
  pc := rfl
  current := rfl
  cont := rfl

lemma still_orphanChildren : Still w (orphanChildren w t) where
  zombie := fun x => by rw [state_orphanChildren]
  parent := fun x hx => by
    obtain ⟨task, htask, hs⟩ := map_eq_some_iff.mp hx
    have hsame : orphaned t task = task := if_neg fun h => h.2 hs
    rw [parentOf, parentOf, orphanChildren_tasks, htask, map_some, hsame]
  isIdle := calm_orphanChildren.isIdle
  nextTaskId := rfl
  waiters := fun _ => .refl _
  pc := rfl
  current := rfl
  cont := rfl

lemma wakes_still : Wakes Still where
  refl := Still.refl
  trans := Still.trans
  pops := still_setWaiters
  result := fun _ => still_modify (fun _ => rfl) fun _ _ => Iff.rfl
  readies := fun hs => still_setState (by decide) (by rw [hs]; decide)
  exits := still_exitStatus
  orphans := still_orphanChildren

lemma still_stealFrom (thief victim : CpuId) : Still w (stealFrom w thief victim) := by
  rw [stealFrom]
  split_ifs
  · exact Still.refl w
  · exact still_of_tasks rfl

lemma still_findWork (victim : Option CpuId) : Still w (findWork w c victim) := by
  rw [findWork]
  split_ifs
  · cases victim with
    | none => exact Still.refl w
    | some victim => exact still_stealFrom c victim
  · exact Still.refl w

lemma still_delivered {o : Option ℕ} {task : Task}
    (h : (w.tasks t).map deliverSignals = some (o, task)) : Still w (w.modify t fun _ => task) := by
  obtain ⟨old, hold, -, hparent, -⟩ := delivered_kept h
  have hstate := state_delivered h
  refine ⟨fun x => by rw [hstate], fun x _ => ?_, (quiet_delivered h).isIdle, rfl,
    fun _ => .refl _, rfl, rfl, rfl⟩
  by_cases hx : x = t
  · subst hx
    simp only [parentOf, World.modify, update_self, hold, map_some, bind_some]
    exact hparent
  · simp [parentOf, World.modify, hx]

end StillSteps

section Steps

variable {w w' : World} {c : CpuId} {t x y : TaskId} {l : WaitList} {pc : Pc} {cont : Cont}
  {q : Place} {ts : List TaskId}

variable (h : Graves w)
include h

lemma Graves.still (hs : Still w w')
    (hplaces : ∀ {p x}, x ∈ places w' p → w.state x = some .zombie → x ∈ places w p) :
    Graves w' where
  zombies := fun hx hz => by
    have hz' := (hs.zombie _).mp hz
    rw [hs.pc]
    exact h.zombies (hplaces hx hz') hz'
  mortal := fun hz => by
    rw [hs.nextTaskId, hs.isIdle]
    exact h.mortal ((hs.zombie _).mp hz)
  unlinked := fun hx hz => h.unlinked ((hs.waiters _).subset hx) ((hs.zombie _).mp hz)
  linked := fun hx => by
    rw [hs.cont]
    exact h.linked ((hs.waiters _).subset hx)
  once := fun l => (h.once l).sublist (hs.waiters l)
  started := fun hx => by
    rw [hs.nextTaskId, hs.cont]
    exact h.started ((hs.waiters _).subset hx)
  reaped := fun hr => by
    rw [hs.cont] at hr
    obtain ⟨hz, hparent, hcurrent⟩ := h.reaped hr
    refine ⟨(hs.zombie _).mpr hz, (hs.parent _ hz).trans hparent, ?_⟩
    rw [hs.current]
    exact hcurrent

lemma Graves.quiet (hs : Still w w') (hq : Quiet w w') : Graves w' :=
  h.still hs fun hx _ => hq.places ▸ hx

lemma Graves.modify {f : Task → Task}
    (hkin : ∀ task, ((f task).isIdle, (f task).parent) = (task.isIdle, task.parent))
    (hstate : ∀ task, (f task).state = task.state) : Graves (w.modify t f) :=
  h.quiet (still_modify hkin fun task _ => by rw [hstate])
    (quiet_modify hkin fun task hs => hstate task ▸ hs)

lemma Graves.enqueue (ht : w.state t ≠ some .zombie) : Graves (enqueueReady w t) := by
  refine h.still (still_enqueueReady ht) fun {p x} hx hz => ?_
  by_cases hp : p = .ready (targetCpu w t)
  · subst hp
    rw [places_enqueueReady_self] at hx
    rcases mem_append.mp hx with hold | hnew
    · exact hold
    · obtain rfl := mem_singleton.mp hnew
      exact absurd hz ht
  · rwa [places_enqueueReady_of_ne hp] at hx

lemma Graves.setPc
    (hpc : ∀ x ∈ pc.holds (w.current c) (w.idleTask c), w.state x = some .zombie → early pc) :
    Graves (w.setPc c pc) := { h with
  zombies := fun {p x} hx hz => by
    by_cases hp : p = .cpu c
    · subst hp
      rw [places_setPc_self] at hx
      refine ⟨c, rfl, ?_⟩
      rw [setPc_self]
      exact hpc x hx hz
    · rw [places_setPc_of_ne _ hp] at hx
      obtain ⟨d, rfl, hd⟩ := h.zombies hx hz
      have hdc : d ≠ c := fun heq => hp (congrArg Place.cpu heq)
      exact ⟨d, rfl, by rwa [setPc_of_ne _ hdc]⟩ }

/-- The code of a task goes on; it holds no zombie, and a task that is on a list is in
`sched_block_on_channel`. -/
lemma Graves.setCont (hholds : ∀ x ∈ cont.holds, w.state x ≠ some .zombie)
    (hlinked : ∀ l, t ∈ w.waiters l → cont = .linked l ∨ cont = .blocking l)
    (hcreating : ∀ x l, cont = .creating x → x ∉ w.waiters l)
    (hreaped : ∀ x i, cont = .reaping x i →
      w.state x = some .zombie ∧ parentOf w x = some t ∧ ∀ j < i, w.current j ≠ x) :
    Graves (w.setCont t cont) := { h with
  zombies := fun {p x} hx hz => by
    by_cases hp : p = .kernel t
    · subst hp
      rw [places_setCont_self] at hx
      exact absurd hz (hholds x hx)
    · rw [places_setCont_of_ne _ hp] at hx
      exact h.zombies hx hz
  linked := fun {l x} hx => by
    by_cases hxt : x = t
    · subst hxt
      rw [setCont_self]
      exact hlinked l hx
    · rw [setCont_of_ne _ hxt]
      exact h.linked hx
  started := fun {l x} hx => by
    refine ⟨(h.started hx).1, fun s hs => ?_⟩
    by_cases hst : s = t
    · subst hst
      rw [setCont_self] at hs
      exact hcreating x l hs hx
    · rw [setCont_of_ne _ hst] at hs
      exact (h.started hx).2 s hs
  reaped := fun {r x i} hr => by
    by_cases hrt : r = t
    · subst hrt
      rw [setCont_self] at hr
      exact hreaped x i hr
    · rw [setCont_of_ne _ hrt] at hr
      exact h.reaped hr }

omit h

/-- Where the code of a task is, if the task is on no list. -/
def awake : Cont → Prop
  | .linked _ | .blocking _ => False
  | _ => True

include h

lemma Graves.notMem (hcont : w.cont t = cont) (ht : awake cont) : t ∉ w.waiters l := by
  subst hcont
  intro hl
  rcases h.linked hl with hc | hc
  · rw [hc] at ht
    exact ht
  · rw [hc] at ht
    exact ht

lemma Graves.offCpu (hq : ∀ c, q ≠ .cpu c) (hx : x ∈ places w q) : w.state x ≠ some .zombie := by
  intro hz
  obtain ⟨c, hc, -⟩ := h.zombies hx hz
  exact hq c hc

lemma Graves.held (hx : x ∈ (w.cont t).holds) : w.state x ≠ some .zombie :=
  h.offCpu (q := .kernel t) nofun hx

lemma Graves.queued (hx : x ∈ w.ready c) : w.state x ≠ some .zombie :=
  h.offCpu (q := .ready c) nofun hx

lemma Graves.late (hx : x ∈ places w (.cpu c)) (hpc : ¬ early (w.pc c)) :
    w.state x ≠ some .zombie := by
  intro hz
  obtain ⟨d, hd, hearly⟩ := h.zombies hx hz
  cases hd
  exact hpc hearly

lemma Graves.idle (hw : Wired w) (hc : c < w.cpuCount) : w.state (w.idleTask c) ≠ some .zombie := by
  intro hz
  exact Bool.false_ne_true ((h.mortal hz).2.symm.trans (hw.idle c hc).2)

/-- The one task that a CPU holds, or its idle task, once `schedule` has looked at it. -/
lemma Graves.alive (hw : Wired w) (hpc : w.pc c = pc) (hlate : ¬ early pc)
    (hx : pc.holds (w.current c) (w.idleTask c) = other (w.idleTask c) x) :
    w.state x ≠ some .zombie := by
  by_cases hidle : x = w.idleTask c
  · rw [hidle]
    refine h.idle hw (hw.lt fun hout => hlate ?_)
    rw [← hpc, hout]
    trivial
  · refine h.late ?_ (by rwa [hpc])
    simp only [places, hpc, hx, other_of_ne hidle]
    exact mem_singleton_self x

omit h

/-- The code neither creates nor frees a task. -/
def plain : Cont → Prop
  | .creating _ | .reaping _ _ => False
  | _ => True

lemma Graves.goes {cont' : Cont} (h : Graves w) (hcont : w.cont t = cont) (hawake : awake cont)
    (hholds : ∀ x ∈ cont'.holds, w.state x ≠ some .zombie) (hplain : plain cont') :
    Graves (w.setCont t cont') := by
  refine h.setCont hholds (fun _ hl => absurd hl (h.notMem hcont hawake)) ?_ ?_
  · rintro x _ rfl
    exact hplain.elim
  · rintro x i rfl
    exact hplain.elim

lemma zombie_of_setState (h : (w.setState x .zombie).state y = some .zombie) :
    y = x ∨ w.state y = some .zombie := by
  by_cases hyx : y = x
  · exact .inl hyx
  · exact .inr (by rwa [state_setState_of_ne _ hyx] at h)

lemma zombie_setState (h : w.state y = some .zombie) :
    (w.setState x .zombie).state y = some .zombie := by
  by_cases hyx : y = x
  · subst hyx
    rw [state_setState_self, h]
    rfl
  · rwa [state_setState_of_ne _ hyx]

/-- A task becomes a zombie that is on no list, and nowhere but on a CPU that has not looked at its
state. -/
lemma Graves.bury (h : Graves w) (hx : x < w.nextTaskId ∧ w.isIdle x = false)
    (hfree : ∀ l, x ∉ w.waiters l)
    (hplaces : ∀ p, x ∈ places w p → ∃ c, p = .cpu c ∧ early (w.pc c)) :
    Graves (w.setState x .zombie) := by
  have hidle : ∀ y, (w.setState x .zombie).isIdle y = w.isIdle y :=
    (calm_setState (by decide)).isIdle
  refine ⟨fun {p y} hy hz => ?_, fun {y} hz => ?_, fun {l y} hy hz => ?_, h.linked, h.once,
    h.started, fun {r y i} hr => ?_⟩
  · rw [places_setState] at hy
    rcases zombie_of_setState hz with rfl | hz
    · exact hplaces p hy
    · exact h.zombies hy hz
  · rw [hidle]
    rcases zombie_of_setState hz with rfl | hz
    · exact hx
    · exact h.mortal hz
  · rcases zombie_of_setState hz with rfl | hz
    · exact hfree l hy
    · exact h.unlinked hy hz
  · obtain ⟨hz, hparent, hcurrent⟩ := h.reaped hr
    have hkept : parentOf (w.setState x .zombie) y = parentOf w y := by
      refine parentOf_modify (fun _ => ?_) y
      rfl
    exact ⟨zombie_setState hz, hkept.trans hparent, hcurrent⟩

lemma Graves.kill (hp : Placed w) (h : Graves w) (hx : x ∈ places w (.cpu c))
    (hearly : early (w.pc c)) (hfree : ∀ l, x ∉ w.waiters l) : Graves (w.setState x .zombie) :=
  h.bury ⟨hp.bounded hx, hp.regular hx⟩ hfree
    fun _ hq => ⟨c, hp.separate.apart hq hx, hearly⟩

/-- A task becomes a zombie that was at one place only, which is empty now. -/
lemma Graves.drops (hp : Placed w) (h : Graves w') (hx : x ∈ places w q)
    (hnext : w'.nextTaskId = w.nextTaskId) (hidle : w'.isIdle x = w.isIdle x)
    (hfree : ∀ l, x ∉ w'.waiters l) (hempty : places w' q = [])
    (hothers : ∀ p, p ≠ q → places w' p = places w p) : Graves (w'.setState x .zombie) := by
  refine h.bury ⟨hnext ▸ hp.bounded hx, hidle ▸ hp.regular hx⟩ hfree fun p hmem => ?_
  by_cases hpq : p = q
  · rw [hpq, hempty] at hmem
    cases hmem
  · rw [hothers p hpq] at hmem
    exact absurd (hp.separate.apart hmem hx) hpq

lemma Graves.leaves {s : TaskState} {active : Bool} (h : Graves w) (ht : w.state t ≠ some .zombie)
    (hs : s ≠ .zombie) (hw : Still w w') (hself : places w' q = t :: places w q)
    (hothers : ∀ r, r ≠ q → places w' r = places w r) :
    Graves ((w'.setState t s).setPc c (.pick active)) := by
  have ht' : w'.state t ≠ some .zombie := fun hz => ht ((hw.zombie t).mp hz)
  refine Graves.setPc (h.still (hw.trans (still_setState hs ht')) fun {p x} hx hz => ?_)
    fun x hx => absurd hx not_mem_nil
  rw [places_setState] at hx
  by_cases hp : p = q
  · subst hp
    rw [hself] at hx
    rcases mem_cons.mp hx with rfl | hold
    · exact absurd hz ht
    · exact hold
  · rwa [hothers p hp] at hx

lemma mem_other {idle : TaskId} (h : y ∈ other idle x) : y = x := by
  rw [other] at h
  split_ifs at h
  · cases h
  · exact mem_singleton.mp h

include h

lemma Graves.runs (hx : w.state x ≠ some .zombie)
    (hpc : pc.holds (w.current c) (w.idleTask c) = other (w.idleTask c) x) :
    Graves ((w.setState x .running).setPc c pc) := by
  have hstill : Still w (w.setState x .running) := still_setState (by decide) hx
  refine (h.still hstill fun hy _ => by rwa [places_setState] at hy).setPc fun y hy hz => ?_
  change y ∈ pc.holds (w.current c) (w.idleTask c) at hy
  rw [hpc] at hy
  exact absurd (mem_other hy ▸ (hstill.zombie y).mp hz) hx

lemma Graves.installs (hx : w.state x ≠ some .zombie)
    (hpc : pc.holds x (w.idleTask c) = other (w.idleTask c) x) :
    Graves ((w.setCurrent c x).setPc c pc) := { h with
  zombies := fun {p y} hy hz => by
    by_cases hp : p = .cpu c
    · subst hp
      rw [places_setPc_self, setCurrent_self] at hy
      change y ∈ pc.holds x (w.idleTask c) at hy
      rw [hpc] at hy
      exact absurd (mem_other hy ▸ hz) hx
    · rw [places_setPc_of_ne _ hp, places_setCurrent_of_ne hp] at hy
      obtain ⟨d, rfl, hd⟩ := h.zombies hy hz
      have hdc : d ≠ c := fun heq => hp (congrArg Place.cpu heq)
      exact ⟨d, rfl, by rw [setPc_of_ne _ hdc]; exact hd⟩
  reaped := fun {r y i} hr => by
    obtain ⟨hz, hparent, hcurrent⟩ := h.reaped hr
    refine ⟨hz, hparent, fun j hj => ?_⟩
    by_cases hjc : j = c
    · subst hjc
      have hne : x ≠ y := fun heq => hx (heq ▸ hz)
      exact (setCurrent_self w j x).trans_ne hne
    · exact (setCurrent_of_ne x hjc).trans_ne (hcurrent j hj) }

omit h

lemma mem_findWork {victim : Option CpuId} {d : CpuId}
    (h : x ∈ (findWork w c victim).ready d) : ∃ e, x ∈ w.ready e := by
  rw [findWork] at h
  split_ifs at h with hempty
  · cases victim with
    | none => exact ⟨d, h⟩
    | some victim =>
    rw [elim_some, stealFrom] at h
    split_ifs at h with hfew
    · exact ⟨d, h⟩
    have hsplice := spliceTail_perm (stealableBy w c) ((w.ready victim).length / 2)
      (w.ready victim).reverse
    generalize spliceTail (stealableBy w c) ((w.ready victim).length / 2)
      (w.ready victim).reverse = r at h hsplice
    obtain ⟨taken, left⟩ := r
    have hvictim : ∀ {y}, y ∈ taken ++ left → y ∈ w.ready victim := fun hy =>
      mem_reverse.mp (hsplice.mem_iff.mp hy)
    dsimp only at h
    by_cases hdc : d = c
    · subst hdc
      rw [setReady_self, mem_append, mem_reverse] at h
      rcases h with h | h
      · exact ⟨victim, hvictim (mem_append.mpr (.inl h))⟩
      · exact ⟨d, h⟩
    · rw [setReady_of_ne _ hdc] at h
      by_cases hdv : d = victim
      · subst hdv
        rw [setReady_self, mem_reverse] at h
        exact ⟨d, hvictim (mem_append.mpr (.inr h))⟩
      · rw [setReady_of_ne _ hdv] at h
        exact ⟨d, h⟩
  · exact ⟨d, h⟩

include h

/-- The places apart from the queues stay what they are. -/
lemma Graves.requeues (hs : Still w w') (hready : ∀ {d x}, x ∈ w'.ready d → ∃ e, x ∈ w.ready e)
    (hothers : ∀ p, (∀ d, p ≠ .ready d) → places w' p = places w p) : Graves w' := by
  refine h.still hs fun {p x} hx hz => ?_
  by_cases hp : ∃ d, p = .ready d
  · obtain ⟨d, rfl⟩ := hp
    obtain ⟨e, he⟩ := hready hx
    exact absurd hz (h.queued he)
  · rw [hothers p fun d hd => hp ⟨d, hd⟩] at hx
    exact hx

lemma Graves.findWork (victim : Option CpuId) : Graves (findWork w c victim) := by
  refine h.requeues (still_findWork victim) mem_findWork fun p hp => ?_
  rw [Scheduler.findWork]
  split_ifs
  · cases victim with
    | none => rfl
    | some victim =>
      rw [elim_some, stealFrom]
      split_ifs
      · rfl
      · rw [places_setReady_of_ne _ (hp c), places_setReady_of_ne _ (hp victim)]
  · rfl

/-- The CPU takes the first task of its queue, and holds it or drops it. -/
lemma Graves.dequeue (hready : w.ready c = t :: ts)
    (hpc : ∀ x ∈ pc.holds (w.current c) (w.idleTask c), x = t) :
    Graves ((w.setReady c ts).setPc c pc) := by
  have ht : w.state t ≠ some .zombie := h.queued (by rw [hready]; exact mem_cons_self)
  refine Graves.setPc (h.requeues (still_of_tasks rfl) (fun {d x} hx => ?_)
    fun p hp => places_setReady_of_ne _ (hp c)) fun x hx hz => ?_
  · by_cases hdc : d = c
    · subst hdc
      rw [setReady_self] at hx
      exact ⟨d, by rw [hready]; exact mem_cons_of_mem t hx⟩
    · rw [setReady_of_ne _ hdc] at hx
      exact ⟨d, hx⟩
  · exact absurd (hpc x hx ▸ hz) ht

lemma Graves.expire : Graves (expire w t) := by
  rw [Scheduler.expire]
  cases htask : w.tasks t with
  | none => exact h
  | some task =>
  rw [elim_some]
  split_ifs with hexp
  · have hstill : Still w
        (w.modify t fun task => { task with waitResult := -110, state := .ready }) := by
      refine still_modify (fun _ => rfl) fun task' htask' => ?_
      obtain rfl := Option.mem_unique htask htask'
      exact iff_of_false (by simp) (by rw [hexp.1]; decide)
    refine (h.still hstill fun hx _ => ?_).enqueue ?_
    · rwa [places_modify] at hx
    · rw [state_modify_self, htask]
      simp
  · exact h

omit h

/-- What makes a task a zombie from outside: a signal that terminates it, or another task. The task
is then on no list of waiting tasks, and a CPU has it that has not looked at its state; a zombie
does not wait. -/
def Careful (w : World) (op : Op) : Prop :=
  Switched w op ∧
  match op with
  | .schedule c _ => w.pc c = .notify none →
      w.current c ≠ w.idleTask c ∧ ∀ l, w.current c ∉ w.waiters l
  | .continue c => ∀ t target, executing w c = some t → w.cont t = .killing target none →
      (∃ d, target ∈ places w (.cpu d) ∧ early (w.pc d)) ∧ ∀ l, target ∉ w.waiters l
  | .call c (.block _ _) => ∀ t, executing w c = some t → w.state t ≠ some .zombie
  | _ => True

lemma scheduleStep_graves (hp : Placed w) (h : Graves w) {choice : Choice}
    (hop : Careful w (.schedule c choice)) : Graves (scheduleStep w c choice) := by
  by_cases hout : w.pc c = .out
  · rw [scheduleStep, hout]
    exact h
  have halive : ∀ {pc : Pc} {x : TaskId}, w.pc c = pc → ¬ early pc →
      pc.holds (w.current c) (w.idleTask c) = other (w.idleTask c) x →
      w.state x ≠ some .zombie := fun hpc hlate hx => h.alive hp.toWired hpc hlate hx
  -- a zombie may stay on a CPU up to `save`
  have hnext : ∀ {pc : Pc}, early pc → Graves (w.setPc c pc) := fun hpc => h.setPc fun _ _ _ => hpc
  have hidle : ∀ {next : TaskId → Pc}, (∀ t, (next t).holds (w.current c) (w.idleTask c) =
      other (w.idleTask c) t) → Graves (w.setPc c (idleOr w c next)) := fun hnext => by
    refine h.setPc fun x hx => ?_
    rw [idleOr_holds hnext] at hx
    cases hx
  rw [scheduleStep]
  cases hpc : w.pc c with
  | out => exact absurd hpc hout
  | scan i =>
    dsimp only
    split_ifs
    · exact h.expire.setPc fun _ _ _ => trivial
    · exact hnext trivial
  | load => exact hnext trivial
  | loaded active =>
    dsimp only
    split_ifs
    · exact hnext trivial
    · exact hnext trivial
  | save active =>
    refine h.setPc fun x hx hz => ?_
    rw [saveOutgoing] at hx
    -- a task that runs is no zombie
    have hrun : ∀ {pc : Pc}, w.state (w.current c) = some .running →
        pc.holds (w.current c) (w.idleTask c) = other (w.idleTask c) (w.current c) →
        x ∉ pc.holds (w.current c) (w.idleTask c) := by
      intro pc hs hholds hx
      rw [hholds] at hx
      rw [mem_other hx, hs] at hz
      cases hz
    split_ifs at hx with hs
    · exact absurd hx (hrun hs rfl)
    · exact absurd hx (hrun hs rfl)
    · exact absurd hx (hrun hs rfl)
    · cases hx
  | park =>
    refine h.leaves (q := .parked) (halive hpc id rfl) (by decide)
      (still_of_tasks rfl) rfl fun r hr => ?_
    cases r <;> first | rfl | exact absurd rfl hr
  | starve =>
    exact h.leaves (q := .starved c) (halive hpc id rfl) (by decide)
      (still_of_tasks rfl) (places_setStarved_self _)
      fun r hr => places_setStarved_of_ne _ hr
  | yield active =>
    have hcurrent : w.state (w.current c) ≠ some .zombie := halive hpc id rfl
    have hstill : Still w (w.setState (w.current c) .ready) := still_setState (by decide) hcurrent
    refine (h.still hstill fun hx _ => by rwa [places_setState] at hx).setPc fun x hx hz => ?_
    split_ifs at hx
    · cases hx
    · exact absurd (mem_other hx ▸ (hstill.zombie x).mp hz) hcurrent
  | requeue active =>
    exact (h.enqueue (halive hpc id rfl)).setPc fun x hx => absurd hx not_mem_nil
  | pick active =>
    dsimp only
    split_ifs
    · exact h.setPc fun x hx => absurd hx not_mem_nil
    have hfound : Graves (Scheduler.findWork w c choice.victim) := h.findWork choice.victim
    generalize Scheduler.findWork w c choice.victim = w₁ at hfound ⊢
    rw [Scheduler.dequeue]
    cases hready : w₁.ready c with
    | nil => exact hfound.setPc fun x hx => absurd hx not_mem_nil
    | cons t ts => exact hfound.dequeue hready fun x hx => mem_other hx
  | picked next =>
    dsimp only
    cases hf : next.filter fun t => w.state t ≠ some .zombie with
    | none => exact hidle fun _ => rfl
    | some t =>
      obtain ⟨-, ht⟩ := filter_eq_some_iff.mp hf
      refine h.setPc fun x hx hz => ?_
      rw [mem_other hx] at hz
      exact absurd hz (of_decide_eq_true ht)
  | dispatch next => exact h.runs (halive hpc id rfl) rfl
  | install next =>
    have hnot : w.state next ≠ some .zombie := halive hpc id rfl
    have hinstalled : Graves ((w.setCurrent c next).setPc c .deliver) := h.installs hnot rfl
    exact hinstalled.modify (fun _ => rfl) fun _ => rfl
  | deliver =>
    have hcurrent : w.state (w.current c) ≠ some .zombie := halive hpc id rfl
    cases hd : (w.tasks (w.current c)).map deliverSignals with
    | none => exact hnext trivial
    | some r =>
    obtain ⟨o, task⟩ := r
    have hdelivered := h.quiet (still_delivered hd) (quiet_delivered hd)
    cases o with
    | none => exact hdelivered.setPc fun _ _ _ => trivial
    | some sig =>
    have hstill := (still_delivered hd).trans
      (wakes_still.retire (t := w.current c) task.exitStatus)
    have hquiet := (quiet_delivered hd).trans
      (wakes_quiet.retire (t := w.current c) task.exitStatus)
    have hwoken := fun x (hx : (retire (w.modify (w.current c) fun _ => task) (w.current c)
      task.exitStatus).1 = some x) => (retire_woken hx)
    dsimp only
    generalize retire (w.modify (w.current c) fun _ => task) (w.current c) task.exitStatus = r
      at hstill hquiet hwoken ⊢
    obtain ⟨woken, w₁⟩ := r
    refine (h.quiet hstill hquiet).setPc fun x hx hz => ?_
    rcases mem_append.mp hx with hx | hx
    · dsimp only at hquiet hx hz
      rw [hquiet.current] at hx
      exact absurd (mem_other hx ▸ (hstill.zombie x).mp hz) hcurrent
    · obtain ⟨l, ts, -, -, -, hready⟩ := hwoken x (mem_toList.mp hx)
      exact absurd (hready.symm.trans hz) (by decide)
  | notify woken =>
    cases woken with
    | none =>
      obtain ⟨hne, hfree⟩ := hop.2 hpc
      have hmem : w.current c ∈ places w (.cpu c) := by
        simp only [places, hpc, Pc.holds, other_of_ne hne]
        exact mem_append.mpr (.inl (mem_singleton_self _))
      have hgone : Graves (w.setPc c .replace) := h.setPc fun x hx => absurd hx not_mem_nil
      exact hgone.drops hp hmem rfl rfl hfree (places_setPc_self _)
        fun p hne => places_setPc_of_ne _ hne
    | some t =>
      have hheld : ∀ {x}, x ∈ places w (.cpu c) → w.state x ≠ some .zombie :=
        fun hx => h.late hx (by rw [hpc]; exact id)
      have ht : w.state t ≠ some .zombie := hheld (by simp [places, hpc, Pc.holds])
      refine (h.enqueue ht).setPc fun x hx hz => ?_
      refine absurd (((still_enqueueReady ht).zombie x).mp hz) (hheld ?_)
      have hx' : x ∈ other (w.idleTask c) (w.current c) ++ [] := hx
      simp only [places, hpc, Pc.holds]
      exact mem_append.mpr (.inl (by rwa [append_nil] at hx'))
  | replace =>
    dsimp only
    rw [Scheduler.dequeue]
    cases hready : w.ready c with
    | nil => exact hidle fun _ => rfl
    | cons t ts =>
      dsimp only
      split_ifs
      · exact h.dequeue hready fun x hx => absurd hx not_mem_nil
      · exact h.dequeue hready fun x hx => mem_other hx
  | replaced next => exact h.runs (halive hpc id rfl) rfl
  | reinstall next => exact h.installs (halive hpc id rfl) rfl
  | halted => exact h

lemma notMem_unlink (h : ts.Nodup) : t ∉ unlink ts t := by
  rw [unlink]
  split_ifs with hwalk
  · exact h.not_mem_erase
  intro ht
  obtain ⟨i, hi, hget⟩ := mem_take_iff_getElem.mp ht
  have hlt := (lt_min_iff.mp hi)
  refine hwalk (le_trans ?_ hlt.1.le)
  rw [← hget, h.idxOf_getElem i hlt.2]

include h

lemma Graves.resume (hcont : w.cont t = .blocking l) : Graves (resume w t l) := by
  have hsub : (unlink (w.waiters l) t).Sublist (w.waiters l) := by
    rw [unlink]
    split_ifs
    · exact erase_sublist
    · exact take_sublist _ _
  have hunlinked := h.quiet (still_setWaiters hsub) (quiet_setWaiters _)
  refine Graves.setCont (hunlinked.modify (fun _ => rfl) fun _ => rfl)
    (fun x hx => absurd hx not_mem_nil) (fun l' hl' => ?_)
    (fun x _ hx => Cont.noConfusion hx) fun x i hx => Cont.noConfusion hx
  -- the task was on one list only, and there only once
  change t ∈ (w.setWaiters l (unlink (w.waiters l) t)).waiters l' at hl'
  by_cases hll : l' = l
  · subst hll
    rw [setWaiters_self] at hl'
    exact absurd hl' (notMem_unlink (h.once l'))
  · rw [setWaiters_of_ne _ hll] at hl'
    rcases h.linked hl' with hc | hc
    · exact Cont.noConfusion (hcont.symm.trans hc)
    · exact absurd (Cont.blocking.inj (hcont.symm.trans hc)).symm hll

lemma Graves.wakes {cont' : Cont} (hcont : w.cont t = cont) (hholds : cont.holds = x :: cont'.holds)
    (hawake : awake cont) (hplain : plain cont') :
    Graves ((enqueueReady w x).setCont t cont') := by
  have hheld : ∀ {y}, y ∈ x :: cont'.holds → w.state y ≠ some .zombie := by
    intro y hy
    rw [← hholds, ← hcont] at hy
    exact h.held hy
  have hx := hheld mem_cons_self
  refine (h.enqueue hx).goes hcont hawake (fun y hy hz => ?_) hplain
  exact hheld (mem_cons_of_mem x hy) (((still_enqueueReady hx).zombie y).mp hz)

/-- One entry of the task table changes, of a task that nobody is about to free. -/
lemma Graves.replace (n : TaskId) (htasks : ∀ y ≠ n, w'.tasks y = w.tasks y)
    (hnew : w'.state n ≠ some .zombie) (hnext : w.nextTaskId ≤ w'.nextTaskId)
    (hplaces : places w' = places w) (hpc : w'.pc = w.pc) (hwaiters : w'.waiters = w.waiters)
    (hcont : w'.cont = w.cont) (hcurrent : w'.current = w.current)
    (hnot : ∀ r i, w.cont r ≠ .reaping n i) : Graves w' := by
  have hstate : ∀ {y}, w'.state y = some .zombie → y ≠ n ∧ w.state y = some .zombie := by
    intro y hy
    have hne : y ≠ n := fun heq => hnew (heq ▸ hy)
    rw [World.state, htasks y hne] at hy
    exact ⟨hne, hy⟩
  refine ⟨fun {p y} hy hz => ?_, fun {y} hz => ?_, fun {l y} hy hz => ?_, fun {l y} hy => ?_,
    fun l => hwaiters ▸ h.once l, fun {l y} hy => ?_, fun {r y i} hr => ?_⟩
  · rw [hpc]
    exact h.zombies (hplaces ▸ hy) (hstate hz).2
  · obtain ⟨hne, hz⟩ := hstate hz
    rw [World.isIdle, htasks y hne]
    exact ⟨(h.mortal hz).1.trans_le hnext, (h.mortal hz).2⟩
  · exact h.unlinked (hwaiters ▸ hy) (hstate hz).2
  · rw [hcont]
    exact h.linked (hwaiters ▸ hy)
  · rw [hcont]
    obtain ⟨hlt, hstarted⟩ := h.started (hwaiters ▸ hy)
    exact ⟨hlt.trans_le hnext, hstarted⟩
  · rw [hcont] at hr
    have hne : y ≠ n := fun heq => hnot r i (heq ▸ hr)
    rw [World.state, parentOf, htasks y hne, hcurrent]
    exact h.reaped hr

/-- The last step of `sched_reap_zombie`; no other task reaps the same one. -/
lemma Graves.free {i : CpuId} (hcont : w.cont t = .reaping x i) :
    Graves ((free w x).setCont t .user) := by
  have hleft : Graves (w.setCont t .user) := h.goes hcont trivial (by simp [Cont.holds]) trivial
  refine hleft.replace x (fun y hy => update_of_ne hy ..)
    (by simp [World.state, Scheduler.free, World.setCont]) le_rfl
    (funext fun p => by cases p <;> rfl) rfl rfl rfl rfl fun r j hr => ?_
  have hrt : r ≠ t := by
    rintro rfl
    exact Cont.noConfusion ((setCont_self ..).symm.trans hr)
  rw [setCont_of_ne _ hrt] at hr
  exact hrt (Option.some.inj ((h.reaped hr).2.1.symm.trans (h.reaped hcont).2.1))

omit h

lemma contStep_graves (hp : Placed w) (h : Graves w) (ht : executing w c = some t)
    (hop : Careful w (.continue c)) : Graves (contStep w c t) := by
  -- the code goes on and holds the same tasks or fewer
  have hnext : ∀ {w' : World} {cont cont' : Cont}, w.cont t = cont → Still w w' → Quiet w w' →
      awake cont → (∀ x ∈ cont'.holds, x ∈ cont.holds) → plain cont' →
      Graves (w'.setCont t cont') := by
    rintro w' _ cont' rfl hs hq hawake hholds hplain
    refine (h.quiet hs hq).goes (congrFun hs.cont t) hawake (fun x hx hz => ?_) hplain
    exact h.held (hholds x hx) ((hs.zombie x).mp hz)
  have hself := Still.refl w
  have hquiet := Quiet.refl w
  rw [contStep]
  cases hcont : w.cont t with
  | user => exact h
  | linked l => exact h
  | holding => exact h
  | blocking l =>
    split_ifs
    · exact h
    · exact h.resume hcont
  | waking ts =>
    cases ts with
    | nil => exact hnext hcont hself hquiet trivial (by simp [Cont.holds]) trivial
    | cons x xs => exact h.wakes hcont rfl trivial trivial
  | killing target woken =>
    cases woken with
    | none =>
      obtain ⟨⟨d, hmem, hearly⟩, hfree⟩ := hop.2 t target ht hcont
      exact (h.kill hp hmem hearly hfree).goes hcont trivial (by simp [Cont.holds]) trivial
    | some x => exact h.wakes hcont rfl trivial trivial
  | exiting =>
    refine (h.quiet wakes_still.wakeWaitingParent wakes_quiet.wakeWaitingParent).goes
      ((congrFun wakes_quiet.wakeWaitingParent.cont t).trans hcont) trivial (fun x hx => ?_) trivial
    · obtain ⟨l, ts, -, -, -, hready⟩ := wakeWaitingParent_woken (mem_toList.mp hx)
      rw [hready]
      decide
  | dying woken =>
    cases woken with
    | none =>
      have hearly : early (w.pc c) := by rw [(executing_eq ht).1]; trivial
      exact (h.kill hp (mem_places_of_executing ht) hearly fun _ => h.notMem hcont trivial).goes
        hcont trivial (by simp [Cont.holds]) trivial
    | some x => exact h.wakes hcont rfl trivial trivial
  | creating child =>
    have hchild : w.state child ≠ some .zombie := h.held (t := t) (by simp [hcont, Cont.holds])
    exact hnext hcont (still_setState (by decide) hchild) (quiet_setState (by decide)) trivial
      (fun _ hx => hx) trivial
  | reaping x i =>
    dsimp only
    split_ifs with hi hcurrent
    · exact hnext hcont hself hquiet trivial (fun _ hx => hx) trivial
    · obtain ⟨hz, hparent, hothers⟩ := h.reaped hcont
      refine h.setCont (by simp [Cont.holds]) (fun _ hl => absurd hl (h.notMem hcont trivial))
        (by simp) fun y j hj => ?_
      cases hj
      refine ⟨hz, hparent, fun j hj => ?_⟩
      rcases Nat.lt_succ_iff_lt_or_eq.mp hj with hlt | rfl
      · exact hothers j hlt
      · exact hcurrent
    · exact h.free hcont
  | begun =>
    have hreset : Still w { w with
        parked := []
        ownerTask := some t
        barrierSeq := w.barrierSeq + 1 } := still_of_tasks rfl
    refine (h.still hreset fun {p x} hx _ => ?_).goes hcont trivial (by simp [Cont.holds]) trivial
    cases p with
    | parked => cases hx
    | _ => exact hx
  | polling i =>
    dsimp only
    split_ifs
    · exact hnext hcont hself hquiet trivial (fun _ hx => hx) trivial
    · exact hnext hcont hself hquiet trivial (fun _ hx => hx) trivial
    · exact hnext hcont hself hquiet trivial (fun _ hx => hx) trivial
  | ending seq ts =>
    refine hnext hcont (still_of_tasks rfl) ?_ trivial (fun _ hx => hx) trivial
    exact ⟨⟨calm_of_tasks rfl, rfl, rfl, rfl⟩, rfl, rfl, rfl⟩
  | releasing seq ts =>
    cases ts with
    | nil => exact hnext hcont hself hquiet trivial (fun _ hx => hx) trivial
    | cons x xs =>
      have hx : w.state x ≠ some .zombie := h.held (t := t) (by simp [hcont, Cont.holds])
      have hready : Graves (w.setState x .ready) :=
        h.quiet (still_setState (by decide) hx) (quiet_setState (by decide))
      have hcont' : (w.setState x .ready).cont t = .releasing seq (x :: xs) := hcont
      exact hready.wakes hcont' rfl trivial trivial

lemma Graves.link (h : Graves w) (hcont : w.cont t = .linked l) (hfree : t ∉ w.waiters l)
    (hs : w.state t ≠ some .zombie) (hstarted : t < w.nextTaskId ∧ ∀ s, w.cont s ≠ .creating t) :
    Graves (w.setWaiters l (t :: w.waiters l)) := by
  have hmem : ∀ {l' x}, x ∈ (w.setWaiters l (t :: w.waiters l)).waiters l' →
      x = t ∧ l' = l ∨ x ∈ w.waiters l' := by
    intro l' x hx
    by_cases hl : l' = l
    · subst hl
      rw [setWaiters_self] at hx
      exact (mem_cons.mp hx).imp_left fun hxt => ⟨hxt, rfl⟩
    · rw [setWaiters_of_ne _ hl] at hx
      exact .inr hx
  refine ⟨fun {p x} hx hz => ?_, h.mortal, fun {l' x} hx => ?_, fun {l' x} hx => ?_, fun l' => ?_,
    fun {l' x} hx => ?_, h.reaped⟩
  · rw [places_setWaiters] at hx
    exact h.zombies hx hz
  · rcases hmem hx with ⟨rfl, -⟩ | hold
    · exact hs
    · exact h.unlinked hold
  · rcases hmem hx with ⟨rfl, rfl⟩ | hold
    · exact .inl hcont
    · exact h.linked hold
  · by_cases hl : l' = l
    · subst hl
      rw [setWaiters_self]
      exact nodup_cons.mpr ⟨hfree, h.once l'⟩
    · rw [setWaiters_of_ne _ hl]
      exact h.once l'
  · rcases hmem hx with ⟨rfl, -⟩ | hold
    · exact hstarted
    · exact h.started hold

lemma Graves.block {timeoutNs : ℕ} (hp : Placed w) (h : Graves w) (ht : executing w c = some t)
    (hcont : w.cont t = .user) (hs : w.state t ≠ some .zombie) :
    Graves (blockOnChannel w t l timeoutNs) := by
  have hmem := mem_places_of_executing ht
  have hbegun : Graves (w.setCont t (.linked l)) :=
    h.goes hcont trivial (by simp [Cont.holds]) trivial
  have hlinked : Graves ((w.setCont t (.linked l)).setWaiters l (t :: w.waiters l)) := by
    refine hbegun.link (setCont_self ..) (h.notMem hcont trivial) hs ⟨hp.bounded hmem, fun s hs => ?_⟩
    have hst : s ≠ t := by
      rintro rfl
      exact Cont.noConfusion ((setCont_self ..).symm.trans hs)
    rw [setCont_of_ne _ hst] at hs
    have hheld : t ∈ places w (.kernel s) := by simp [places, hs, Cont.holds]
    cases hp.separate.apart hheld hmem
  refine hlinked.still (still_modify (fun _ => rfl) fun task htask => ?_)
    fun {p x} hx _ => by cases p <;> exact hx
  refine iff_of_false (by simp) fun hz => hs ?_
  change w.tasks t = some task at htask
  rw [World.state, htask, map_some, hz]

lemma Graves.create (h : Graves w) (hcont : w.cont t = .user) (kernel : Bool) :
    Graves (createTask w t kernel) := by
  rw [createTask]
  split_ifs
  · exact h
  have hadded : Graves { w with
      tasks := update w.tasks w.nextTaskId (some (newTask t kernel))
      nextTaskId := w.nextTaskId + 1
      taskCount := w.taskCount + 1 } :=
    h.replace w.nextTaskId (fun y hy => update_of_ne hy ..)
      (by simp [World.state, newTask]) (Nat.le_succ _) (funext fun p => by cases p <;> rfl)
      rfl rfl rfl rfl fun r i hr => (h.mortal (h.reaped hr).1).1.ne rfl
  refine hadded.setCont (fun x hx => ?_) (fun l hl => ?_) (fun x l hx hl => ?_) (by simp)
  · obtain rfl := mem_singleton.mp hx
    simp [World.state, newTask]
  · exact absurd hl (h.notMem hcont trivial)
  · exact (h.started hl).1.ne (Cont.creating.inj hx).symm

lemma still_foldl_ready (ts : List TaskId) (w : World) (hts : ∀ t ∈ ts, w.state t ≠ some .zombie) :
    Still w (ts.foldl (fun w t => w.setState t .ready) w) := by
  induction ts generalizing w with
  | nil => exact Still.refl w
  | cons t ts ih =>
    have hready : Still w (w.setState t .ready) := still_setState (by decide) (hts t mem_cons_self)
    refine hready.trans (ih _ fun s hs hz => ?_)
    exact hts s (mem_cons_of_mem t hs) ((hready.zombie s).mp hz)

lemma Graves.refill (h : Graves w) : Graves (runqRefillStarved w c) := by
  have hstarved : ∀ {x}, x ∈ w.starved c → w.state x ≠ some .zombie :=
    fun hx => h.offCpu (q := .starved c) nofun hx
  have hquiet := quiet_foldl_ready (w.starved c)
    ((w.setReady c (w.ready c ++ w.starved c)).setStarved c [])
  have hspliced : Still w ((w.setReady c (w.ready c ++ w.starved c)).setStarved c []) :=
    still_of_tasks rfl
  refine h.still (hspliced.trans (still_foldl_ready _ _ fun t ht => hstarved ht))
    fun {p x} hx hz => ?_
  rw [runqRefillStarved, hquiet.places] at hx
  by_cases hp : p = .starved c
  · subst hp
    rw [places_setStarved_self] at hx
    cases hx
  rw [places_setStarved_of_ne _ hp] at hx
  by_cases hp' : p = .ready c
  · subst hp'
    rw [places_setReady_self] at hx
    rcases mem_append.mp hx with hx | hx
    · exact hx
    · exact absurd hz (hstarved hx)
  · rwa [places_setReady_of_ne _ hp'] at hx

lemma callStep_graves (hp : Placed w) (h : Graves w) (ht : executing w c = some t) {call : Call}
    (hop : Careful w (.call c call)) : Graves (callStep w t call) := by
  have hmem := mem_places_of_executing ht
  have hearly : early (w.pc c) := by rw [(executing_eq ht).1]; trivial
  -- the task goes from user code to a point where it holds no zombie
  have hnext : ∀ {w' : World} {cont : Cont}, w.cont t = .user → Still w w' → Quiet w w' →
      (∀ x ∈ cont.holds, w'.state x ≠ some .zombie) → plain cont → Graves (w'.setCont t cont) :=
    fun hcont hs hq hholds hplain =>
      (h.quiet hs hq).goes ((congrFun hs.cont t).trans hcont) trivial hholds hplain
  have hwoken : ∀ {w' : World} {x : TaskId}, w'.state x = some .ready →
      w'.state x ≠ some .zombie := fun hready hz => by
    rw [hready] at hz
    cases hz
  cases call with
  | block l timeoutNs =>
    rw [callStep]
    split_ifs with hcont
    · exact h.block hp ht hcont (hop.2 t ht)
    · exact h
  | wakeOne l r =>
    rw [callStep]
    split_ifs with hcont
    · refine hnext hcont (wakes_still.wakeOne r) (wakes_quiet.wakeOne r) (fun x hx => ?_) trivial
      exact hwoken (wakeOne_woken (mem_toList.mp hx)).2.2
    · exact h
  | wakeAll l r =>
    rw [callStep]
    split_ifs with hcont
    · have hall := wakeAll_spec w l r
      refine hnext hcont (wakes_still.wakeAll r) hall.quiet (fun x hx => ?_) trivial
      exact hwoken ((hall.state x).trans (if_pos hx))
    · exact h
  | kill target =>
    rw [callStep]
    split_ifs with hguard
    · refine hnext hguard.1 (wakes_still.retire _) (wakes_quiet.retire _) (fun x hx => ?_) trivial
      obtain ⟨l, ts, -, -, -, hready⟩ := retire_woken (mem_toList.mp hx)
      exact hwoken hready
    · exact h
  | signal target sig =>
    rw [callStep]
    split_ifs with hguard
    · have hnot : ¬ (w.modify target fun task => { task with
          pendingSignals := update task.pendingSignals sig true }).state target =
            some .blocked := by
        rw [state_modify fun _ => by rfl]
        exact hop.1.2 (by rw [ht]; rfl)
      rw [if_neg hnot]
      exact h.modify (fun _ => rfl) fun _ => rfl
    · exact h
  | setHandler sig handler =>
    rw [callStep]
    split_ifs
    · exact h.modify (fun _ => rfl) fun _ => rfl
    · exact h
  | exit status =>
    rw [callStep]
    split_ifs with hguard
    · have hquiet : Quiet w (orphanChildren (w.modify t fun task =>
          { task with exitStatus := status }) t) :=
        (quiet_exitStatus status).trans quiet_orphanChildren
      have horphaned := h.quiet ((still_exitStatus status).trans still_orphanChildren) hquiet
      refine Graves.goes (horphaned.kill (hp.quiet hquiet) ?_ hearly fun l hl => ?_)
        hguard.1 trivial (by simp [Cont.holds]) trivial
      · rw [hquiet.places]
        exact hmem
      · exact h.notMem hguard.1 trivial hl
    · exact h
  | crash status =>
    rw [callStep]
    split_ifs with hcont
    · refine hnext hcont (wakes_still.retire status) (wakes_quiet.retire status) (fun x hx => ?_)
        trivial
      obtain ⟨l, ts, -, -, -, hready⟩ := retire_woken (mem_toList.mp hx)
      exact hwoken hready
    · exact h
  | create kernel =>
    rw [callStep]
    split_ifs with hcont
    · exact h.create hcont kernel
    · exact h
  | createFails kernel =>
    rw [callStep]
    cases hcont : w.cont t with
    | creating child =>
      have hdone : Graves (w.setCont t .user) := h.goes hcont trivial (by simp [Cont.holds]) trivial
      split_ifs
      · have hheld : child ∈ places w (.kernel t) := by simp [places, hcont, Cont.holds]
        exact hdone.drops hp hheld rfl rfl (fun l hl => (h.started hl).2 t hcont)
          (places_setCont_self _) fun p hne => places_setCont_of_ne _ hne
      · exact hdone
    | _ => exact h
  | reap child =>
    rw [callStep]
    split_ifs with hguard
    · refine h.setCont (by simp [Cont.holds])
        (fun _ hl => absurd hl (h.notMem hguard.1 trivial)) (by simp) fun x i hx => ?_
      cases hx
      exact ⟨hguard.2.2, hguard.2.1, fun j hj => absurd hj (Nat.not_lt_zero j)⟩
    · exact h
  | refill cpu =>
    rw [callStep]
    split_ifs
    · exact h.refill
    · exact h
  | beginBarrier =>
    rw [callStep]
    split_ifs with hguard
    · refine hnext hguard.1 (still_of_tasks rfl) ?_ (by simp [Cont.holds]) trivial
      exact ⟨⟨calm_of_tasks rfl, rfl, rfl, rfl⟩, rfl, rfl, rfl⟩
    · exact h
  | barrierTimeout =>
    rw [callStep]
    cases hcont : w.cont t with
    | polling i =>
      have hcleared : Still w { w with barrierFlag := false } := still_of_tasks rfl
      refine Graves.goes (h.quiet hcleared ?_) hcont trivial (by simp [Cont.holds]) trivial
      exact ⟨⟨calm_of_tasks rfl, rfl, rfl, rfl⟩, rfl, rfl, rfl⟩
    | _ => exact h
  | endBarrier =>
    rw [callStep]
    split_ifs with hcont
    · have htaken : Still w { w with parked := [], ownerTask := none } := still_of_tasks rfl
      refine Graves.goes (h.still htaken fun {p x} hx _ => ?_) hcont trivial
        (fun _ hx => (h.offCpu (q := .parked) (by simp) hx :)) trivial
      cases p with
      | parked => cases hx
      | _ => exact hx
    · exact h

end Steps

/-- Every careful step keeps the zombies where nobody finds them. -/
theorem step_graves (w : World) (op : Op) (hp : Placed w) (h : Graves w) (hop : Careful w op) :
    Graves (step w op) := by
  cases op with
  | tick =>
    refine h.still (still_of_tasks rfl) fun {p x} hx _ => ?_
    cases p <;> exact hx
  | enter c =>
    rw [step]
    split_ifs with hin
    · rw [enter]
      refine Graves.setPc (h.setCont (fun x hx => h.held (t := w.current c) ?_) (fun l hl => ?_)
        (fun x l hx hl => ?_) fun x i hx => ?_) fun _ _ _ => ?_
      · cases hcont : w.cont (w.current c) <;> rw [hcont] at hx <;> exact hx
      · rcases h.linked hl with hc | hc
        · exact .inr (by rw [hc]; rfl)
        · exact .inr (by rw [hc]; rfl)
      · cases hcont : w.cont (w.current c) <;> rw [hcont] at hx <;> cases hx
        exact (h.started hl).2 _ hcont
      · cases hcont : w.cont (w.current c) <;> rw [hcont] at hx <;> cases hx
        exact h.reaped hcont
      · split_ifs <;> trivial
    · exact h
  | schedule c choice => exact scheduleStep_graves hp h hop
  | «continue» c =>
    rw [step]
    cases ht : executing w c with
    | none => exact h
    | some t => exact contStep_graves hp h ht hop
  | call c call =>
    rw [step]
    cases ht : executing w c with
    | none => exact h
    | some t => exact callStep_graves hp h ht hop

lemma graves_boot (n : ℕ) : Graves (boot n) := by
  have hnone : ∀ {x}, (boot n).state x ≠ some .zombie := by
    intro x hx
    simp only [World.state, boot] at hx
    split_ifs at hx
    · cases hx
    · cases hx
    · cases hx
  exact ⟨fun _ hz => absurd hz hnone, fun hz => absurd hz hnone, fun _ => hnone,
    fun hx => absurd hx not_mem_nil, fun _ => nodup_nil,
    fun hx => absurd hx not_mem_nil, fun hr => Cont.noConfusion hr⟩

/-- The task that a step frees is one that `sched_reap_zombie` has looked for on every CPU. -/
lemma reaping_of_frees {w : World} {op : Op} {x : TaskId} (h : WakeUps.frees w op = some x) :
    ∃ t i, w.cont t = .reaping x i ∧ w.cpuCount ≤ i := by
  cases op with
  | «continue» c =>
    rw [WakeUps.frees, bind_eq_some_iff] at h
    obtain ⟨t, -, h⟩ := h
    cases hcont : w.cont t with
    | reaping y i =>
      rw [hcont] at h
      dsimp only at h
      split_ifs at h with hi
      cases h
      exact ⟨t, i, hcont, not_lt.mp hi⟩
    | _ => rw [hcont] at h; cases h
  | _ => cases h

/-- In every state that is reached, a step that frees a task frees one that is on no queue of ready
tasks and no list of starved or waiting ones, that no CPU executes, and that is in nobody's
hands. -/
theorem freed_task_is_nowhere (n : ℕ) {ops : List Op} (hops : Guarded step Careful (boot n) ops)
    {op : Op} {x : TaskId} (hx : WakeUps.frees (run step (boot n) ops) op = some x) :
    (∀ c, x ∉ (run step (boot n) ops).ready c) ∧
    (∀ c, x ∉ (run step (boot n) ops).starved c) ∧
    (∀ l, x ∉ (run step (boot n) ops).waiters l) ∧
    (∀ c < (run step (boot n) ops).cpuCount, (run step (boot n) ops).current c ≠ x) ∧
    ∀ p, x ∉ places (run step (boot n) ops) p := by
  obtain ⟨hplaced, hgraves⟩ : Placed (run step (boot n) ops) ∧ Graves (run step (boot n) ops) := by
    refine invariant_run (fun w => Placed w ∧ Graves w) (fun w op h hop => ?_)
      ⟨placed_boot n, graves_boot n⟩ hops
    exact ⟨step_placed w op h.1 hop.1, step_graves w op h.1 h.2 hop⟩
  generalize run step (boot n) ops = w at hplaced hgraves hx ⊢
  obtain ⟨t, i, hcont, hi⟩ := reaping_of_frees hx
  obtain ⟨hz, -, hcurrent⟩ := hgraves.reaped hcont
  have hnot : ∀ c < w.cpuCount, w.current c ≠ x := fun c hc => hcurrent c (hc.trans_le hi)
  have hnowhere : ∀ p, x ∉ places w p := by
    intro p hp
    obtain ⟨c, rfl, hearly⟩ := hgraves.zombies hp hz
    -- a CPU that has not looked at the state holds its current task only
    have hheld : x ∈ other (w.idleTask c) (w.current c) := by
      have hp' : x ∈ (w.pc c).holds (w.current c) (w.idleTask c) := hp
      generalize w.pc c = pc at hp' hearly
      cases pc <;> first | exact hp' | exact hearly.elim
    by_cases hc : c < w.cpuCount
    · exact hnot c hc (mem_other hheld).symm
    · rw [(hplaced.outside c (not_lt.mp hc)).2, other, if_pos rfl] at hheld
      cases hheld
  exact ⟨fun c => hnowhere (.ready c), fun c => hnowhere (.starved c),
    fun l hl => hgraves.unlinked hl hz, hnot, hnowhere⟩

/-- The step may make a task a zombie from outside, or puts one on a list. -/
def strikes (w : World) : Op → Bool
  | .schedule c _ => w.pc c = .notify none
  | .continue c => (executing w c).any fun t =>
    match w.cont t with
    | .killing _ none => true
    | _ => false
  | .call _ (.block _ _) => true
  | _ => false

lemma careful_of_not_strikes {w : World} {op : Op} (h : Wired w) (hop : SwitchedHere w op)
    (hstrike : strikes w op = false) : Careful w op := by
  refine ⟨switched_of_here h hop, ?_⟩
  cases op with
  | schedule c choice => exact fun hpc => absurd hpc (of_decide_eq_false hstrike)
  | «continue» c =>
    intro t target ht hcont
    simp [strikes, ht, hcont] at hstrike
  | call c call =>
    cases call with
    | block l timeoutNs => cases hstrike
    | _ => trivial
  | _ => trivial

/-- The first task creates a second one, which exits; the first is about to free it. -/
def exitOps : List Op :=
  reschedule 0 ++ spawn 0 ++ reschedule 0 ++ [.call 0 (.exit 0), .continue 0, .continue 0] ++
    reschedule 0 ++ [.call 0 (.reap 2), .continue 0]

/-- The task that exited is freed, and is nowhere. -/
theorem exited_task_is_nowhere :
    Guarded step Careful (boot 1) exitOps ∧
    WakeUps.frees (run step (boot 1) exitOps) (.continue 0) = some 2 ∧
    (∀ c, 2 ∉ (run step (boot 1) exitOps).ready c) ∧
    ∀ p, 2 ∉ places (run step (boot 1) exitOps) p := by
  have hquiet : Guarded step (fun w op => SwitchedHere w op ∧ strikes w op = false) (boot 1)
      exitOps := by decide +kernel
  have hops : Guarded step Careful (boot 1) exitOps :=
    guarded_of_invariant Wired (fun _ op h _ => step_wired h op)
      (fun _ _ h hop => careful_of_not_strikes h hop.1 hop.2) (placed_boot 1).toWired hquiet
  have hfrees : WakeUps.frees (run step (boot 1) exitOps) (.continue 0) = some 2 := by
    decide +kernel
  have hnowhere := freed_task_is_nowhere 1 hops hfrees
  exact ⟨hops, hfrees, hnowhere.1, hnowhere.2.2.2.2⟩

/-- The first task creates a second one, and kills it before it has run; the first is about to free
it. -/
def killOps : List Op :=
  reschedule 0 ++ spawn 0 ++ [.call 0 (.kill 2), .continue 0, .call 0 (.reap 2), .continue 0]

/-- The task that was killed is freed while it is on a queue of ready tasks. -/
theorem killed_task_is_on_queue :
    WakeUps.frees (run step (boot 1) killOps) (.continue 0) = some 2 ∧
    2 ∈ (run step (boot 1) killOps).ready 0 ∧
    2 ∈ (step (run step (boot 1) killOps) (.continue 0)).ready 0 ∧
    (step (run step (boot 1) killOps) (.continue 0)).tasks 2 = none := by
  refine ⟨by decide +kernel, by decide +kernel, by decide +kernel, ?_⟩
  exact Option.map_eq_none_iff.mp
    (by decide +kernel : (step (run step (boot 1) killOps) (.continue 0)).state 2 = none)

end GrahaOS.Scheduler.Reaping
