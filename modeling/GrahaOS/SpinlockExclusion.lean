import GrahaOS.Spinlock

/-!
# Mutual exclusion of spinlocks

The lock keeps one task inside as long as the CPU number that a task has read is still the number of
its CPU when it uses it. A task that is resumed on another CPU between the read and the `cli` takes
the lock of another task for its own, or enters its old CPU as the owner.

The invariant names the holder, the task that has set `locked` and not cleared it. What holds of
every other task does not mention the lock, so that a step concerns one task.
-/

namespace GrahaOS.Spinlock

open Runs Machine Option

/-- The CPU number in the register of a running task is the number of its CPU. -/
def Fresh (x : Task) : Prop := ∀ c k, x.cpu = some c → x.pc.cpuId = some k → k = c

/-- What holds at the points of the code where a task has not set `locked`, or has cleared it. -/
def OutsideAt (x : Task) : Pc → Prop
  | .idle | .readLocked _ _ | .readOwner _ _ | .pushFlags _ _ | .panicked .budgetExceeded => True
  | .disable _ _ flags => flags = x.saved
  | .testAndSet _ _ flags | .spin _ _ flags => flags = x.saved ∧ x.enabled = false
  | .giveUp _ => x.enabled = false
  | .relRestore flags => flags = x.saved ∧ x.enabled = false ∧ x.cpu ≠ none
  | _ => False

structure Outside (x : Task) : Prop where
  depth : x.depth = 0
  at_pc : OutsideAt x x.pc

/-- The lock as it is while its owner, on CPU `c`, is inside. -/
structure Held (l : Lock) (depth : ℕ) (saved : Bool) (c : CpuId) : Prop where
  owner : l.owner = some c
  state : l.interruptState = saved
  count : l.count = depth % countRange
  inside : 0 < depth
  bound : depth ≤ countRange

/-- What holds at the points of the code where a task on CPU `c` has set `locked`. -/
def InsideAt (l : Lock) (x : Task) (c : CpuId) : Pc → Prop
  | .storeState _ flags => x.depth = 0 ∧ l.owner = none ∧ flags = x.saved
  | .storeOwner _ => x.depth = 0 ∧ l.owner = none ∧ l.interruptState = x.saved
  | .storeCount => x.depth = 0 ∧ l.owner = some c ∧ l.interruptState = x.saved
  | .idle | .relReadLocked _ | .relReadOwner _ | .relReadCount => Held l x.depth x.saved c
  | .readLocked _ _ | .readOwner _ _ | .readCount => Held l x.depth x.saved c ∧ x.depth < countRange
  | .writeCount n => Held l x.depth x.saved c ∧ x.depth < countRange ∧ n = (x.depth + 1) % countRange
  | .relWriteCount n => Held l x.depth x.saved c ∧ n = x.depth - 1
  | .relReadState => x.depth = 1 ∧ l.owner = some c ∧ l.interruptState = x.saved
  | .relClearOwner flags => x.depth = 1 ∧ l.owner = some c ∧ flags = x.saved
  | .relClearState flags | .relUnlock flags => x.depth = 1 ∧ l.owner = none ∧ flags = x.saved
  | _ => False

structure Inside (l : Lock) (x : Task) (c : CpuId) : Prop where
  enabled : x.enabled = false
  cpu : x.cpu = some c
  at_pc : InsideAt l x c x.pc

/-- The invariant, with the task that has set `locked`. -/
structure SoundFor (m : Machine) (holder : Option TaskId) : Prop where
  places : ∀ t c, (m.tasks t).cpu = some c ↔ m.current c = some t
  fresh : ∀ t, Fresh (m.tasks t)
  locked : m.lock.locked = holder.isSome
  unowned : holder = none → m.lock.owner = none
  outside : ∀ t, holder ≠ some t → Outside (m.tasks t)
  inside : ∀ t, holder = some t → ∃ c, Inside m.lock (m.tasks t) c

section Task

variable {l : Lock} {x : Task} {c : CpuId} {pc : Pc}

lemma Outside.at_eq (hx : Outside x) (hpc : x.pc = pc) : OutsideAt x pc := hpc ▸ hx.at_pc

lemma Inside.at_eq (hx : Inside l x c) (hpc : x.pc = pc) : InsideAt l x c pc := hpc ▸ hx.at_pc

lemma InsideAt.owner_cases (h : InsideAt l x c pc) : l.owner = none ∨ l.owner = some c := by
  cases pc with
  | idle | relReadLocked k | relReadOwner k | relReadCount => exact .inr (Held.owner h)
  | readLocked timed k | readOwner timed k | readCount | writeCount n | relWriteCount n =>
    exact .inr h.1.owner
  | storeState k flags | storeOwner k | relClearState flags | relUnlock flags => exact .inl h.2.1
  | storeCount => exact .inr h.2.1
  | relReadState => exact .inr h.2.1
  | relClearOwner flags => exact .inr h.2.1
  | pushFlags | disable | testAndSet | spin | giveUp | relRestore | panicked => exact h.elim

lemma microstep_cpu : (microstep l x).2.cpu = x.cpu := by
  rw [microstep]
  cases x.pc <;> dsimp only <;> split_ifs <;> rfl

variable {a : Act}

lemma act_cpu : (act l x c a).2.cpu = x.cpu := by
  cases a with
  | advance => exact microstep_cpu
  | overrun =>
    rw [act, overrun]
    split <;> rfl
  | setFlag | acquire | release =>
    rw [act]
    split_ifs <;> rfl

/-- No access to the lock changes the CPU number in the register. -/
lemma microstep_cpuId {k : CpuId} (h : (microstep l x).2.pc.cpuId = some k) :
    x.pc.cpuId = some k := by
  rw [microstep] at h
  cases hpc : x.pc <;> rw [hpc] at h <;> dsimp only at h <;> (try split_ifs at h) <;>
    first | exact h | cases h | (rw [hpc] at h; exact h)

lemma fresh_act (hcpu : x.cpu = some c) (hx : Fresh x) : Fresh (act l x c a).2 := by
  intro d k hd hk
  rw [act_cpu] at hd
  have hdc : d = c := mem_unique hd hcpu
  subst hdc
  have hold := hx d k hcpu
  cases a with
  | advance => exact hold (microstep_cpuId hk)
  | overrun =>
    rw [act, overrun] at hk
    dsimp only at hk
    split at hk
    · cases hk
    · cases hk
    · exact hold hk
  | setFlag enabled =>
    rw [act] at hk
    dsimp only at hk
    split_ifs at hk <;> exact hold hk
  | acquire timed | release =>
    rw [act] at hk
    dsimp only at hk
    split_ifs at hk
    · exact (some.inj hk).symm
    · exact hold hk

/-- A step of a task that has not set `locked`: it leaves the lock as it is, or it sets `locked`
where no task has. The owner of the lock is on another CPU, so the task does not take it for
itself. -/
lemma microstep_outside (hx : Outside x) (hcpu : x.cpu = some c) (hfresh : Fresh x)
    (howner : l.owner ≠ some c) (hfree : l.locked = false → l.owner = none) :
    ((microstep l x).1 = l ∧ Outside (microstep l x).2) ∨
      (l.locked = false ∧ (microstep l x).1.locked = true ∧
        Inside (microstep l x).1 (microstep l x).2 c) := by
  obtain ⟨hdepth, hat⟩ := hx
  rw [microstep]
  have hk := hfresh c
  generalize hpc : x.pc = pc at hat ⊢
  cases pc with
  | idle => exact .inl ⟨rfl, hdepth, by rw [hpc]; trivial⟩
  | readLocked timed k =>
    refine .inl ⟨rfl, hdepth, ?_⟩
    split_ifs <;> trivial
  | readOwner timed k =>
    have hkc : k = c := hk k hcpu (by rw [hpc]; rfl)
    refine .inl ⟨rfl, hdepth, ?_⟩
    dsimp only
    rw [hkc, if_neg howner]
    trivial
  | pushFlags timed k =>
    refine .inl ⟨rfl, hdepth, ?_⟩
    rw [if_pos hdepth]
    exact rfl
  | disable timed k flags =>
    exact .inl ⟨rfl, hdepth, hat, rfl⟩
  | testAndSet timed k flags =>
    cases hl : l.locked with
    | true => exact .inl ⟨rfl, hdepth, hat⟩
    | false => exact .inr ⟨rfl, rfl, hat.2, hcpu, hdepth, hfree hl, hat.1⟩
  | spin timed k flags =>
    cases hl : l.locked with
    | true => exact .inl ⟨rfl, hdepth, hpc.symm ▸ hat⟩
    | false => exact .inr ⟨rfl, rfl, hat.2, hcpu, hdepth, hfree hl, hat.1⟩
  | giveUp flags => exact .inl ⟨rfl, hdepth, trivial⟩
  | relRestore flags => exact .inl ⟨rfl, hdepth, trivial⟩
  | panicked reason => exact .inl ⟨rfl, hdepth, hpc.symm ▸ hat⟩
  | readCount | writeCount | storeState | storeOwner | storeCount | relReadLocked | relReadOwner
  | relReadCount | relWriteCount | relReadState | relClearOwner | relClearState | relUnlock =>
    exact hat.elim

lemma Held.pred (h : Held l x.depth x.saved c) :
    (l.count + countRange - 1) % countRange = x.depth - 1 := by
  have hpos := h.inside
  have hbound := h.bound
  rw [h.count]
  unfold countRange at *
  omega

/-- A step of the task that has set `locked`: it stays inside, or it clears `locked` and goes on to
restore the flag that it saved. -/
lemma microstep_inside (hx : Inside l x c) (hl : l.locked = true) (hfresh : Fresh x) :
    ((microstep l x).1.locked = true ∧ Inside (microstep l x).1 (microstep l x).2 c ∧
        (0 < x.depth → 0 < (microstep l x).2.depth)) ∨
      ((microstep l x).1.locked = false ∧ (microstep l x).1.owner = none ∧
        Outside (microstep l x).2 ∧ (microstep l x).2.pc = .relRestore x.saved) := by
  obtain ⟨henabled, hcpu, hat⟩ := hx
  rw [microstep]
  have hk := hfresh c
  generalize hpc : x.pc = pc at hat ⊢
  cases pc with
  | idle => exact .inl ⟨hl, ⟨henabled, hcpu, hpc.symm ▸ hat⟩, id⟩
  | readLocked timed k | relReadLocked k =>
    dsimp only
    rw [if_pos hl]
    exact .inl ⟨hl, ⟨henabled, hcpu, hat⟩, id⟩
  | readOwner timed k =>
    have hkc : k = c := hk k hcpu (by rw [hpc]; rfl)
    dsimp only
    rw [hkc, if_pos hat.1.owner]
    exact .inl ⟨hl, ⟨henabled, hcpu, hat⟩, id⟩
  | readCount =>
    have hn : (l.count + 1) % countRange = (x.depth + 1) % countRange := by
      rw [hat.1.count, Nat.mod_add_mod]
    exact .inl ⟨hl, ⟨henabled, hcpu, hat.1, hat.2, hn⟩, id⟩
  | writeCount n =>
    obtain ⟨hheld, hroom, hn⟩ := hat
    exact .inl ⟨hl, ⟨henabled, hcpu, hheld.owner, hheld.state, hn, Nat.succ_pos _, hroom⟩,
      fun _ => Nat.succ_pos _⟩
  | storeState k flags | relReadState | relClearState flags =>
    exact .inl ⟨hl, ⟨henabled, hcpu, hat⟩, id⟩
  | storeOwner k =>
    have hkc : k = c := hk k hcpu (by rw [hpc]; rfl)
    exact .inl ⟨hl, ⟨henabled, hcpu, hat.1, congrArg some hkc, hat.2.2⟩, id⟩
  | storeCount =>
    obtain ⟨hdepth, howner, hstate⟩ := hat
    refine .inl ⟨hl, ⟨henabled, hcpu, howner, hstate, ?_, Nat.succ_pos _, ?_⟩,
      fun _ => Nat.succ_pos _⟩
    · show 1 = (x.depth + 1) % countRange
      rw [hdepth]
      decide
    · show x.depth + 1 ≤ countRange
      rw [hdepth]
      decide
  | relReadOwner k =>
    have hkc : k = c := hk k hcpu (by rw [hpc]; rfl)
    dsimp only
    rw [hkc, if_pos (Held.owner hat)]
    exact .inl ⟨hl, ⟨henabled, hcpu, hat⟩, id⟩
  | relReadCount =>
    exact .inl ⟨hl, ⟨henabled, hcpu, hat, Held.pred hat⟩, id⟩
  | relWriteCount n =>
    obtain ⟨hheld, hn⟩ := hat
    have hpos := hheld.inside
    have hbound := hheld.bound
    dsimp only
    by_cases hlast : 0 < n
    · rw [if_pos hlast]
      have hcount : n = (x.depth - 1) % countRange := by
        rw [Nat.mod_eq_of_lt (by omega)]
        exact hn
      exact .inl ⟨hl, ⟨henabled, hcpu, hheld.owner, hheld.state, hcount,
        show 0 < x.depth - 1 by omega, show x.depth - 1 ≤ countRange by omega⟩,
        fun _ => show 0 < x.depth - 1 by omega⟩
    · rw [if_neg hlast]
      exact .inl ⟨hl, ⟨henabled, hcpu, show x.depth = 1 by omega, hheld.owner, hheld.state⟩, id⟩
  | relClearOwner flags =>
    exact .inl ⟨hl, ⟨henabled, hcpu, hat.1, rfl, hat.2.2⟩, id⟩
  | relUnlock flags =>
    obtain ⟨hdepth, howner, hflags⟩ := hat
    have hrunning : x.cpu ≠ none := hcpu ▸ some_ne_none c
    exact .inr ⟨rfl, howner, ⟨show x.depth - 1 = 0 by omega, hflags, henabled, hrunning⟩,
      congrArg Pc.relRestore hflags⟩
  | pushFlags | disable | testAndSet | spin | giveUp | relRestore | panicked => exact hat.elim

lemma Outside.setCpu (hx : Outside x) (hpc : ∀ flags, x.pc ≠ .relRestore flags)
    (cpu : Option CpuId) : Outside { x with cpu } := by
  refine ⟨hx.depth, ?_⟩
  cases h : x.pc with
  | relRestore flags => exact absurd h (hpc flags)
  | panicked reason =>
    have hat := hx.at_eq h
    cases reason with
    | budgetExceeded => exact hat
    | releaseOfUnheld | releaseFromNonOwner => exact hat.elim
  | _ => exact hx.at_eq h

/-- The condition under which an acquire does not wrap the count around. -/
def Act.FitsIn (x : Task) : Act → Prop
  | .acquire _ => x.depth < countRange
  | _ => True

lemma act_outside (hx : Outside x) (hcpu : x.cpu = some c) (hfresh : Fresh x)
    (howner : l.owner ≠ some c) (hfree : l.locked = false → l.owner = none) :
    ((act l x c a).1 = l ∧ Outside (act l x c a).2) ∨
      (l.locked = false ∧ (act l x c a).1.locked = true ∧
        Inside (act l x c a).1 (act l x c a).2 c) := by
  cases a with
  | advance => exact microstep_outside hx hcpu hfresh howner hfree
  | setFlag enabled =>
    refine .inl ⟨rfl, ?_⟩
    rw [act]
    split_ifs with hidle
    · exact ⟨hx.depth, by rw [hidle.1]; trivial⟩
    · exact hx
  | acquire timed =>
    refine .inl ⟨rfl, ?_⟩
    rw [act]
    split_ifs
    · exact ⟨hx.depth, trivial⟩
    · exact hx
  | release =>
    refine .inl ⟨rfl, ?_⟩
    rw [act, if_neg (fun h => by have := hx.depth; omega)]
    exact hx
  | overrun =>
    refine .inl ⟨rfl, ?_⟩
    rw [act, overrun]
    split
    · rename_i hpc
      exact ⟨hx.depth, (hx.at_eq hpc).2⟩
    · exact ⟨hx.depth, trivial⟩
    · exact hx

lemma act_inside (hx : Inside l x c) (hl : l.locked = true) (hfresh : Fresh x) (hop : a.FitsIn x) :
    ((act l x c a).1.locked = true ∧ Inside (act l x c a).1 (act l x c a).2 c) ∨
      ((act l x c a).1.locked = false ∧ (act l x c a).1.owner = none ∧
        Outside (act l x c a).2) := by
  have hidle : x.pc = .idle → Held l x.depth x.saved c := hx.at_eq
  cases a with
  | advance =>
    rcases microstep_inside hx hl hfresh with ⟨hlock, hin, -⟩ | ⟨hlock, howner, hout, -⟩
    · exact .inl ⟨hlock, hin⟩
    · exact .inr ⟨hlock, howner, hout⟩
  | setFlag enabled =>
    have hstays : ¬ (x.pc = .idle ∧ x.depth = 0) := by
      rintro ⟨hpc, hdepth⟩
      have := (hidle hpc).inside
      omega
    rw [act, if_neg hstays]
    exact .inl ⟨hl, hx⟩
  | acquire timed =>
    rw [act]
    split_ifs with hpc
    · exact .inl ⟨hl, hx.enabled, hx.cpu, hidle hpc, hop⟩
    · exact .inl ⟨hl, hx⟩
  | release =>
    rw [act]
    split_ifs with hpc
    · exact .inl ⟨hl, hx.enabled, hx.cpu, hidle hpc.1⟩
    · exact .inl ⟨hl, hx⟩
  | overrun =>
    have hstays : Spinlock.overrun x = x := by
      rw [overrun]
      split
      · rename_i hpc
        exact (hx.at_eq hpc).elim
      · rename_i hpc
        exact (hx.at_eq hpc).elim
      · rfl
    rw [act, hstays]
    exact .inl ⟨hl, hx⟩

end Task

section Machine

variable {m : Machine} {holder : Option TaskId} {t : TaskId} {c : CpuId}

/-- A task that is resumed between the read of its CPU number and its last use of it is resumed on
that CPU, and no acquire wraps the count around. -/
def Careful (m : Machine) : Op → Prop
  | .dispatch t c => ∀ k, (m.tasks t).pc.cpuId = some k → k = c
  | .preempt _ => True
  | .does t a => a.FitsIn (m.tasks t)

instance {x : Task} : (a : Act) → Decidable (a.FitsIn x)
  | .acquire _ => inferInstanceAs (Decidable (x.depth < countRange))
  | .setFlag _ | .release | .advance | .overrun => .isTrue trivial

instance {m : Machine} : (op : Op) → Decidable (Careful m op)
  | .dispatch t c =>
    match h : (m.tasks t).pc.cpuId with
    | none => .isTrue (fun k hk => by rw [h] at hk; cases hk)
    | some k => decidable_of_iff (k = c)
        ⟨fun hkc k' hk => by rw [h] at hk; cases hk; exact hkc, fun hall => hall k h⟩
  | .preempt _ => .isTrue trivial
  | .does t a => inferInstanceAs (Decidable (a.FitsIn (m.tasks t)))

variable (h : SoundFor m holder)
include h

lemma SoundFor.alone {s : TaskId} (ht : (m.tasks t).cpu = some c) (hs : (m.tasks s).cpu = some c)
    : s = t := by
  have hcurrent := (h.places t c).mp ht
  rw [(h.places s c).mp hs] at hcurrent
  exact some.inj hcurrent

lemma SoundFor.owner_ne (ht : holder ≠ some t) (hcpu : (m.tasks t).cpu = some c)
    : m.lock.owner ≠ some c := by
  intro howner
  cases holder with
  | none =>
    rw [h.unowned rfl] at howner
    cases howner
  | some s =>
    obtain ⟨d, hin⟩ := h.inside s rfl
    rcases hin.at_pc.owner_cases with hnone | hsome
    · rw [hnone] at howner
      cases howner
    · have hdc : d = c := mem_unique hsome howner
      subst hdc
      exact ht (congrArg some (h.alone hcpu hin.cpu))

lemma SoundFor.free (hl : m.lock.locked = false) : holder = none := by
  rw [h.locked] at hl
  exact not_isSome_iff_eq_none.mp (by rw [hl]; decide)

/-- One task changes, and the lock with it; what the other tasks rely on stays. -/
lemma SoundFor.update {x : Task} {l : Lock} {holder' : Option TaskId}
    (hcpu : x.cpu = (m.tasks t).cpu) (hfresh : Fresh x) (hlocked : l.locked = holder'.isSome)
    (hunowned : holder' = none → l.owner = none) (hout : holder' ≠ some t → Outside x)
    (hin : holder' = some t → ∃ c, Inside l x c)
    (hsame : ∀ s, s ≠ t → (holder' = some s ↔ holder = some s))
    (hlock : ∀ s, s ≠ t → holder' = some s → l = m.lock) :
    SoundFor { m.setTask t x with lock := l } holder' := by
  refine ⟨fun s d => ?_, fun s => ?_, hlocked, hunowned, fun s hs => ?_, fun s hs => ?_⟩ <;>
    by_cases hst : s = t
  · subst hst
    simpa [setTask, hcpu] using h.places s d
  · simpa [setTask, hst] using h.places s d
  · subst hst
    simpa [setTask] using hfresh
  · simpa [setTask, hst] using h.fresh s
  · subst hst
    simpa [setTask] using hout hs
  · simpa [setTask, hst] using h.outside s (fun hh => hs ((hsame s hst).mpr hh))
  · subst hst
    simpa [setTask] using hin hs
  · obtain ⟨d, hd⟩ := h.inside s ((hsame s hst).mp hs)
    refine ⟨d, ?_⟩
    simpa [setTask, hst, hlock s hst hs] using hd

lemma sound_act {a : Act} (hcpu : (m.tasks t).cpu = some c) (hop : a.FitsIn (m.tasks t)) :
    ∃ holder', SoundFor { m.setTask t (act m.lock (m.tasks t) c a).2 with
      lock := (act m.lock (m.tasks t) c a).1 } holder' := by
  have hfresh : Fresh (act m.lock (m.tasks t) c a).2 := fresh_act hcpu (h.fresh t)
  by_cases ht : holder = some t
  · -- the holder takes the step: no other task relies on the lock
    obtain ⟨d, hin⟩ := h.inside t ht
    have hdc : d = c := mem_unique hin.cpu hcpu
    subst hdc
    have hl : m.lock.locked = true := by rw [h.locked, ht]; rfl
    rcases act_inside hin hl (h.fresh t) hop with ⟨hlock, hin'⟩ | ⟨hlock, howner, hout⟩
    · refine ⟨some t, h.update act_cpu hfresh hlock (by simp) (fun hne => absurd rfl hne)
        (fun _ => ⟨d, hin'⟩) (fun s hs => by rw [ht]) (fun s hs hst => ?_)⟩
      exact absurd (some.inj hst).symm hs
    · refine ⟨none, h.update act_cpu hfresh hlock (fun _ => howner) (fun _ => hout) (by simp)
        (fun s hs => ?_) (by simp)⟩
      rw [ht]
      simp [Ne.symm hs]
  · have hfree : m.lock.locked = false → m.lock.owner = none := fun hl => h.unowned (h.free hl)
    rcases act_outside (h.outside t ht) hcpu (h.fresh t) (h.owner_ne ht hcpu) hfree with
      ⟨hlock, hout⟩ | ⟨hl, hlock, hin⟩
    · rw [hlock]
      exact ⟨holder, h.update act_cpu hfresh h.locked h.unowned (fun _ => hout)
        (fun hh => absurd hh ht) (fun s hs => Iff.rfl) (fun _ _ _ => rfl)⟩
    -- the task has set `locked`, which no task had
    have hnone := h.free hl
    refine ⟨some t, h.update act_cpu hfresh hlock (by simp) (fun hne => absurd rfl hne)
      (fun _ => ⟨c, hin⟩) (fun s hs => ?_) (fun s hs hst => ?_)⟩
    · rw [hnone]
      simp [Ne.symm hs]
    · exact absurd (some.inj hst).symm hs

/-- A task takes a free CPU or leaves the one that it has. -/
lemma SoundFor.place {place : Option CpuId} {who : Option TaskId} (ht : holder ≠ some t)
    (hpc : ∀ flags, (m.tasks t).pc ≠ .relRestore flags)
    (hfresh : Fresh { m.tasks t with cpu := place })
    (hwho : place = some c ∧ who = some t ∨ place = none ∧ who = none)
    (hcpu : ∀ d ≠ c, (m.tasks t).cpu ≠ some d) (hfree : ∀ s ≠ t, m.current c ≠ some s) :
    SoundFor ((m.setTask t { m.tasks t with cpu := place }).setCurrent c who) holder := by
  refine ⟨fun s d => ?_, fun s => ?_, h.locked, h.unowned, fun s hs => ?_, fun s hs => ?_⟩ <;>
    by_cases hst : s = t
  · subst hst
    have hplaces := h.places s d
    by_cases hdc : d = c
    · rcases hwho with ⟨rfl, rfl⟩ | ⟨rfl, rfl⟩ <;> simp [setTask, setCurrent, hdc]
    · rcases hwho with ⟨rfl, rfl⟩ | ⟨rfl, rfl⟩ <;>
        simp [setTask, setCurrent, hdc, ← hplaces, hcpu d hdc, Ne.symm hdc]
  · have hplaces := h.places s d
    by_cases hdc : d = c
    · subst hdc
      rcases hwho with ⟨rfl, rfl⟩ | ⟨rfl, rfl⟩ <;>
        simp [setTask, setCurrent, hst, hplaces, hfree s hst, Ne.symm hst]
    · simpa [setTask, setCurrent, hst, hdc] using hplaces
  · subst hst
    simpa [setTask, setCurrent] using hfresh
  · simpa [setTask, setCurrent, hst] using h.fresh s
  · subst hst
    simpa [setTask, setCurrent] using (h.outside s hs).setCpu hpc place
  · simpa [setTask, setCurrent, hst] using h.outside s hs
  · exact absurd (hst ▸ hs) ht
  · simpa [setTask, setCurrent, hst] using h.inside s hs

lemma sound_dispatch (hcpu : (m.tasks t).cpu = none) (hfree : m.current c = none)
    (hop : Careful m (.dispatch t c)) :
    SoundFor ((m.setTask t { m.tasks t with cpu := some c }).setCurrent c (some t)) holder := by
  have ht : holder ≠ some t := by
    intro hh
    obtain ⟨d, hin⟩ := h.inside t hh
    rw [hin.cpu] at hcpu
    cases hcpu
  have hpc : ∀ flags, (m.tasks t).pc ≠ .relRestore flags := by
    intro flags hpc
    exact ((h.outside t ht).at_eq hpc).2.2 hcpu
  refine h.place ht hpc (fun d k hd hk => ?_) (.inl ⟨rfl, rfl⟩) (by simp [hcpu]) (by simp [hfree])
  rw [← some.inj hd]
  exact hop k hk

omit h

/-- The holder does not leave its CPU: its interrupts are disabled, and it is inside. -/
lemma Inside.stays {l : Lock} {x : Task} (hx : Inside l x c) : x.mayLeave = false := by
  cases hpc : x.pc with
  | idle =>
    have hpos := Held.inside (hx.at_eq hpc)
    simp [Task.mayLeave, hx.enabled, Nat.pos_iff_ne_zero.mp hpos]
  | _ => simp [Task.mayLeave, hx.enabled, hpc]

include h

lemma sound_preempt (hcpu : (m.tasks t).cpu = some c) (hleave : (m.tasks t).mayLeave = true) :
    SoundFor ((m.setTask t { m.tasks t with cpu := none }).setCurrent c none) holder := by
  have ht : holder ≠ some t := by
    intro hh
    obtain ⟨d, hin⟩ := h.inside t hh
    rw [hin.stays] at hleave
    cases hleave
  have hpc : ∀ flags, (m.tasks t).pc ≠ .relRestore flags := by
    intro flags hpc
    have hat := (h.outside t ht).at_eq hpc
    simp [Task.mayLeave, hat.2.1, hpc] at hleave
  have hcurrent := (h.places t c).mp hcpu
  exact h.place ht hpc (fun d k hd hk => by cases hd) (.inr ⟨rfl, rfl⟩)
    (by simpa [hcpu] using fun d hd => Ne.symm hd) (by simpa [hcurrent] using fun s hs => Ne.symm hs)

omit h

def Sound (m : Machine) : Prop := ∃ holder, SoundFor m holder

lemma sound_booted : Sound booted :=
  ⟨none, ⟨fun _ _ => by simp [booted], fun _ _ _ hc _ => (by simp [booted] at hc), rfl,
    fun _ => rfl, fun _ _ => ⟨rfl, trivial⟩, fun _ ht => by cases ht⟩⟩

lemma sound_step {op : Op} (h : Sound m) (hop : Careful m op) : Sound (step m op) := by
  obtain ⟨holder, h⟩ := h
  cases op with
  | dispatch t c =>
    rw [step]
    split_ifs with hfree
    · exact ⟨holder, sound_dispatch h hfree.1 hfree.2 hop⟩
    · exact ⟨holder, h⟩
  | preempt t =>
    rw [step]
    cases hcpu : (m.tasks t).cpu with
    | none => exact ⟨holder, h⟩
    | some c =>
      split_ifs with hleave
      · exact ⟨holder, sound_preempt h hcpu hleave⟩
      · exact ⟨holder, h⟩
  | does t a =>
    rw [step]
    cases hcpu : (m.tasks t).cpu with
    | none => exact ⟨holder, h⟩
    | some c => exact sound_act h hcpu hop

end Machine

/-- Where the lock does what it is for. -/
structure Safe (m : Machine) : Prop where
  exclusive : ∀ s t, 0 < (m.tasks s).depth → 0 < (m.tasks t).depth → s = t
  legal : ∀ t, (m.tasks t).pc ≠ .panicked .releaseOfUnheld ∧
    (m.tasks t).pc ≠ .panicked .releaseFromNonOwner
  outermost : ∀ t, 0 < (m.tasks t).depth → ((step m (.does t .advance)).tasks t).depth = 0 →
    ((step m (.does t .advance)).tasks t).pc = .relRestore (m.tasks t).saved
  restored : ∀ t flags, (m.tasks t).pc = .relRestore flags →
    ((step m (.does t .advance)).tasks t).pc = .idle ∧
      ((step m (.does t .advance)).tasks t).enabled = (m.tasks t).saved

section Safe

variable {m : Machine} {holder : Option TaskId} {t : TaskId}

lemma step_advance_running {c : CpuId} (hcpu : (m.tasks t).cpu = some c) :
    (step m (.does t .advance)).tasks t = (microstep m.lock (m.tasks t)).2 := by
  simp [step, hcpu, act, setTask]

variable (h : SoundFor m holder)
include h

lemma SoundFor.holds (ht : 0 < (m.tasks t).depth) : holder = some t := by
  by_contra hne
  have := (h.outside t hne).depth
  omega

lemma SoundFor.legal {reason : Panic} (hpc : (m.tasks t).pc = .panicked reason)
    : reason = .budgetExceeded := by
  by_cases ht : holder = some t
  · obtain ⟨c, hin⟩ := h.inside t ht
    exact (hin.at_eq hpc).elim
  · have hat := (h.outside t ht).at_eq hpc
    cases reason with
    | budgetExceeded => rfl
    | releaseOfUnheld | releaseFromNonOwner => exact hat.elim

lemma SoundFor.outermost (ht : 0 < (m.tasks t).depth)
    (hleft : ((step m (.does t .advance)).tasks t).depth = 0) :
    ((step m (.does t .advance)).tasks t).pc = .relRestore (m.tasks t).saved := by
  have hholder := h.holds ht
  obtain ⟨c, hin⟩ := h.inside t hholder
  have hl : m.lock.locked = true := by rw [h.locked, hholder]; rfl
  rw [step_advance_running hin.cpu] at hleft ⊢
  rcases microstep_inside hin hl (h.fresh t) with ⟨-, -, hstays⟩ | ⟨-, -, -, hpc⟩
  · have := hstays ht
    omega
  · exact hpc

lemma SoundFor.restored {flags : Bool} (hpc : (m.tasks t).pc = .relRestore flags) :
    ((step m (.does t .advance)).tasks t).pc = .idle ∧
      ((step m (.does t .advance)).tasks t).enabled = (m.tasks t).saved := by
  have ht : holder ≠ some t := by
    intro hh
    obtain ⟨c, hin⟩ := h.inside t hh
    exact hin.at_eq hpc
  obtain ⟨hflags, henabled, hrunning⟩ := (h.outside t ht).at_eq hpc
  obtain ⟨c, hcpu⟩ := ne_none_iff_exists'.mp hrunning
  rw [step_advance_running hcpu, microstep, hpc]
  refine ⟨rfl, ?_⟩
  dsimp only
  rw [henabled, hflags, Bool.false_or]

lemma SoundFor.safe : Safe m where
  exclusive _ _ hs ht := some.inj ((h.holds hs).symm.trans (h.holds ht))
  legal _ := ⟨fun hpc => (nomatch h.legal hpc), fun hpc => (nomatch h.legal hpc)⟩
  outermost _ := h.outermost
  restored _ _ := h.restored

end Safe

/-- In every interleaving in which a task that has read its CPU number is resumed on that CPU, and
in which no count wraps around, one task at most is inside the lock, no release panics, and the
outermost release restores the interrupt flag that the outermost acquire has saved. -/
theorem spinlock_excludes {ops : List Op} (hops : Guarded step Careful booted ops) :
    Safe (run step booted ops) := by
  obtain ⟨holder, h⟩ := invariant_run Sound (fun _ _ => sound_step) sound_booted hops
  exact h.safe

/-- A call, and the first `n` steps of it. -/
def call (t : TaskId) (a : Act) (n : ℕ) : List Op :=
  .does t a :: List.replicate n (.does t .advance)

/-- One task takes the lock twice and releases it twice, while the other one spins, gives up and
tries again. -/
def handover : List Op :=
  [.dispatch 0 0, .dispatch 1 1] ++ call 0 (.acquire false) 7 ++ call 0 (.acquire false) 4 ++
    call 1 (.acquire true) 5 ++ [.does 1 .overrun, .does 1 .advance] ++ call 0 .release 4 ++
    call 0 .release 9 ++ call 1 (.acquire false) 7

theorem spinlock_excludes_handover :
    Guarded step Careful booted handover ∧
      ((run step booted handover).tasks 1).depth = 1 ∧ Safe (run step booted handover) :=
  ⟨by decide, by decide, spinlock_excludes (by decide)⟩

/-- Task 0 has read the number of CPU 0 when it is resumed on CPU 1. -/
def migrated : List Op :=
  [.dispatch 0 0, .does 0 (.acquire false), .preempt 0, .dispatch 0 1]

/-- A task that is resumed on another CPU between the read of its CPU number and the `cli` enters
the lock beside the task that holds it on its old CPU; where the lock is free, its own release
panics. -/
theorem migrated_task_enters :
    (0 < ((run step booted (migrated ++ [.dispatch 1 0] ++ call 1 (.acquire false) 7 ++
        List.replicate 4 (.does 0 .advance))).tasks 0).depth ∧
      0 < ((run step booted (migrated ++ [.dispatch 1 0] ++ call 1 (.acquire false) 7 ++
        List.replicate 4 (.does 0 .advance))).tasks 1).depth) ∧
    ((run step booted (migrated ++ List.replicate 7 (.does 0 .advance) ++
        call 0 .release 2)).tasks 0).pc = .panicked .releaseFromNonOwner := by
  decide

end GrahaOS.Spinlock
