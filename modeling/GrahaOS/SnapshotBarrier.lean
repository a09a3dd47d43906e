import GrahaOS.TaskSeparation

/-!
# The barrier of snapshots

The flag of the barrier belongs to one task at a time, from the exchange that sets it to the store
that clears it.
-/

namespace GrahaOS.Scheduler

open World Runs

/-- The task has set the flag and has not cleared it yet. -/
def Cont.owns : Cont → Prop
  | .begun | .polling _ | .holding | .ending _ _ => True
  | _ => False

/-- The barrier has begun, and its list has not been taken yet. -/
def Cont.isOpen : Cont → Bool
  | .polling _ | .holding => true
  | _ => false

lemma Cont.owns_of_isOpen {cont : Cont} (h : cont.isOpen = true) : cont.owns := by
  cases cont <;> trivial

lemma Cont.barred_of_owns {cont : Cont} (h : cont.owns) : cont.barred := by
  cases cont <;> trivial

/-- The flag belongs to one task. -/
structure Owned (w : World) : Prop where
  flag : ∀ {t}, (w.cont t).owns → w.barrierFlag = true
  unique : ∀ {s t}, (w.cont s).owns → (w.cont t).owns → s = t
  owner : ∀ {t}, (w.cont t).isOpen = true → w.ownerTask = some t

section Owners

variable {w w' : World} {t : TaskId}

/-- The owner goes on, or the flag is left to nobody. -/
lemma owned_setCont {cont : Cont} (hcont : w'.cont = w.cont)
    (hflag : cont.owns → w'.barrierFlag = true) (hnone : ∀ s, s ≠ t → ¬ (w.cont s).owns)
    (howner : cont.isOpen = true → w'.ownerTask = some t) : Owned (w'.setCont t cont) := by
  have hself : ∀ {s}, ((w'.setCont t cont).cont s).owns → s = t := by
    intro s hs
    by_contra hst
    rw [setCont_of_ne _ hst, hcont] at hs
    exact hnone s hst hs
  refine ⟨fun {s} hs => ?_, fun hs ht => (hself hs).trans (hself ht).symm, fun {s} hs => ?_⟩
  · obtain rfl := hself hs
    rw [setCont_self] at hs
    exact hflag hs
  · obtain rfl := hself (Cont.owns_of_isOpen hs)
    rw [setCont_self] at hs
    exact howner hs

lemma Owned.others (h : Owned w) (ht : (w.cont t).owns) (s : TaskId) (hs : s ≠ t) :
    ¬ (w.cont s).owns :=
  fun hown => hs (h.unique hown ht)

/-- A task that is not the owner goes on outside of the barrier. -/
lemma Owned.leaves {cont : Cont} (h : Owned w) (hcont : w'.cont = w.cont)
    (hflag : w'.barrierFlag = w.barrierFlag) (howner : w'.ownerTask = w.ownerTask)
    (hnot : ¬ cont.owns) : Owned (w'.setCont t cont) := by
  have hother : ∀ {s}, ((w'.setCont t cont).cont s).owns →
      (w'.setCont t cont).cont s = w.cont s := by
    intro s hs
    have hst : s ≠ t := by
      rintro rfl
      rw [setCont_self] at hs
      exact hnot hs
    rw [setCont_of_ne _ hst, hcont]
  refine ⟨fun hs => ?_, fun hs ht => ?_, fun hs => ?_⟩
  · exact hflag.trans (h.flag (hother hs ▸ hs))
  · exact h.unique (hother hs ▸ hs) (hother ht ▸ ht)
  · have hsame := hother (Cont.owns_of_isOpen hs)
    exact howner.trans (h.owner (hsame ▸ hs))

end Owners

theorem step_owned (w : World) (op : Op) (h : Owned w) : Owned (step w op) := by
  have hstep := (step_moves w op).barrier
  generalize step w op = w' at hstep ⊢
  -- the owner has the flag, and nobody else
  have hmine : ∀ {t cont}, w.cont t = cont → cont.owns → (w.cont t).owns ∧ w.barrierFlag = true :=
    fun hcont hown => ⟨hcont ▸ hown, h.flag (hcont ▸ hown)⟩
  cases hstep with
  | aside silent same hcont =>
    have hback : ∀ {t}, (w'.cont t).owns → w'.cont t = w.cont t := by
      intro t ht
      exact (hcont t).resolve_right fun hnot => hnot.2 (Cont.barred_of_owns ht)
    refine ⟨fun ht => ?_, fun hs ht => ?_, fun ht => ?_⟩
    · exact same.flag.trans (h.flag (hback ht ▸ ht))
    · exact h.unique (hback hs ▸ hs) (hback ht ▸ ht)
    · exact same.owner.trans (h.owner (hback (Cont.owns_of_isOpen ht) ▸ ht))
  | park => exact ⟨h.flag, h.unique, h.owner⟩
  | begins ht hcont hflag =>
    refine owned_setCont rfl (fun _ => rfl) (fun s _ hs => ?_) (fun hopen => by cases hopen)
    rw [h.flag hs] at hflag
    cases hflag
  | resets ht hcont =>
    obtain ⟨hown, hflag⟩ := hmine hcont trivial
    exact owned_setCont rfl (fun _ => hflag) (h.others hown) fun _ => rfl
  | polls ht hcont | retries ht hcont | succeeds ht hcont =>
    obtain ⟨hown, hflag⟩ := hmine hcont trivial
    exact owned_setCont rfl (fun _ => hflag) (h.others hown) fun _ => h.owner (by rw [hcont]; rfl)
  | timesOut ht hcont | clears ht hcont =>
    obtain ⟨hown, -⟩ := hmine hcont trivial
    exact owned_setCont rfl (fun hown => hown.elim) (h.others hown) fun hopen => by cases hopen
  | ends ht hcont =>
    obtain ⟨hown, hflag⟩ := hmine hcont trivial
    exact owned_setCont rfl (fun _ => hflag) (h.others hown) fun hopen => by cases hopen
  | releases ht hcont => exact h.leaves rfl rfl rfl id
  | finishes ht hcont => exact h.leaves rfl rfl rfl id

lemma owned_boot (n : ℕ) : Owned (boot n) :=
  ⟨fun h => h.elim, fun h => h.elim, fun h => by cases h⟩

/-- In every state that is reached the flag belongs to one task at most, which is entered as the owner
while the barrier is up. -/
theorem barrier_has_one_owner (n : ℕ) (ops : List Op) : Owned (run step (boot n) ops) :=
  invariant_run_all Owned step_owned (owned_boot n) ops

/-- A CPU goes through `schedule`, and steals from the first one if it has nothing to run. -/
def steal (c : CpuId) : List Op := .enter c :: List.replicate 20 (.schedule c { victim := some 0 })

end GrahaOS.Scheduler
