import GrahaOS.Pledge

/-!
# Pledges only narrow

`Narrows` relates two systems in which every task of the first has, if it still exists, at most the
mask it had. Two calls can leave it: `SYS_EXEC` gives the new process every class whatever its
creator holds, and a restore (by a snapshot or by an abort) reinstalls the mask a task had when it
was captured. `Narrowing` excludes exactly these cases.
-/

namespace GrahaOS.PledgeNarrowing

open Masks Pledge Runs

/-- No task has gained a class, and task ids were only added. -/
def Narrows (s s' : System) : Prop :=
  s.nextTaskId ≤ s'.nextTaskId ∧ ∀ pid, pid < s.nextTaskId → ∀ t', s'.tasks pid = some t' →
    ∃ t, s.tasks pid = some t ∧ Within t'.pledgeMask t.pledgeMask

namespace Narrows

theorem refl (s : System) : Narrows s s :=
  ⟨le_rfl, fun _ _ t ht => ⟨t, ht, within_refl _⟩⟩

theorem trans {a b c : System} (hab : Narrows a b) (hbc : Narrows b c) : Narrows a c := by
  refine ⟨hab.1.trans hbc.1, ?_⟩
  intro pid hpid t'' ht''
  obtain ⟨t', ht', hw'⟩ := hbc.2 pid (lt_of_lt_of_le hpid hab.1) t'' ht''
  obtain ⟨t, ht, hw⟩ := hab.2 pid hpid t' ht'
  exact ⟨t, ht, within_trans hw' hw⟩

/-- An update that leaves the mask of an old task within the one it started with. -/
theorem updateTask {s₀ s : System} (h : Narrows s₀ s) (pid : ℕ) (f : TaskRecord → TaskRecord)
    (hf : ∀ t₀ t, s₀.tasks pid = some t₀ → s.tasks pid = some t →
      Within t.pledgeMask t₀.pledgeMask → Within (f t).pledgeMask t₀.pledgeMask) :
    Narrows s₀ (s.updateTask pid f) := by
  refine ⟨h.1, ?_⟩
  intro q hq t' ht'
  by_cases hqp : q = pid
  · subst q
    cases ht : s.tasks pid with
    | none => simp [System.updateTask, ht] at ht'
    | some t =>
      obtain rfl : f t = t' := by simpa [System.updateTask, ht] using ht'
      obtain ⟨t₀, ht₀, hw⟩ := h.2 pid hq t ht
      exact ⟨t₀, ht₀, hf t₀ t ht₀ ht hw⟩
  · have hsame : s.tasks q = some t' := by simpa [System.updateTask, hqp] using ht'
    exact h.2 q hq t' hsame

/-- Updates that do not touch the mask. -/
theorem updateTask_mask {s₀ s : System} (h : Narrows s₀ s) (pid : ℕ) {f : TaskRecord → TaskRecord}
    (hf : ∀ t, (f t).pledgeMask = t.pledgeMask) : Narrows s₀ (s.updateTask pid f) := by
  refine h.updateTask pid f ?_
  intro t₀ t _ _ hw
  rw [hf t]
  exact hw

/-- Updates of a task that did not exist at the start. -/
theorem updateTask_new {s₀ s : System} (h : Narrows s₀ s) {pid : ℕ} (hnew : s₀.nextTaskId ≤ pid)
    (f : TaskRecord → TaskRecord) : Narrows s₀ (s.updateTask pid f) := by
  refine h.updateTask pid f ?_
  intro t₀ t ht₀ _ _
  rw [s₀.fresh pid hnew] at ht₀
  cases ht₀

theorem addTask (s : System) (t : TaskRecord) : Narrows s (s.addTask t) := by
  refine ⟨Nat.le_succ _, ?_⟩
  intro pid hpid t' ht'
  have hne : pid ≠ s.nextTaskId := by omega
  have hsame : s.tasks pid = some t' := by simpa [System.addTask, hne] using ht'
  exact ⟨t', hsame, within_refl _⟩

theorem removeTask (s : System) (pid : ℕ) : Narrows s (s.removeTask pid) := by
  refine ⟨le_rfl, ?_⟩
  intro q hq t' ht'
  by_cases hqp : q = pid
  · simp [System.removeTask, hqp] at ht'
  · have hsame : s.tasks q = some t' := by simpa [System.removeTask, hqp] using ht'
    exact ⟨t', hsame, within_refl _⟩

end Narrows

/-- The outcome of a creating call: nothing widens, and a process that is returned is
new and has the given mask. -/
def Creates (s : System) (r : Option ℕ × System) (mask : BitVec 16) : Prop :=
  Narrows s r.2 ∧ ∀ child, r.1 = some child → s.nextTaskId ≤ child ∧
    ∃ t, r.2.tasks child = some t ∧ t.pledgeMask = mask

variable {s s' : System} {pid : ℕ} {t : TaskRecord} {barrier : Bool}

lemma creates_none (h : Narrows s s') (mask : BitVec 16) : Creates s (none, s') mask :=
  ⟨h, nofun⟩

lemma Creates.setMask {mask : BitVec 16} (h : Creates s (some pid, s') mask) (newMask : BitVec 16) :
    Creates s (some pid, s'.updateTask pid fun t => { t with pledgeMask := newMask }) newMask := by
  obtain ⟨hnew, t, ht, -⟩ := h.2 pid rfl
  refine ⟨h.1.updateTask_new hnew _, ?_⟩
  intro child hc
  obtain rfl : pid = child := by simpa using hc
  have ht' : s'.tasks pid = some t := ht
  exact ⟨hnew, { t with pledgeMask := newMask }, by simp [System.updateTask, ht'], rfl⟩

variable (s)

lemma createUserProcess_creates (o : Outcome) : Creates s (createUserProcess s o) pledgeAll := by
  unfold createUserProcess
  split_ifs
  · exact creates_none (Narrows.refl s) _
  · exact creates_none (Narrows.refl s) _
  · exact creates_none (Narrows.refl s) _
  · refine ⟨Narrows.addTask s _, ?_⟩
    intro child hc
    obtain rfl : s.nextTaskId = child := by simpa using hc
    exact ⟨le_rfl, ⟨pledgeAll, [], false, false⟩, by simp [System.addTask], rfl⟩
  · exact creates_none (Narrows.addTask s _) _

lemma createUserProcess_tasks (o : Outcome) (ht : s.tasks pid = some t) :
    (createUserProcess s o).2.tasks pid = some t := by
  have hne : pid ≠ s.nextTaskId := by
    intro heq
    rw [heq, s.fresh s.nextTaskId le_rfl] at ht
    cases ht
  unfold createUserProcess
  split_ifs
  · exact ht
  · exact ht
  · exact ht
  · simpa [System.addTask, hne] using ht
  · simpa [System.addTask, hne] using ht

lemma spawnProcess_creates (o : Outcome) {parentId : ℕ} {parent : TaskRecord}
    (hparent : s.tasks parentId = some parent) :
    Creates s (spawnProcess s o parentId) parent.pledgeMask := by
  have hcreates := createUserProcess_creates s o
  have hsame := createUserProcess_tasks s o hparent
  unfold spawnProcess
  split_ifs with hloads
  · exact creates_none (Narrows.refl s) _
  generalize createUserProcess s o = r at hcreates hsame
  obtain ⟨pid, s'⟩ := r
  cases pid with
  | none => exact creates_none hcreates.1 _
  | some pid =>
    have hparent' : s'.tasks parentId = some parent := hsame
    simp only [hparent']
    exact hcreates.setMask parent.pledgeMask

/-- No captured task that still exists has given up a class since its capture. -/
def NotNarrowedSince (entries : List TaskCapture) : Prop :=
  ∀ te ∈ entries, te.pid ≠ 0 → ∀ t ∈ s.tasks te.pid,
    Within (te.pledgeSnapshot.setWidth 16) t.pledgeMask

variable {s}

lemma restoreTasks_narrows {s₀ : System} {entries : List TaskCapture} (h : Narrows s₀ s)
    (hentries : NotNarrowedSince s₀ entries) : Narrows s₀ (restoreTasks s entries) := by
  induction entries generalizing s with
  | nil => exact h
  | cons te rest ih =>
    have hrest : NotNarrowedSince s₀ rest := fun e he => hentries e (List.mem_cons_of_mem te he)
    unfold restoreTasks
    split_ifs with hzero
    · exact ih h hrest
    · refine ih (h.updateTask te.pid _ ?_) hrest
      intro t₀ t ht₀ _ _
      exact hentries te List.mem_cons_self hzero t₀ ht₀

/-- The condition on a call: a process that executes another holds every class, and a
restore finds no captured task narrowed since its capture. -/
def Narrowing (s : System) : Op → Prop
  | .exec caller _ => ∀ t ∈ s.tasks caller, Within pledgeAll t.pledgeMask
  | .snapRestore _ snapId _ => ∀ entries ∈ s.snaps snapId, NotNarrowedSince s entries
  | .txnAbort caller _ => ∀ t ∈ s.tasks caller, ∀ entries ∈ t.activeTxn.head?,
      NotNarrowedSince s entries
  | _ => True

lemma admitted_some {caller : ℕ} {classes : List ℕ} (h : admitted s caller classes = some t) :
    s.tasks caller = some t := by
  unfold admitted at h
  obtain ⟨t', ht', hif⟩ := Option.bind_eq_some_iff.mp h
  split_ifs at hif
  obtain rfl : t' = t := by simpa using hif
  exact ht'

variable (s)

/-- The outcome of a call that fails, or creates a task whose mask is within its caller's. -/
def CreatesWithin (caller : ℕ) (r : Option ℕ × System) : Prop :=
  r = (none, s) ∨ ∃ t mask, s.tasks caller = some t ∧ Within mask t.pledgeMask ∧ Creates s r mask

lemma sysNarrowExec_creates (caller : ℕ) (newPledges : BitVec 16) (valid : Bool) (o : Outcome)
    : CreatesWithin s caller (sysNarrowExec s caller newPledges valid o) := by
  unfold sysNarrowExec
  cases hcaller : s.tasks caller with
  | none => exact .inl rfl
  | some t =>
  simp only
  split_ifs with hbad hwide
  · exact .inl rfl
  · exact .inl rfl
  have hcreates := spawnProcess_creates s o hcaller
  refine .inr ⟨t, _, hcaller, by simpa [Within] using hwide, ?_⟩
  generalize spawnProcess s o caller = r at hcreates
  obtain ⟨pid, s'⟩ := r
  cases pid with
  | none => exact creates_none hcreates.1 _
  | some pid => exact hcreates.setMask _

lemma sysSpawn_creates (caller : ℕ) (o : Outcome) :
    CreatesWithin s caller (sysSpawn s caller o) := by
  unfold sysSpawn
  cases hadm : admitted s caller [classSpawn] with
  | none => exact .inl rfl
  | some t =>
    have ht := admitted_some hadm
    exact .inr ⟨t, _, ht, within_refl _, spawnProcess_creates s o ht⟩

variable {s}

lemma sysExec_creates {caller : ℕ} {o : Outcome} (h : Narrowing s (.exec caller o)) :
    CreatesWithin s caller (sysExec s caller o) := by
  unfold sysExec
  cases hadm : admitted s caller [classSpawn] with
  | none => exact .inl rfl
  | some t =>
    have ht := admitted_some hadm
    split_ifs
    · exact .inr ⟨t, _, ht, h t ht, createUserProcess_creates s o⟩
    · exact .inl rfl

lemma sysPledge_narrows (s : System) (caller : ℕ) (newMask : BitVec 16) :
    Narrows s (sysPledge s caller newMask) := by
  unfold sysPledge
  cases hcaller : s.tasks caller with
  | none => exact Narrows.refl s
  | some t =>
  simp only
  cases hn : pledgeNarrow t.pledgeMask newMask with
  | error e => exact Narrows.refl s
  | ok mask =>
    refine (Narrows.refl s).updateTask caller _ ?_
    intro t₀ _ ht₀ _ _
    rw [hcaller] at ht₀
    cases ht₀
    exact pledgeNarrow_within hn

lemma sysSnapCreate_narrows (s : System) (caller : ℕ) (scopeFlags : BitVec 32)
    (captured installed : Bool) : Narrows s (sysSnapCreate s caller scopeFlags captured installed) := by
  unfold sysSnapCreate
  cases admitted s caller [classSysControl, classSysQuery] with
  | none => exact Narrows.refl s
  | some t =>
  simp only
  cases runCapture s scopeFlags caller t with
  | none =>
    simp only
    split_ifs <;> exact Narrows.refl s
  | some entries =>
    simp only
    split_ifs <;> exact Narrows.refl s

lemma sysSnapRestore_narrows {caller snapId : ℕ}
    (h : Narrowing s (.snapRestore caller snapId barrier)) :
    Narrows s (sysSnapRestore s caller snapId barrier) := by
  unfold sysSnapRestore
  cases admitted s caller [classSysControl] with
  | none => exact Narrows.refl s
  | some t =>
    cases hsnap : s.snaps snapId with
    | none => exact Narrows.refl s
    | some entries =>
      split_ifs
      · exact restoreTasks_narrows (Narrows.refl s) (h entries hsnap)
      · exact Narrows.refl s

lemma sysTxnBegin_narrows (s : System) (caller : ℕ) (flags : BitVec 32)
    (system captured installed : Bool) :
    Narrows s (sysTxnBegin s caller flags system captured installed) := by
  unfold sysTxnBegin
  cases admitted s caller [classSysControl] with
  | none => exact Narrows.refl s
  | some t =>
  simp only
  generalize (if flags &&& txnFlagGlobalScope ≠ 0#32 then snapScopeSelf ||| snapScopeGlobal
    else snapScopeSelf) = scope
  cases runCapture s scope caller t with
  | none =>
    simp only
    split_ifs <;> exact Narrows.refl s
  | some entries =>
    simp only
    split_ifs
    · exact Narrows.refl s
    · exact Narrows.refl s
    · exact Narrows.refl s
    · exact (Narrows.refl s).updateTask_mask caller fun _ => rfl
    · exact Narrows.refl s

lemma sysTxnAbort_narrows {caller : ℕ} (h : Narrowing s (.txnAbort caller barrier)) :
    Narrows s (sysTxnAbort s caller barrier) := by
  unfold sysTxnAbort
  cases hadm : admitted s caller [classSysControl] with
  | none => exact Narrows.refl s
  | some t =>
  simp only
  cases htxn : t.activeTxn with
  | nil => exact Narrows.refl s
  | cons entries rest =>
    have hentries : NotNarrowedSince s entries := h t (admitted_some hadm) entries (by simp [htxn])
    have hrestore : Narrows s (if barrier then restoreTasks s entries else s) := by
      split_ifs
      · exact restoreTasks_narrows (Narrows.refl s) hentries
      · exact Narrows.refl s
    exact hrestore.updateTask_mask caller fun _ => rfl

lemma creates_narrows {r : Option ℕ × System} {caller : ℕ} (h : CreatesWithin s caller r) :
    Narrows s r.2 ∧ ∀ child, r.1 = some child → ∃ creator t, s.tasks caller = some creator ∧
      r.2.tasks child = some t ∧ Within t.pledgeMask creator.pledgeMask := by
  rcases h with rfl | ⟨creator, mask, hcreator, hw, hc⟩
  · exact ⟨Narrows.refl s, nofun⟩
  refine ⟨hc.1, ?_⟩
  intro child hchild
  obtain ⟨-, t, ht, rfl⟩ := hc.2 child hchild
  exact ⟨creator, t, hcreator, ht, hw⟩

/-- Every call that meets the condition keeps every task within its mask, and what it
creates within the mask of its caller. -/
theorem perform_narrows {op : Op} (h : Narrowing s op) :
    Narrows s (perform s op).2 ∧ ∀ child, (perform s op).1 = some child →
      ∃ creator t, s.tasks op.caller = some creator ∧ (perform s op).2.tasks child = some t ∧
        Within t.pledgeMask creator.pledgeMask := by
  cases op with
  | narrowExec caller newPledges valid o =>
    exact creates_narrows (sysNarrowExec_creates s caller newPledges valid o)
  | spawn caller o => exact creates_narrows (sysSpawn_creates s caller o)
  | exec caller o => exact creates_narrows (sysExec_creates h)
  | pledge caller newMask => exact ⟨sysPledge_narrows s caller newMask, nofun⟩
  | snapCreate caller scopeFlags captured installed =>
    exact ⟨sysSnapCreate_narrows s caller scopeFlags captured installed, nofun⟩
  | snapRestore caller snapId barrier => exact ⟨sysSnapRestore_narrows h, nofun⟩
  | snapDelete caller snapId =>
    refine ⟨?_, nofun⟩
    change Narrows s (sysSnapDelete s caller snapId)
    unfold sysSnapDelete
    cases admitted s caller [classSysControl] <;> exact Narrows.refl s
  | txnBegin caller flags system captured installed =>
    exact ⟨sysTxnBegin_narrows s caller flags system captured installed, nofun⟩
  | txnCommit caller drained =>
    refine ⟨?_, nofun⟩
    change Narrows s (sysTxnCommit s caller drained)
    unfold sysTxnCommit
    cases admitted s caller [classSysControl] with
    | none => exact Narrows.refl s
    | some t =>
      split_ifs
      · exact (Narrows.refl s).updateTask_mask caller fun _ => rfl
      · exact Narrows.refl s
  | txnAbort caller barrier => exact ⟨sysTxnAbort_narrows h, nofun⟩
  | exit caller =>
    exact ⟨(Narrows.refl s).updateTask_mask caller fun _ => rfl, nofun⟩
  | reap pid => exact ⟨Narrows.removeTask s pid, nofun⟩

/-- In every run whose calls meet the condition, from any state of the task table: a
task's mask is within every mask it had before, and a process created by a call has at
first a mask within its creator's. -/
theorem pledges_only_narrow {s₀ : System} {ops₁ ops₂ : List Op}
    (hrun : Guarded step Narrowing s₀ (ops₁ ++ ops₂)) :
    (∀ pid t t', (run step s₀ ops₁).tasks pid = some t →
      (run step s₀ (ops₁ ++ ops₂)).tasks pid = some t' → Within t'.pledgeMask t.pledgeMask) ∧
    (∀ op child, Narrowing (run step s₀ (ops₁ ++ ops₂)) op →
      (perform (run step s₀ (ops₁ ++ ops₂)) op).1 = some child →
      ∃ creator t, (run step s₀ (ops₁ ++ ops₂)).tasks op.caller = some creator ∧
        (perform (run step s₀ (ops₁ ++ ops₂)) op).2.tasks child = some t ∧
        Within t.pledgeMask creator.pledgeMask) := by
  refine ⟨?_, fun op child hop => (perform_narrows hop).2 child⟩
  intro pid t t' ht ht'
  rw [run_append] at ht'
  have hrel : Narrows (run step s₀ ops₁) (run step (run step s₀ ops₁) ops₂) :=
    relation_run Narrows.refl Narrows.trans (fun _ _ hop => (perform_narrows hop).1)
      ((guarded_append step Narrowing).mp hrun).2
  have hold : pid < (run step s₀ ops₁).nextTaskId := by
    by_contra hge
    rw [(run step s₀ ops₁).fresh pid (Nat.le_of_not_lt hge)] at ht
    cases ht
  obtain ⟨t₁, ht₁, hw⟩ := hrel.2 pid hold t' ht'
  rw [ht] at ht₁
  cases ht₁
  exact hw

/-- The idle task and one process with every class. -/
def oneProcess : System where
  tasks := fun pid => if pid = 0 then some ⟨pledgeAll, [], false, true⟩
    else if pid = 1 then some ⟨pledgeAll, [], false, false⟩ else none
  nextTaskId := 2
  taskCount := 2
  snaps := fun _ => none
  nextSnapId := 0
  fresh := by
    intro pid hpid
    have h0 : pid ≠ 0 := by omega
    have h1 : pid ≠ 1 := by omega
    simp [h0, h1]

/-- Spawning, querying and controlling; no file access. -/
def noFiles : BitVec 16 := 0x0D90#16

theorem pledge_then_spawn_narrows :
    ∃ creator t, (run step oneProcess [.pledge 1 noFiles]).tasks 1 = some creator ∧
      (perform (run step oneProcess [.pledge 1 noFiles]) (.spawn 1 ⟨true, true, true⟩)).2.tasks 2 =
        some t ∧ Within t.pledgeMask creator.pledgeMask := by
  have hresult := @pledges_only_narrow oneProcess [.pledge 1 noFiles] [] ⟨trivial, trivial⟩
  exact hresult.2 (.spawn 1 ⟨true, true, true⟩) 2 trivial rfl

/-- A process that has given up file access gets it back through a process it executes,
by restoring a snapshot of itself, and by aborting a transaction. -/
theorem narrowed_pledge_widens_again :
    (∃ s child creator t, s = run step oneProcess [.pledge 1 noFiles] ∧
      (perform s (.exec 1 ⟨true, true, true⟩)).1 = some child ∧ s.tasks 1 = some creator ∧
      (perform s (.exec 1 ⟨true, true, true⟩)).2.tasks child = some t ∧
      ¬Within t.pledgeMask creator.pledgeMask) ∧
    (∃ ops₁ ops₂ t t', ops₂ = [.snapRestore 1 0 true] ∧
      (run step oneProcess ops₁).tasks 1 = some t ∧
      (run step oneProcess (ops₁ ++ ops₂)).tasks 1 = some t' ∧
      ¬Within t'.pledgeMask t.pledgeMask) ∧
    (∃ ops₁ ops₂ t t', ops₂ = [.txnAbort 1 true] ∧
      (run step oneProcess ops₁).tasks 1 = some t ∧
      (run step oneProcess (ops₁ ++ ops₂)).tasks 1 = some t' ∧
      ¬Within t'.pledgeMask t.pledgeMask) := by
  refine ⟨?_, ?_, ?_⟩
  · exact ⟨_, 2, ⟨noFiles, [], false, false⟩, ⟨pledgeAll, [], false, false⟩, rfl, by decide, rfl,
      rfl, by decide⟩
  · exact ⟨[.snapCreate 1 snapScopeSelf true true, .pledge 1 noFiles], _,
      ⟨noFiles, [], false, false⟩, ⟨pledgeAll, [], false, false⟩, rfl, rfl, rfl, by decide⟩
  · exact ⟨[.txnBegin 1 0#32 false true true, .pledge 1 noFiles], _,
      ⟨noFiles, [[⟨1, pledgeAll.setWidth 64⟩]], false, false⟩, ⟨pledgeAll, [], false, false⟩, rfl,
      rfl, rfl, by decide⟩

end GrahaOS.PledgeNarrowing
