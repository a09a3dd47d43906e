import GrahaOS.PageTables
import Mathlib.Data.List.GetD

/-!
# The trackers of captured pages

A snapshot holds the user pages of the tasks that it captures, and each of them counts in the
tracker of its frame (`kernel/snap/capture.c`, `cow_fault.c`). A restore that maps a captured
frame again takes one more reference on the tracker (`restore.c`), which nothing gives up.
Stores, faults and unmaps change the page tables in between, so these are arguments.
-/

namespace GrahaOS.CowTrackers

open PageTables Runs Function List

/-- `snap_captured_page_t` -/
structure CapturedPage where
  virt : ℕ
  phys : ℕ

/-- `snapshot_task_entry_t` -/
structure TaskEntry where
  pid : ℕ
  pages : List CapturedPage := []
  pageCap : ℕ := 0

/-- The counts of the trackers, 0 where a frame has none, and the live snapshots. -/
structure World where
  trackers : ℕ → ℕ
  snaps : List (List TaskEntry)

/-- `cow_page_tracker_get`; `ok` says whether a new tracker can be allocated. -/
def cowPageTrackerGet (trackers : ℕ → ℕ) (phys : ℕ) (ok : Bool) : ℕ → ℕ :=
  if phys = 0 ∨ trackers phys = 0 ∧ !ok then trackers
  else Function.update trackers phys (min (trackers phys + 1) (2 ^ 32 - 1))

def cowPageTrackerPut (trackers : ℕ → ℕ) (phys : ℕ) : ℕ → ℕ :=
  if phys = 0 then trackers else Function.update trackers phys (trackers phys - 1)

/-- `SNAP_PAGES_PER_TASK_MAX` and `SNAP_TASKS_MAX`. -/
def pagesPerTaskMax : ℕ := 4096
def tasksMax : ℕ := 64

/-- `snap_pages_grow`, if `snap_record_page` calls it: the capacity of the array of pages. -/
def pagesGrow (te : TaskEntry) (ok : Bool) : Option ℕ :=
  if te.pages.length < te.pageCap then some te.pageCap else
  let newCap := min (if te.pageCap = 0 then 64 else te.pageCap * 2) pagesPerTaskMax
  if newCap = te.pageCap ∨ !ok then none else some newCap

/-- A task to be captured: its present entries, and the allocations that succeed. Those of the
walk are by the number of pages so far, `regs` is before the walk and `pins` after it. -/
structure Target where
  pid : ℕ
  ptes : List (ℕ × Pte)
  grows : ℕ → Bool
  tracks : ℕ → Bool
  regs : Bool
  pins : Bool

def walkUserHalf (t : Target) : List (ℕ × Pte) → TaskEntry → (ℕ → ℕ) → Bool × TaskEntry × (ℕ → ℕ)
  | [], te, trackers => (true, te, trackers)
  | (virt, pte) :: ptes, te, trackers =>
    if !pte.flags.user then walkUserHalf t ptes te trackers else
    match pagesGrow te (t.grows te.pages.length) with
    | none => (false, te, trackers)
    | some cap =>
      walkUserHalf t ptes { te with pages := te.pages ++ [⟨virt, pte.phys⟩], pageCap := cap }
        (cowPageTrackerGet trackers pte.phys (t.tracks te.pages.length))

/-- The loop of `snap_run_capture`. -/
def runCapture : List Target → List TaskEntry → (ℕ → ℕ) → Bool × List TaskEntry × (ℕ → ℕ)
  | [], tasks, trackers => (true, tasks, trackers)
  | t :: ts, tasks, trackers =>
    if !t.regs then (false, tasks, trackers) else
    let (ok, te, trackers) := walkUserHalf t t.ptes ⟨t.pid, [], 0⟩ trackers
    if ok && t.pins then runCapture ts (tasks ++ [te]) trackers
    else (false, tasks ++ [te], trackers)

/-- The frames that captured pages name. -/
def frames (tasks : List TaskEntry) : List ℕ := tasks.flatMap fun te => te.pages.map (·.phys)

def destroyCaptures (trackers : ℕ → ℕ) (tasks : List TaskEntry) : ℕ → ℕ :=
  (frames tasks).foldl cowPageTrackerPut trackers

/-- `restore_pages` for one page, where `live` has the entries of the task. -/
def restorePage (live : ℕ → Option Pte) (skipPageVa : ℕ) (tracks maps : ℕ → Bool)
    (trackers : ℕ → ℕ) (cap : CapturedPage) : ℕ → ℕ :=
  if cap.phys = 0 ∨ skipPageVa ≠ 0 ∧ cap.virt = skipPageVa ∨
    (live cap.virt).any (·.phys = cap.phys) then trackers else
  let trackers := cowPageTrackerGet trackers cap.phys (tracks cap.virt)
  if maps cap.virt then trackers else cowPageTrackerPut trackers cap.phys

/-- `cow_fault_handle` copies a page whose frame has a tracker, which it leaves as it is. -/
def cowFaultHandle (w : World) (isWrite isPresent : Bool) (pte : Option Pte) (copied : Bool) :
    Bool × World :=
  (isWrite && isPresent && copied && pte.any fun pte =>
    pte.flags.user && !pte.flags.writable && 0 < w.trackers pte.phys, w)

/-- A snapshot that gets no handle is deleted again, which is a `delete`. -/
inductive Op where
  | create (ok : Bool) (targets : List Target)
  | restore (i : ℕ) (live : ℕ → Option (ℕ → Option Pte)) (skipPageVa : ℕ → ℕ)
      (tracks maps : ℕ → ℕ → Bool)
  | delete (i : ℕ)
  | fault (isWrite isPresent : Bool) (pte : Option Pte) (copied : Bool)

def step (w : World) : Op → World
  | .create ok targets =>
    if !ok ∨ tasksMax < targets.length then w else
    let (ok, tasks, trackers) := runCapture targets [] w.trackers
    if ok then ⟨trackers, tasks :: w.snaps⟩
    else { w with trackers := destroyCaptures trackers tasks }
  | .restore i live skipPageVa tracks maps =>
    { w with trackers := (w.snaps.getD i []).foldl (fun trackers te =>
      match if te.pid = 0 then none else live te.pid with
      | none => trackers
      | some ptes => te.pages.foldl
        (restorePage ptes (skipPageVa te.pid) (tracks te.pid) (maps te.pid)) trackers) w.trackers }
  | .delete i => ⟨destroyCaptures w.trackers (w.snaps.getD i []), w.snaps.eraseIdx i⟩
  | .fault isWrite isPresent pte copied => (cowFaultHandle w isWrite isPresent pte copied).2

/-- At a capture trackers can be allocated, no page is in frame 0 and the counters cannot overflow.
At a restore a captured page is still in its frame, is skipped, or cannot be mapped. -/
def Fair (w : World) : Op → Prop
  | .create _ targets => (∀ t ∈ targets, (∀ n, t.tracks n) ∧ ∀ e ∈ t.ptes, e.2.phys ≠ 0) ∧
    (frames w.snaps.flatten).length + ((targets.map (·.ptes.length)).sum + 1) < 2 ^ 32
  | .restore i live skipPageVa _ maps => ∀ te ∈ w.snaps.getD i [], ∀ ptes ∈ live te.pid,
    ∀ cap ∈ te.pages, (ptes cap.virt).any (·.phys = cap.phys) ∨
      skipPageVa te.pid ≠ 0 ∧ cap.virt = skipPageVa te.pid ∨ maps te.pid cap.virt = false
  | _ => True

/-- The trackers count the frames of a list, and `room` more can be counted. -/
structure Counts (trackers : ℕ → ℕ) (l : List ℕ) (room : ℕ) : Prop where
  count : ∀ f, trackers f = l.count f
  pos : 0 ∉ l
  fits : l.length + room < 2 ^ 32

section Counting

variable {trackers : ℕ → ℕ} {l rest : List ℕ} {phys room : ℕ}

lemma Counts.perm (h : Counts trackers l room) (hl : l.Perm rest) : Counts trackers rest room :=
  ⟨fun f => (h.count f).trans (hl.count_eq f), fun h0 => h.pos (hl.mem_iff.mpr h0),
    hl.length_eq ▸ h.fits⟩

lemma Counts.less {more : ℕ} (h : Counts trackers l (more + room)) : Counts trackers l room :=
  { h with fits := have := h.fits; by omega }

lemma Counts.get (h : Counts trackers l (1 + room)) (hphys : phys ≠ 0) :
    Counts (cowPageTrackerGet trackers phys true) (phys :: l) room := by
  have hle : l.count phys ≤ l.length := count_le_length
  have hfits := h.fits
  refine ⟨fun f => ?_, by simp [h.pos, hphys.symm], by rw [length_cons]; omega⟩
  rw [cowPageTrackerGet, if_neg (by simp [hphys])]
  by_cases hf : f = phys
  · rw [hf, update_self, count_cons_self, h.count]
    omega
  · rw [update_of_ne hf, count_cons_of_ne (Ne.symm hf), h.count]

lemma Counts.put (h : Counts trackers (phys :: l) room) :
    Counts (cowPageTrackerPut trackers phys) l room := by
  have hfits := h.fits
  refine ⟨fun f => ?_, fun h0 => h.pos (mem_cons_of_mem _ h0), by rw [length_cons] at hfits; omega⟩
  rw [cowPageTrackerPut, if_neg fun h0 => h.pos (by simp [h0])]
  by_cases hf : f = phys
  · rw [hf, update_self, h.count, count_cons_self, Nat.add_sub_cancel]
  · rw [update_of_ne hf, h.count, count_cons_of_ne (Ne.symm hf)]

lemma Counts.get_put (h : Counts trackers l 1) (hphys : phys ∈ l) (ok : Bool) :
    cowPageTrackerPut (cowPageTrackerGet trackers phys ok) phys = trackers := by
  have hne : phys ≠ 0 := fun h0 => h.pos (h0 ▸ hphys)
  have hpos : 0 < l.count phys := count_pos_iff.mpr hphys
  have hle : l.count phys ≤ l.length := count_le_length
  have hfits := h.fits
  have hback : min (trackers phys + 1) (2 ^ 32 - 1) - 1 = trackers phys := by
    rw [h.count]
    omega
  rw [cowPageTrackerGet, if_neg (by simp [hne, h.count, hpos.ne']), cowPageTrackerPut, if_neg hne,
    update_self, update_idem, hback, update_eq_self]

lemma Counts.puts (h : Counts trackers (l ++ rest) room) :
    Counts (l.foldl cowPageTrackerPut trackers) rest room := by
  induction l generalizing trackers with
  | nil => exact h
  | cons phys l ih => exact ih h.put

/-- The walk counts the pages that it records, whether or not it gets to its end. -/
lemma walkUserHalf_counts {t : Target} (htracks : ∀ n, t.tracks n) {ptes : List (ℕ × Pte)}
    (hptes : ∀ e ∈ ptes, e.2.phys ≠ 0) {te : TaskEntry}
    (h : Counts trackers (rest ++ te.pages.map (·.phys)) (ptes.length + room)) :
    Counts (walkUserHalf t ptes te trackers).2.2
      (rest ++ (walkUserHalf t ptes te trackers).2.1.pages.map (·.phys)) room := by
  induction ptes generalizing te trackers with
  | nil => exact h.less
  | cons e ptes ih =>
  have hmore := fun e he => hptes e (mem_cons_of_mem _ he)
  rw [length_cons, Nat.add_comm ptes.length, Nat.add_assoc] at h
  rw [walkUserHalf]
  split_ifs
  · exact ih hmore h.less
  cases pagesGrow te (t.grows te.pages.length) with
  | none => exact h.less.less
  | some cap =>
    have hget := h.get (hptes e mem_cons_self)
    rw [← htracks te.pages.length] at hget
    refine ih hmore (hget.perm ?_)
    rw [map_append, ← append_assoc]
    exact (perm_append_singleton _ _).symm

lemma runCapture_counts {targets : List Target} {tasks : List TaskEntry}
    (hfair : ∀ t ∈ targets, (∀ n, t.tracks n) ∧ ∀ e ∈ t.ptes, e.2.phys ≠ 0)
    (h : Counts trackers (rest ++ frames tasks) ((targets.map (·.ptes.length)).sum + room)) :
    Counts (runCapture targets tasks trackers).2.2
      (rest ++ frames (runCapture targets tasks trackers).2.1) room := by
  induction targets generalizing tasks trackers with
  | nil => exact h.less
  | cons t targets ih =>
  obtain ⟨htracks, hptes⟩ := hfair t mem_cons_self
  rw [map_cons, sum_cons, Nat.add_assoc] at h
  rw [runCapture]
  split_ifs
  · exact h.less.less
  have hcounts := @walkUserHalf_counts trackers (rest ++ frames tasks) _ t htracks _ hptes
    ⟨t.pid, [], 0⟩ (by rwa [map_nil, append_nil])
  generalize walkUserHalf t t.ptes ⟨t.pid, [], 0⟩ trackers = r at hcounts
  obtain ⟨ok, te, trackers'⟩ := r
  have hframes : frames (tasks ++ [te]) = frames tasks ++ te.pages.map (·.phys) := by
    simp [frames]
  rw [append_assoc, ← hframes] at hcounts
  dsimp only
  split_ifs
  · exact ih (fun t ht => hfair t (mem_cons_of_mem _ ht)) hcounts
  · exact hcounts.less

end Counting

lemma frames_append (tasks more : List TaskEntry) :
    frames (tasks ++ more) = frames tasks ++ frames more := flatMap_append

lemma frames_eraseIdx (snaps : List (List TaskEntry)) (i : ℕ) :
    (frames snaps.flatten).Perm
      (frames (snaps.getD i []) ++ frames (snaps.eraseIdx i).flatten) := by
  rw [← frames_append]
  refine List.Perm.flatMap_right _ ?_
  by_cases hi : i < snaps.length
  · rw [getD_eq_getElem _ _ hi]
    exact (getElem_cons_eraseIdx_perm hi).symm.flatten
  · rw [getD_eq_default _ _ (not_lt.mp hi), eraseIdx_of_length_le (not_lt.mp hi)]
    rfl

lemma step_counts (w : World) (op : Op) (h : Counts w.trackers (frames w.snaps.flatten) 1)
    (hfair : Fair w op) : Counts (step w op).trackers (frames (step w op).snaps.flatten) 1 := by
  cases op with
  | create ok targets =>
    have hroom : Counts w.trackers (frames w.snaps.flatten ++ frames [])
        ((targets.map (·.ptes.length)).sum + 1) := by
      rw [show frames [] = [] from rfl, append_nil]
      exact { h with fits := hfair.2 }
    have hcounts := (runCapture_counts hfair.1 hroom).perm perm_append_comm
    unfold step
    dsimp only
    split_ifs
    · exact h
    · rwa [flatten_cons, frames_append]
    · exact hcounts.puts
  | restore i live skipPageVa tracks maps =>
    have hcounts := h.perm (frames_eraseIdx w.snaps i)
    -- no page is mapped again, so the loops leave the trackers alone
    have hsame : (step w (.restore i live skipPageVa tracks maps)).trackers = w.trackers := by
      refine foldlRecOn (motive := (· = w.trackers)) _ _ rfl fun _ heq te hte => ?_
      split
      · exact heq
      next ptes hlive =>
      refine foldlRecOn (motive := (· = w.trackers)) _ _ heq fun _ heq cap hcap => ?_
      have hmem : cap.phys ∈ frames (w.snaps.getD i []) :=
        mem_flatMap.mpr ⟨te, hte, mem_map_of_mem hcap⟩
      have hlive' : live te.pid = some ptes := by
        split_ifs at hlive
        exact hlive
      rw [restorePage, heq]
      split_ifs with hskip hmaps
      · rfl
      · rcases hfair te hte ptes hlive' cap hcap with hsame | hsame | hfails
        · exact absurd (.inr (.inr hsame)) hskip
        · exact absurd (.inr (.inl hsame)) hskip
        · exact absurd hmaps (by simp [hfails])
      · exact hcounts.get_put (mem_append_left _ hmem) _
    rw [hsame]
    exact h
  | delete i => exact (h.perm (frames_eraseIdx _ _)).puts
  | fault isWrite isPresent pte copied => exact h

/-- No snapshot has been taken. -/
def start : World := ⟨fun _ => 0, []⟩

/-- The tracker of a frame counts the captured pages that name it, and is gone with them. -/
theorem trackers_eq_count {ops : List Op} (hops : Guarded step Fair start ops) :
    (∀ f, (run step start ops).trackers f = (frames (run step start ops).snaps.flatten).count f) ∧
      ((run step start ops).snaps = [] → ∀ f, (run step start ops).trackers f = 0) := by
  have h := invariant_run (fun w => Counts w.trackers (frames w.snaps.flatten) 1) step_counts
    ⟨fun _ => rfl, List.not_mem_nil, by decide⟩ hops
  exact ⟨h.count, fun hnil f => by rw [h.count, hnil]; rfl⟩

/-- A task with one page is captured. -/
def capture : Op := .create true [⟨1, [(4096, ⟨8192, ⟨true, true, false, false, true⟩⟩)],
  fun _ => true, fun _ => true, true, true⟩]

theorem trackers_after_capture : (run step start [capture]).trackers 8192 = 1 := by
  have hfair : Fair start capture := ⟨by simp, by decide⟩
  exact (@trackers_eq_count [capture] ⟨hfair, trivial⟩).1 8192

/-- The task stores to the page and is restored. The tracker outlives the snapshot. -/
theorem tracker_remains : let w := run step start [capture,
      .fault true true (some ⟨8192, ⟨false, true, false, false, true⟩⟩) true,
      .restore 0 (fun _ => some fun _ => some ⟨12288, ⟨true, true, false, false, true⟩⟩)
        (fun _ => 0) (fun _ _ => true) (fun _ _ => true),
      .delete 0]
    w.snaps = [] ∧ w.trackers 8192 = 1 :=
  ⟨rfl, rfl⟩

end GrahaOS.CowTrackers
