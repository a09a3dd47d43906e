import GrahaOS.OpenFiles
import GrahaOS.References

/-!
# The counts of open files and pipes

`Owed w hand` says that the counts are those of the descriptors and of the references `hand` that
the code has in hand; between two system calls the hand is empty, and each call is a few moves of
references into the hand and out of it. Two calls do not keep the books: a child inherits a file
without a reference to it, and the reaping of a task that was killed leaves its ends of pipes
counted.
-/

namespace GrahaOS.OpenFiles

open References Runs Function World List

def Pipe.count (p : Pipe) : PipeEnd → ℕ
  | .read => p.readers
  | .write => p.writers

def World.count (w : World) : Target → ℕ
  | .file i => (w.files i).refcount
  | .pipe i e => (w.pipes i).count e

/-- What each descriptor of each task names. -/
def naming (w : World) : TaskId × FdIndex → Option Target := fun a => (w.fd a.1 a.2).target

/-- An entry is in use as long as it is counted. -/
structure InUse (w : World) : Prop where
  files : ∀ i, (w.files i).inUse = true ↔ 0 < (w.files i).refcount
  pipes : ∀ i, (w.pipes i).inUse = true ↔ 0 < (w.pipes i).readers ∨ 0 < (w.pipes i).writers

/-- One more reference does not wrap the count around. -/
def Fits (w : World) (n : ℕ) : Target → Prop
  | .file _ => True
  | .pipe i e => (w.pipes i).count e + n < byteRange

section Counts

variable {w : World} {k : Target} {i : Fin maxPipes} {p : Pipe} {e : PipeEnd} {file : OpenFile}
  {n : ℕ}

variable (h : InUse w)
include h

lemma InUse.setFile {i : Fin maxOpenFiles} (hfile : file.inUse = true ↔ 0 < file.refcount)
    : InUse (w.setFile i file) := by
  refine ⟨fun j => ?_, h.pipes⟩
  by_cases hj : j = i
  · subst hj
    simpa [World.setFile] using hfile
  · simpa [World.setFile, hj] using h.files j

lemma InUse.setPipe (hp : p.inUse = true ↔ 0 < p.readers ∨ 0 < p.writers) :
    InUse (w.setPipe i p) := by
  refine ⟨h.files, fun j => ?_⟩
  by_cases hj : j = i
  · subst hj
    simpa [World.setPipe] using hp
  · simpa [World.setPipe, hj] using h.pipes j

lemma InUse.of_count (hk : 0 < w.count k) : match k with
    | .file i => (w.files i).inUse = true
    | .pipe i _ => (w.pipes i).inUse = true := by
  cases k with
  | file i => exact (h.files i).mpr hk
  | pipe i e =>
    cases e with
    | read => exact (h.pipes i).mpr (.inl hk)
    | write => exact (h.pipes i).mpr (.inr hk)

omit h

lemma count_setFile {i : Fin maxOpenFiles} (h : file.refcount = n) (k' : Target) :
    (w.setFile i file).count k' = if k' = .file i then n else w.count k' := by
  cases k' with
  | file j =>
    by_cases hj : j = i
    · subst hj
      simp [World.count, setFile, h]
    · simp [World.count, setFile, hj]
  | pipe j e => simp [World.count, setFile]

lemma count_setPipe (h : p.count e = n) (hothers : ∀ e', e' ≠ e → p.count e' = (w.pipes i).count e')
    (k' : Target) : (w.setPipe i p).count k' = if k' = .pipe i e then n else w.count k' := by
  cases k' with
  | file j => simp [World.count, setPipe]
  | pipe j e' =>
    by_cases hj : j = i
    · subst hj
      by_cases he : e' = e
      · subst he
        simp [World.count, setPipe, h]
      · simp [World.count, setPipe, he, hothers e' he]
    · simp [World.count, setPipe, hj]

lemma Pipe.inUse_freeUnused (h : p.inUse = true) :
    p.freeUnused.inUse = true ↔ 0 < p.freeUnused.readers ∨ 0 < p.freeUnused.writers := by
  rw [Pipe.freeUnused]
  by_cases hzero : p.readers = 0 ∧ p.writers = 0
  · rw [if_pos hzero]
    simp [hzero]
  · rw [if_neg hzero]
    simp only [h, true_iff]
    omega

lemma Pipe.count_refDec (p : Pipe) (e e' : PipeEnd) :
    (p.refDec e).freeUnused.count e' = if e' = e then p.count e - 1 else p.count e' := by
  have hfree : (p.refDec e).freeUnused.count e' = (p.refDec e).count e' := by
    rw [Pipe.freeUnused]
    by_cases hzero : (p.refDec e).readers = 0 ∧ (p.refDec e).writers = 0
    · rw [if_pos hzero]
      cases e' <;> rfl
    · rw [if_neg hzero]
  rw [hfree]
  cases e <;> cases e' <;> rfl

lemma Pipe.count_refInc (p : Pipe) (e e' : PipeEnd) :
    (p.refInc e).count e' = if e' = e then (p.count e + 1) % byteRange else p.count e' := by
  cases e <;> cases e' <;> rfl

/-- A reference is given back. -/
structure Dropped (w w' : World) (k : Target) : Prop where
  inUse : InUse w'
  count : ∀ k', w'.count k' + (if k' = k then 1 else 0) = w.count k'
  tasks : w'.tasks = w.tasks
  nextTaskId : w'.nextTaskId = w.nextTaskId

/-- A reference is taken. -/
structure Taken (w w' : World) (k : Target) : Prop where
  inUse : InUse w'
  count : ∀ k', w'.count k' = w.count k' + if k' = k then 1 else 0
  tasks : w'.tasks = w.tasks
  nextTaskId : w'.nextTaskId = w.nextTaskId

include h

lemma dropped_vfsClose {i : Fin maxOpenFiles} (hk : 0 < w.count (.file i)) :
    Dropped w (vfsClose w i) (.file i) := by
  have hpos : 0 < (w.files i).refcount := hk
  have huse : (w.files i).inUse = true := h.of_count hk
  rw [vfsClose, if_pos huse]
  split_ifs with hmany
  · refine ⟨h.setFile ?_, fun k' => ?_, rfl, rfl⟩
    · simp only [huse, true_iff]
      omega
    · rw [count_setFile rfl]
      split_ifs with hk'
      · subst hk'
        exact Nat.sub_add_cancel hpos
      · rfl
  · refine ⟨h.setFile (by simp), fun k' => ?_, rfl, rfl⟩
    rw [count_setFile rfl]
    split_ifs with hk'
    · subst hk'
      show 0 + 1 = (w.files i).refcount
      omega
    · rfl

lemma dropped_pipeRefDec (hk : 0 < w.count (.pipe i e)) :
    Dropped w (pipeRefDec w i e) (.pipe i e) := by
  have hpos : 0 < (w.pipes i).count e := hk
  have huse : (w.pipes i).inUse = true := h.of_count hk
  rw [pipeRefDec, if_pos huse]
  refine ⟨h.setPipe ?_, fun k' => ?_, rfl, rfl⟩
  · exact Pipe.inUse_freeUnused (by cases e <;> exact huse)
  · rw [count_setPipe ((Pipe.count_refDec _ e e).trans (if_pos rfl))
      (fun e' he => (Pipe.count_refDec _ e e').trans (if_neg he))]
    split_ifs with hk'
    · subst hk'
      exact Nat.sub_add_cancel hpos
    · rfl

lemma dropped_refDec (hk : 0 < w.count k) : Dropped w (refDec w k) k := by
  cases k with
  | file i => exact dropped_vfsClose h hk
  | pipe i e => exact dropped_pipeRefDec h hk

lemma taken_pipeRefInc (hk : 0 < w.count (.pipe i e)) (hfits : Fits w 1 (.pipe i e)) :
    Taken w (pipeRefInc w i e) (.pipe i e) := by
  have huse : (w.pipes i).inUse = true := h.of_count hk
  have hfits : (w.pipes i).count e + 1 < byteRange := hfits
  rw [pipeRefInc, if_pos huse]
  refine ⟨h.setPipe ?_, fun k' => ?_, rfl, rfl⟩
  · cases e <;> simp only [Pipe.refInc, Pipe.count, huse, true_iff] at * <;>
      rw [Nat.mod_eq_of_lt hfits] <;> omega
  · rw [count_setPipe ((Pipe.count_refInc _ e e).trans (if_pos rfl))
      (fun e' he => (Pipe.count_refInc _ e e').trans (if_neg he)), Nat.mod_eq_of_lt hfits]
    split_ifs with hk'
    · subst hk'
      rfl
    · rfl

lemma taken_refInc (hk : 0 < w.count k) (hfits : Fits w 1 k) : Taken w (refInc w k) k := by
  cases k with
  | file i =>
    have huse : (w.files i).inUse = true := h.of_count hk
    rw [refInc, vfsRefInc, if_pos huse]
    refine ⟨h.setFile (by simp [huse]), fun k' => ?_, rfl, rfl⟩
    rw [count_setFile rfl]
    split_ifs with hk'
    · subst hk'
      rfl
    · rfl
  | pipe i e => exact taken_pipeRefInc h hk hfits

end Counts

/-- The counts are those of the descriptors and of the references in hand. -/
structure Owed (w : World) (hand : List Target) : Prop where
  inUse : InUse w
  finite : FinitelyMany (naming w)
  count : ∀ k, w.count k = refs (naming w) k + hand.count k
  fresh : ∀ t, w.nextTaskId ≤ t → w.tasks t = none

section Hand

variable {w w' : World} {k : Target} {hand : List Target} {t s : TaskId} {f g : FdIndex}
  {d : ProcFd}

lemma naming_congr (h : w'.tasks = w.tasks) : naming w' = naming w := by
  funext a
  simp only [naming, fd, h]

lemma naming_setFd (ht : (w.tasks t).isSome) :
    naming (w.setFd t f d) = update (naming w) (t, f) d.target := by
  obtain ⟨x, hx⟩ := Option.isSome_iff_exists.mp ht
  funext ⟨s, g⟩
  by_cases hs : s = t
  · subst hs
    by_cases hg : g = f
    · subst hg
      simp [naming, fd, setFd, setTask, hx]
    · simp [naming, fd, setFd, setTask, hx, hg]
  · simp [naming, fd, setFd, setTask, hs]

lemma isSome_setFd : ((w.setFd t f d).tasks s).isSome = (w.tasks s).isSome := by
  by_cases hs : s = t
  · subst hs
    simp [setFd, setTask]
  · simp [setFd, setTask, hs]

lemma fd_setFd_self (ht : (w.tasks t).isSome) : (w.setFd t f d).fd t f = d := by
  obtain ⟨x, hx⟩ := Option.isSome_iff_exists.mp ht
  simp [fd, setFd, setTask, hx]

lemma fd_setFd_of_ne (hg : g ≠ f) : (w.setFd t f d).fd t g = w.fd t g := by
  cases hx : w.tasks t <;> simp [fd, setFd, setTask, hx, hg]

lemma isSome_of_fd (h : w.fd t f ≠ .unused) : (w.tasks t).isSome := by
  cases hx : w.tasks t with
  | none => exact absurd (by simp [fd, hx]) h
  | some x => rfl

lemma Owed.setTables (h : Owed w hand) {hand' : List Target} (huse : InUse w')
    (htasks : w'.tasks = w.tasks) (hnext : w'.nextTaskId = w.nextTaskId)
    (hcount : ∀ k, w'.count k + hand.count k = w.count k + hand'.count k) : Owed w' hand' := by
  refine ⟨huse, by rw [naming_congr htasks]; exact h.finite, fun k => ?_, fun t ht => ?_⟩
  · have hold := h.count k
    have hnew := hcount k
    rw [naming_congr htasks]
    omega
  · rw [htasks]
    exact h.fresh t (hnext ▸ ht)

lemma count_cons_eq (k' : Target) :
    (k :: hand).count k' = hand.count k' + if k' = k then 1 else 0 := by
  simp only [count_cons, beq_iff_eq, eq_comm (a := k)]

lemma Owed.drop (h : Owed w (k :: hand)) (hw : Dropped w w' k) : Owed w' hand := by
  refine h.setTables hw.inUse hw.tasks hw.nextTaskId fun k' => ?_
  have := hw.count k'
  rw [count_cons_eq]
  omega

variable (h : Owed w hand)
include h

lemma Owed.take (hw : Taken w w' k) : Owed w' (k :: hand) := by
  refine h.setTables hw.inUse hw.tasks hw.nextTaskId fun k' => ?_
  have := hw.count k'
  rw [count_cons_eq]
  omega

lemma Owed.count_pos_of_fd (hd : w.fd t f = .open k) : 0 < w.count k := by
  have hpos : 0 < refs (naming w) k :=
    (refs_pos_iff h.finite).mpr ⟨(t, f), by simp [naming, hd, ProcFd.target]⟩
  rw [h.count]
  omega

omit h

lemma Owed.refDec (h : Owed w (k :: hand)) : Owed (refDec w k) hand := by
  refine h.drop (dropped_refDec h.inUse ?_)
  rw [h.count, count_cons_self]
  omega

include h

lemma fresh_setFd : ∀ s, (w.setFd t f d).nextTaskId ≤ s → (w.setFd t f d).tasks s = none := by
  intro s hs
  have hnone := h.fresh s hs
  rw [← Option.not_isSome_iff_eq_none, isSome_setFd, hnone]
  simp

lemma Owed.setFd {hand' : List Target} (ht : (w.tasks t).isSome)
    (hcount : ∀ k, refs (update (naming w) (t, f) d.target) k + hand'.count k =
      refs (naming w) k + hand.count k) : Owed (w.setFd t f d) hand' := by
  refine ⟨⟨h.inUse.files, h.inUse.pipes⟩, ?_, fun k => ?_, fresh_setFd h⟩
  · rw [naming_setFd ht]
    exact h.finite.update _ _
  · rw [naming_setFd ht, hcount]
    exact h.count k

omit h

lemma Owed.give (h : Owed w (k :: hand)) (ht : (w.tasks t).isSome)
    (hd : (w.fd t f).target = none) : Owed (w.setFd t f (.open k)) hand := by
  have hfree : naming w (t, f) = none := hd
  refine h.setFd ht fun k' => ?_
  rw [ProcFd.target, refs_take h.finite hfree, count_cons_eq]
  omega

include h

lemma Owed.get (hd : w.fd t f = .open k) (hnew : d.target = none) :
    Owed (w.setFd t f d) (k :: hand) := by
  have hheld : naming w (t, f) = some k := by simp [naming, hd, ProcFd.target]
  refine h.setFd (isSome_of_fd (by rw [hd]; exact ProcFd.noConfusion)) fun k' => ?_
  have hdrop := refs_drop h.finite hheld k'
  rw [hnew, count_cons_eq]
  omega

lemma Owed.blank (ht : (w.tasks t).isSome) (hold : (w.fd t f).target = none)
    (hnew : d.target = none) : Owed (w.setFd t f d) hand := by
  refine h.setFd ht fun k' => ?_
  have hfree : naming w (t, f) = none := hold
  rw [hnew, ← hfree, update_eq_self]

omit h

lemma Dropped.setFd (h : Dropped w w' k) : Dropped (w.setFd t f d) (w'.setFd t f d) k := by
  refine ⟨⟨h.inUse.files, h.inUse.pipes⟩, h.count, ?_, h.nextTaskId⟩
  simp only [World.setFd, setTask, h.tasks]

include h

lemma Owed.closeFd (ht : (w.tasks t).isSome) (hnew : d.target = none) :
    Owed ((releaseFd w (w.fd t f)).setFd t f d) hand := by
  cases hd : w.fd t f with
  | «open» k => exact (h.get hd hnew).drop (dropped_refDec h.inUse (h.count_pos_of_fd hd)).setFd
  | unused => exact h.blank ht (by rw [hd]; rfl) hnew
  | console => exact h.blank ht (by rw [hd]; rfl) hnew

/-- A copy is stored in a place that names nothing, and what it names is counted once more. -/
lemma Owed.copyFd (ht : (w.tasks t).isSome) (htaken : Taken (w.setFd t f (.open k)) w' k)
    (hold : (w.fd t f).target = none) :
    Owed w' hand := by
  have hnaming : naming w' = update (naming w) (t, f) (some k) :=
    (naming_congr htaken.tasks).trans (naming_setFd ht)
  have hfree : naming w (t, f) = none := hold
  refine ⟨htaken.inUse, ?_, fun k' => ?_, fun s hs => ?_⟩
  · rw [hnaming]
    exact h.finite.update _ _
  · have hcount : w'.count k' = w.count k' + _ := htaken.count k'
    rw [hcount, hnaming, refs_take h.finite hfree, h.count]
    omega
  · rw [htaken.tasks]
    exact fresh_setFd h s (htaken.nextTaskId ▸ hs)

omit h

lemma inUse_setFd (h : InUse w) : InUse (w.setFd t f d) := ⟨h.files, h.pipes⟩

lemma Owed.storeCopy (h : Owed w hand) (ht : (w.tasks t).isSome)
    (hold : (w.fd t f).target = none) (hpos : ∀ k, d = .open k → 0 < w.count k)
    (hfits : ∀ k, d = .open k → Fits w 1 k) : Owed (storeCopy w t f d) hand := by
  cases d with
  | «open» k =>
    refine h.copyFd ht (taken_refInc (inUse_setFd h.inUse) (hpos k rfl) ?_) hold
    have hfits := hfits k rfl
    cases k <;> exact hfits
  | unused => exact h.blank ht hold rfl
  | console => exact h.blank ht hold rfl

lemma setFd_setFd {d' : ProcFd} : (w.setFd t f d).setFd t f d' = w.setFd t f d' := by
  simp only [setFd, setTask, update_self, update_idem, Option.map_map]
  congr 2
  refine congrArg (fun g => Option.map g (w.tasks t)) (funext fun x => ?_)
  simp

end Hand

section Calls

variable {w w' : World} {t : TaskId} {f g : FdIndex} {hand : List Target}

lemma owed_vfsOpen (h : Owed w hand) {i : Fin maxOpenFiles} (hopen : vfsOpen w = (w', some i)) :
    Owed w' (.file i :: hand) ∧ w'.tasks = w.tasks := by
  rw [vfsOpen] at hopen
  split at hopen
  · cases hopen
  rename_i j hj
  obtain ⟨rfl, rfl⟩ := Prod.mk.inj hopen |>.imp_right Option.some.inj
  have hfree : (w.files j).inUse = false := by simpa using List.find?_some hj
  have hzero : w.count (.file j) = 0 := by
    by_contra hne
    have huse : (w.files j).inUse = true := h.inUse.of_count (Nat.pos_of_ne_zero hne)
    rw [hfree] at huse
    cases huse
  refine ⟨h.take ⟨h.inUse.setFile (by simp), fun k' => ?_, rfl, rfl⟩, rfl⟩
  rw [count_setFile rfl]
  split_ifs with hk'
  · rw [hk', hzero]
  · rfl

lemma owed_pipeAlloc (h : Owed w []) {created : Bool} {i : Fin maxPipes}
    (halloc : pipeAlloc w created = (w', some i)) :
    Owed w' [.pipe i .read, .pipe i .write] ∧ w'.tasks = w.tasks := by
  rw [pipeAlloc] at halloc
  split at halloc
  · cases halloc
  rename_i j hj
  split_ifs at halloc
  · obtain ⟨rfl, rfl⟩ := Prod.mk.inj halloc |>.imp_right Option.some.inj
    have hfree : (w.pipes j).inUse = false := by simpa using List.find?_some hj
    have hzero : ∀ e, w.count (.pipe j e) = 0 := by
      intro e
      by_contra hne
      have huse : (w.pipes j).inUse = true := h.inUse.of_count (Nat.pos_of_ne_zero hne)
      rw [hfree] at huse
      cases huse
    refine ⟨h.setTables (h.inUse.setPipe (by simp)) rfl rfl fun k => ?_, rfl⟩
    cases k with
    | file i => simp [World.count, setPipe]
    | pipe i e =>
      have hij := hzero e
      by_cases hi : i = j
      · subst hi
        rw [hij]
        cases e <;> simp [World.count, setPipe, Pipe.count]
      · simp [World.count, setPipe, hi, Ne.symm hi]
  · cases halloc

lemma target_of_mem_freeFds {x : Task} (hx : w.tasks t = some x) (hf : f ∈ freeFds x) :
    (w.fd t f).target = none := by
  have hunused : x.fdTable f = .unused := by simpa [freeFds] using hf
  rw [fd, hx]
  dsimp only
  rw [hunused]
  rfl

variable (h : Owed w [])
include h

lemma owed_sysOpen (found : Bool) : Owed (sysOpen w t found) [] := by
  rw [sysOpen]
  split
  · exact h
  rename_i x hx
  split_ifs
  · split
    · rename_i w' hopen
      have hsame : w' = w := by
        rw [vfsOpen] at hopen
        split at hopen
        · exact (Prod.mk.inj hopen).1.symm
        · cases hopen
      exact hsame ▸ h
    · rename_i w' i hopen
      obtain ⟨howed, htasks⟩ := owed_vfsOpen h hopen
      have hx' : w'.tasks t = some x := htasks ▸ hx
      split
      · exact howed.refDec
      · rename_i f fs hfree
        have hf : f ∈ freeFds x := by simp [hfree]
        exact howed.give (by simp [hx']) (target_of_mem_freeFds hx' hf)
  · exact h

lemma owed_sysPipe (created : Bool) : Owed (sysPipe w t created) [] := by
  rw [sysPipe]
  split
  · exact h
  rename_i x hx
  split
  · rename_i w' halloc
    have hsame : w' = w := by
      rw [pipeAlloc] at halloc
      split at halloc
      · exact (Prod.mk.inj halloc).1.symm
      · split_ifs at halloc
        · cases halloc
        · exact (Prod.mk.inj halloc).1.symm
    exact hsame ▸ h
  · rename_i w' i halloc
    obtain ⟨howed, htasks⟩ := owed_pipeAlloc h halloc
    have hx' : w'.tasks t = some x := htasks ▸ hx
    split
    · rename_i readFd writeFd fs hfree
      have hread : readFd ∈ freeFds x := by simp [hfree]
      have hwrite : writeFd ∈ freeFds x := by simp [hfree]
      have hne : writeFd ≠ readFd := by
        have hnodup : (freeFds x).Nodup := (nodup_finRange _).filter _
        rw [hfree] at hnodup
        intro heq
        subst heq
        simp at hnodup
      refine (howed.give (by simp [hx']) (target_of_mem_freeFds hx' hread)).give ?_ ?_
      · rw [isSome_setFd, hx']
        rfl
      · rw [fd_setFd_of_ne hne]
        exact target_of_mem_freeFds hx' hwrite
    · exact Owed.refDec (Owed.refDec howed)

lemma owed_sysClose : Owed (sysClose w t f) [] := by
  rw [sysClose]
  split
  · rename_i k hd
    rw [← hd]
    exact h.closeFd (isSome_of_fd (by rw [hd]; exact ProcFd.noConfusion)) rfl
  · exact h

lemma owed_sysDup (hfits : ∀ k, w.fd t f = .open k → Fits w 1 k) : Owed (sysDup w t f) [] := by
  rw [sysDup]
  split
  · exact h
  rename_i x hx
  have hfd : w.fd t f = x.fdTable f := by rw [fd, hx]
  split_ifs
  · exact h
  split
  · exact h
  rename_i g gs hfree
  rw [← hfd]
  exact h.storeCopy (by simp [hx]) (target_of_mem_freeFds hx (by simp [hfree]))
    (fun k hk => h.count_pos_of_fd hk) hfits

omit h

lemma count_releaseFd_le (h : Owed w hand) (k : Target) :
    (releaseFd w (w.fd t g)).count k ≤ w.count k := by
  cases hd : w.fd t g with
  | «open» k' =>
    have := (dropped_refDec h.inUse (h.count_pos_of_fd hd)).count k
    rw [releaseFd]
    omega
  | unused => exact le_rfl
  | console => exact le_rfl

lemma Fits.mono {n n' : ℕ} {k : Target} (h : Fits w n k)
    (hcount : w'.count k + n' ≤ w.count k + n) : Fits w' n' k := by
  cases k with
  | file i => trivial
  | pipe i e => exact lt_of_le_of_lt hcount h

lemma tasks_releaseFd (h : Owed w hand) : (releaseFd w (w.fd t g)).tasks = w.tasks := by
  cases hd : w.fd t g with
  | «open» k' => exact (dropped_refDec h.inUse (h.count_pos_of_fd hd)).tasks
  | unused => rfl
  | console => rfl

include h

/-- The place that `SYS_DUP2` overwrites is closed first; the descriptor that is copied still has
its own reference then. -/
lemma owed_sysDup2 {newFd : FdIndex} (hfits : ∀ k, w.fd t f = .open k → Fits w 1 k)
    : Owed (sysDup2 w t f newFd) [] := by
  rw [sysDup2]
  split_ifs with hno
  · exact h
  obtain ⟨hused, hne⟩ := not_or.mp hno
  have ht : (w.tasks t).isSome := isSome_of_fd hused
  have htasks := tasks_releaseFd h (t := t) (g := newFd)
  have hclosed := h.closeFd (d := .unused) (f := newFd) ht rfl
  have ht' : (((releaseFd w (w.fd t newFd)).setFd t newFd .unused).tasks t).isSome := by
    rw [isSome_setFd, htasks]
    exact ht
  have hsame : ((releaseFd w (w.fd t newFd)).setFd t newFd .unused).fd t f = w.fd t f := by
    rw [fd_setFd_of_ne hne, fd, htasks]
    rfl
  have hcopy := hclosed.storeCopy ht'
    (by rw [fd_setFd_self (by rw [htasks]; exact ht)]; rfl)
    (fun k hk => hclosed.count_pos_of_fd (hsame.trans hk))
    (fun k hk => (hfits k hk).mono (Nat.add_le_add_right (count_releaseFd_le h k) 1))
  have hover : storeCopy ((releaseFd w (w.fd t newFd)).setFd t newFd .unused) t newFd (w.fd t f)
      = storeCopy (releaseFd w (w.fd t newFd)) t newFd (w.fd t f) := by
    cases w.fd t f <;> simp only [storeCopy, setFd_setFd]
  exact hover ▸ hcopy

end Calls

section Tasks

variable {w : World} {t : TaskId} {hand : List Target}

lemma Owed.setTask (h : Owed w hand) {x : Option Task} {n : TaskId}
    (hsame : ∀ f, ((match x with | none => .unused | some y => y.fdTable f : ProcFd)).target =
      (w.fd t f).target)
    (hfresh : ∀ s, n ≤ s → update w.tasks t x s = none) :
    Owed { w.setTask t x with nextTaskId := n } hand := by
  have hnaming : naming { w.setTask t x with nextTaskId := n } = naming w := by
    funext ⟨s, g⟩
    by_cases hs : s = t
    · subst hs
      have := hsame g
      cases x <;> simpa [naming, fd, World.setTask] using this
    · simp [naming, fd, World.setTask, hs]
  exact ⟨⟨h.inUse.files, h.inUse.pipes⟩, by rw [hnaming]; exact h.finite,
    fun k => by rw [hnaming]; exact h.count k, hfresh⟩

lemma owed_kill (h : Owed w hand) : Owed (kill w t) hand := by
  refine h.setTask (fun f => ?_) (fun s hs => ?_)
  · cases hx : w.tasks t <;> simp [fd, hx]
  · have hnone := h.fresh s hs
    by_cases hst : s = t
    · subst hst
      simp [hnone]
    · simp [hst, hnone]

lemma owed_exitFds (fs : List FdIndex) (h : Owed w hand) (ht : (w.tasks t).isSome) :
    Owed (fs.foldl (exitFd t) w) hand := by
  induction fs generalizing w with
  | nil => exact h
  | cons f fs ih =>
    refine ih (h.closeFd ht rfl) ?_
    rw [exitFd, isSome_setFd, tasks_releaseFd h]
    exact ht

lemma owed_sysExit (h : Owed w []) : Owed (sysExit w t) [] := by
  rw [sysExit]
  split
  · exact h
  rename_i x hx
  split_ifs
  · exact h
  · exact owed_kill (owed_exitFds _ h (by simp [hx]))

lemma fd_reapFd (h : Owed w hand) {f g : FdIndex} (ht : (w.tasks t).isSome) :
    (reapFd t w f).fd t g =
      if g = f ∧ ∃ i, w.fd t f = .open (.file i) then .unused else w.fd t g := by
  rw [reapFd]
  split
  · rename_i i hd
    have htasks := (dropped_vfsClose h.inUse (h.count_pos_of_fd hd)).tasks
    by_cases hg : g = f
    · subst hg
      rw [if_pos ⟨rfl, i, hd⟩]
      exact fd_setFd_self (by rw [htasks]; exact ht)
    · rw [if_neg (fun hh => hg hh.1), fd_setFd_of_ne hg, fd, htasks]
      rfl
  · rename_i hnone
    rw [if_neg]
    rintro ⟨-, i, hd⟩
    exact hnone i hd

lemma owed_reapFd (h : Owed w hand) {f : FdIndex} (ht : (w.tasks t).isSome) :
    Owed (reapFd t w f) hand ∧ ((reapFd t w f).tasks t).isSome := by
  rw [reapFd]
  split
  · rename_i i hd
    have hdropped := dropped_vfsClose h.inUse (h.count_pos_of_fd hd)
    refine ⟨(h.get hd rfl).drop hdropped.setFd, ?_⟩
    rw [isSome_setFd, hdropped.tasks]
    exact ht
  · exact ⟨h, ht⟩

/-- After the loop the table names nothing, where no descriptor names an end of a pipe. -/
lemma owed_reapFds (fs : List FdIndex) (h : Owed w hand) (ht : (w.tasks t).isSome)
    (hpipes : ∀ f, (w.fd t f).isPipe = false) (hdone : ∀ f, f ∉ fs → (w.fd t f).target = none) :
    Owed (fs.foldl (reapFd t) w) hand ∧
      ∀ f, ((fs.foldl (reapFd t) w).fd t f).target = none := by
  induction fs generalizing w with
  | nil => exact ⟨h, fun f => hdone f not_mem_nil⟩
  | cons g fs ih =>
  obtain ⟨howed, hsome⟩ := owed_reapFd h ht
  refine ih howed hsome (fun f => ?_) (fun f hf => ?_)
  · rw [fd_reapFd h ht]
    split_ifs
    · rfl
    · exact hpipes f
  · rw [fd_reapFd h ht]
    split_ifs with hfile
    · rfl
    by_cases hfg : f = g
    · subst hfg
      cases hd : w.fd t f with
      | unused => rfl
      | console => rfl
      | «open» k =>
        cases k with
        | file i => exact absurd ⟨rfl, i, hd⟩ hfile
        | pipe i e =>
          have hpipe := hpipes f
          rw [hd] at hpipe
          cases hpipe
    · exact hdone f (by simp [hfg, hf])

lemma owed_schedReapZombie (h : Owed w []) (hpipes : ∀ f, (w.fd t f).isPipe = false) :
    Owed (schedReapZombie w t) [] := by
  rw [schedReapZombie]
  split
  · exact h
  rename_i x hx
  split_ifs
  · obtain ⟨howed, hnone⟩ := owed_reapFds (List.finRange procMaxFds) h (by simp [hx]) hpipes
      (fun f hf => absurd (mem_finRange f) hf)
    refine howed.setTask (fun f => (hnone f).symm) (fun s hs => ?_)
    have hfresh := howed.fresh s hs
    by_cases hst : s = t
    · simp [hst]
    · simp [hst, hfresh]
  · exact h

/-- The references that a child inherits, in the order in which it does. -/
def inherited (w : World) (parent : TaskId) (fs : List FdIndex) : List Target :=
  fs.filterMap fun f => (w.fd parent f).target

/-- The child has a reference to each pipe that it inherits, and inherits no file. -/
lemma owed_inheritFds {parent child : TaskId} (hne : parent ≠ child) (fs : List FdIndex)
    (hnodup : fs.Nodup) (h : Owed w hand) (ht : (w.tasks child).isSome)
    (hblank : ∀ f ∈ fs, (w.fd child f).target = none)
    (hfiles : ∀ f ∈ fs, (w.fd parent f).isFile = false)
    (hfits : ∀ k ∈ inherited w parent fs, Fits w ((inherited w parent fs).count k) k) :
    Owed (fs.foldl (inheritFd parent child) w) hand := by
  induction fs generalizing w with
  | nil => exact h
  | cons f fs ih =>
  obtain ⟨hf, hnodup⟩ := nodup_cons.mp hnodup
  have hself := hblank f mem_cons_self
  have hnef : ∀ g ∈ fs, g ≠ f := fun g hg heq => hf (heq ▸ hg)
  -- a turn that writes the descriptor `d` of the child, and counts at most what it names
  have hturn : ∀ {w' : World} {d : ProcFd}, w'.tasks = (w.setFd child f d).tasks →
      Owed w' hand →
      (∀ k ∈ inherited w parent fs, Fits w' ((inherited w parent fs).count k) k) →
      Owed (fs.foldl (inheritFd parent child) w') hand := by
    intro w' d htasks howed hfits'
    have hparent : ∀ g, w'.fd parent g = w.fd parent g := by
      intro g
      simp [fd, htasks, setFd, setTask, hne]
    have hsame : inherited w' parent fs = inherited w parent fs := by
      simp only [inherited, hparent]
    refine ih hnodup howed ?_ (fun g hg => ?_) (fun g hg => ?_) (by rw [hsame]; exact hfits')
    · rw [htasks, isSome_setFd]
      exact ht
    · have hother : w'.fd child g = w.fd child g := by
        rw [fd, htasks]
        exact fd_setFd_of_ne (hnef g hg)
      rw [hother]
      exact hblank g (mem_cons_of_mem _ hg)
    · rw [hparent]
      exact hfiles g (mem_cons_of_mem _ hg)
  rw [foldl_cons, inheritFd]
  cases hd : w.fd parent f with
  | unused =>
    have hrest : inherited w parent (f :: fs) = inherited w parent fs := by
      simp [inherited, hd, ProcFd.target]
    exact ih hnodup h ht (fun g hg => hblank g (mem_cons_of_mem _ hg))
      (fun g hg => hfiles g (mem_cons_of_mem _ hg)) (hrest ▸ hfits)
  | console =>
    have hrest : inherited w parent (f :: fs) = inherited w parent fs := by
      simp [inherited, hd, ProcFd.target]
    refine hturn rfl (h.blank ht hself rfl) fun k hk => ?_
    exact (hrest ▸ hfits k (hrest ▸ hk)).mono le_rfl
  | «open» k =>
    cases k with
    | file i =>
      have hfile := hfiles f mem_cons_self
      rw [hd] at hfile
      cases hfile
    | pipe i e =>
    have hrest : inherited w parent (f :: fs) = .pipe i e :: inherited w parent fs := by
      simp [inherited, hd, ProcFd.target]
    rw [hrest] at hfits
    have hfit : Fits (w.setFd child f (.open (.pipe i e))) 1 (.pipe i e) := by
      refine (hfits _ mem_cons_self).mono (Nat.add_le_add_left ?_ _)
      rw [count_cons_self]
      omega
    have htaken := taken_pipeRefInc (inUse_setFd h.inUse) (h.count_pos_of_fd hd) hfit
    refine hturn htaken.tasks (h.copyFd ht htaken hself) fun k hk => ?_
    refine (hfits k (mem_cons_of_mem _ hk)).mono ?_
    have hcount : _ = w.count k + _ := htaken.count k
    rw [hcount, count_cons_eq]
    omega

lemma target_freshTable (f : FdIndex) : (freshTable f).target = none := by
  rw [freshTable]
  split_ifs <;> rfl

lemma owed_schedSpawnProcess (h : Owed w []) {parent : Option TaskId} {loaded : Bool}
    (hfiles : ∀ p, parent = some p → ∀ f ∈ stdFds, (w.fd p f).isFile = false)
    (hfits : ∀ p, parent = some p → ∀ k ∈ inherited w p stdFds,
      Fits w ((inherited w p stdFds).count k) k) :
    Owed (schedSpawnProcess w parent loaded) [] := by
  rw [schedSpawnProcess]
  split_ifs
  · have hnew : Owed { w.setTask w.nextTaskId (some { fdTable := freshTable }) with
        nextTaskId := w.nextTaskId + 1 } [] := by
      refine h.setTask (fun f => ?_) (fun s hs => ?_)
      · rw [fd, h.fresh _ le_rfl]
        exact target_freshTable f
      · have hfresh := h.fresh s (Nat.le_of_succ_le hs)
        have hst : s ≠ w.nextTaskId := (Nat.lt_of_succ_le hs).ne'
        rw [update_of_ne hst]
        exact hfresh
    split
    · exact hnew
    rename_i p
    split_ifs with hp
    · have hne : p ≠ w.nextTaskId := by
        intro heq
        rw [heq, h.fresh _ le_rfl] at hp
        cases hp
      have hparent : ∀ g, fd { w.setTask w.nextTaskId (some { fdTable := freshTable }) with
          nextTaskId := w.nextTaskId + 1 } p g = w.fd p g := by
        intro g
        simp [fd, setTask, hne]
      have hsame : inherited { w.setTask w.nextTaskId (some { fdTable := freshTable }) with
          nextTaskId := w.nextTaskId + 1 } p stdFds = inherited w p stdFds := by
        simp only [inherited, hparent]
      refine owed_inheritFds hne stdFds (by decide) hnew (by simp [setTask])
        (fun f hf => ?_) (fun f hf => ?_) (fun k hk => ?_)
      · simpa [fd, setTask] using target_freshTable f
      · rw [hparent]
        exact hfiles p rfl f hf
      · rw [hsame] at hk ⊢
        exact (hfits p rfl k hk).mono le_rfl
    · exact hnew
  · exact h

end Tasks

/-- A copy of a pipe's descriptor does not wrap its counter around, a child inherits no file, and a
task is reaped when it has no end of a pipe left. -/
def Careful (w : World) : Op → Prop
  | .dup t f | .dup2 t f _ => ∀ k ∈ (w.fd t f).target, Fits w 1 k
  | .spawn (some p) _ =>
    (∀ f ∈ stdFds, (w.fd p f).isFile = false) ∧
      ∀ k ∈ inherited w p stdFds, Fits w ((inherited w p stdFds).count k) k
  | .reap t => ∀ f, (w.fd t f).isPipe = false
  | _ => True

lemma owed_step {w : World} {op : Op} (h : Owed w []) (hop : Careful w op) :
    Owed (step w op) [] := by
  have hcopy : ∀ {t f}, (∀ k ∈ (w.fd t f).target, Fits w 1 k) →
      ∀ k, w.fd t f = .open k → Fits w 1 k := by
    intro t f hall k hk
    exact hall k (by rw [hk]; rfl)
  cases op with
  | openFile t found => exact owed_sysOpen h found
  | pipe t created => exact owed_sysPipe h created
  | close t f => exact owed_sysClose h
  | dup t f => exact owed_sysDup h (hcopy hop)
  | dup2 t f newFd => exact owed_sysDup2 h (hcopy hop)
  | spawn parent loaded =>
    rw [step]
    cases parent with
    | none => exact owed_schedSpawnProcess h (fun p hp => by cases hp) (fun p hp => by cases hp)
    | some p =>
      refine owed_schedSpawnProcess h (fun q hq => ?_) (fun q hq => ?_)
      · cases hq
        exact hop.1
      · cases hq
        exact hop.2
  | exit t => exact owed_sysExit h
  | kill t => exact owed_kill h
  | reap t => exact owed_schedReapZombie h hop

lemma owed_booted : Owed booted [] := by
  have hnaming : naming booted = fun _ => none := rfl
  refine ⟨⟨fun i => by simp [booted], fun i => by simp [booted]⟩, ?_, fun k => ?_, fun t _ => rfl⟩
  · rw [hnaming]
    simp [FinitelyMany]
  · rw [hnaming]
    cases k with
    | file i => simp [World.count, booted, refs]
    | pipe i e => cases e <;> simp [World.count, Pipe.count, booted, refs]

/-- The counts are the numbers of descriptors, and an entry is in use exactly while a descriptor
names it. -/
structure Counted (w : World) : Prop where
  count : ∀ k, w.count k = refs (naming w) k
  files : ∀ i, (w.files i).inUse = true ↔ ∃ t f, w.fd t f = .open (.file i)
  pipes : ∀ i, (w.pipes i).inUse = true ↔ ∃ t f e, w.fd t f = .open (.pipe i e)

lemma Owed.named_iff {w : World} (h : Owed w []) (k : Target) :
    0 < w.count k ↔ ∃ t f, w.fd t f = .open k := by
  have hcount : w.count k = refs (naming w) k := h.count k
  have htarget : ∀ d : ProcFd, d.target = some k ↔ d = .open k := by
    intro d
    cases d <;> simp [ProcFd.target]
  rw [hcount, refs_pos_iff h.finite, Prod.exists]
  simp only [naming, htarget]

lemma Owed.counted {w : World} (h : Owed w []) : Counted w := by
  refine ⟨h.count, fun i => (h.inUse.files i).trans (h.named_iff (.file i)), fun i => ?_⟩
  rw [h.inUse.pipes i]
  constructor
  · rintro (hr | hw)
    · obtain ⟨t, f, hd⟩ := (h.named_iff (.pipe i .read)).mp hr
      exact ⟨t, f, .read, hd⟩
    · obtain ⟨t, f, hd⟩ := (h.named_iff (.pipe i .write)).mp hw
      exact ⟨t, f, .write, hd⟩
  · rintro ⟨t, f, e, hd⟩
    cases e with
    | read => exact .inl (h.count_pos_of_fd hd)
    | write => exact .inr (h.count_pos_of_fd hd)

/-- In every run in which no child inherits a file, no task is reaped with an end of a pipe and no
counter of a pipe wraps around, the counts of open files and pipes are the numbers of descriptors
that name them. -/
theorem open_files_counted {ops : List Op} (hops : Guarded step Careful booted ops) :
    Counted (run step booted ops) :=
  (invariant_run (fun w => Owed w []) (fun _ _ => owed_step) owed_booted hops).counted

instance {w : World} {n : ℕ} : (k : Target) → Decidable (Fits w n k)
  | .file _ => .isTrue trivial
  | .pipe i e => inferInstanceAs (Decidable ((w.pipes i).count e + n < byteRange))

instance {w : World} : (op : Op) → Decidable (Careful w op)
  | .dup t f => inferInstanceAs (Decidable (∀ k ∈ (w.fd t f).target, Fits w 1 k))
  | .dup2 t f _ => inferInstanceAs (Decidable (∀ k ∈ (w.fd t f).target, Fits w 1 k))
  | .spawn (some p) _ => inferInstanceAs (Decidable ((∀ f ∈ stdFds, (w.fd p f).isFile = false) ∧
      ∀ k ∈ inherited w p stdFds, Fits w ((inherited w p stdFds).count k) k))
  | .reap t => inferInstanceAs (Decidable (∀ f, (w.fd t f).isPipe = false))
  | .spawn none _ | .openFile _ _ | .pipe _ _ | .close _ _ | .exit _ | .kill _ => .isTrue trivial

/-- A file and a pipe of a task, the pipe inherited by a child that exits, and a task that is killed
with an open file. -/
def inheritance : List Op :=
  [.spawn none true, .openFile 0 true, .pipe 0 true, .dup2 0 4 0, .spawn (some 0) true, .dup 1 0,
    .exit 1, .reap 1, .spawn none true, .openFile 2 true, .kill 2, .reap 2]

theorem inheritance_counted :
    Guarded step Careful booted inheritance ∧
      ((run step booted inheritance).pipes 0).readers = 2 ∧
      Counted (run step booted inheritance) :=
  ⟨by decide, by decide, open_files_counted (by decide)⟩

/-- The child of a task whose standard input is a file closes its own standard input. -/
def inheritedFile : List Op :=
  [.spawn none true, .openFile 0 true, .dup2 0 3 0, .close 0 3, .spawn (some 0) true, .close 1 0]

/-- The only task is killed with both ends of a pipe. -/
def killedPipe : List Op := [.spawn none true, .pipe 0 true, .kill 0, .reap 0]

/-- A file that a child has inherited is closed while its parent still has a descriptor for it, and
the pipe of a task that was killed stays in use when no task is left. -/
theorem inherited_file_is_closed :
    ((run step booted inheritedFile).fd 0 0 = .open (.file 0) ∧
      ((run step booted inheritedFile).files 0).inUse = false) ∧
    ((run step booted killedPipe).nextTaskId = 1 ∧ ((run step booted killedPipe).tasks 0).isNone ∧
      ((run step booted killedPipe).pipes 0).inUse = true) := by
  decide

end GrahaOS.OpenFiles
