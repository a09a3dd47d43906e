import GrahaOS.StreamBooks

/-!
# Every submission is completed once

The completion ring has room for what is owed as long as an entry is only consumed while there is
room for one more; a completion keeps its slot until it is read as long as one task at a time posts;
and entries are consumed in order as long as one task at a time submits. The code checks none of the
three. A job that is longer than the burst of its task never gets its tokens.
-/

namespace GrahaOS.SubmissionStream

open FreeRunning Function List

/-- The head that a task has read in `stream_post_cqe` and not published yet, with the entry if it
has been stored. -/
def Pc.mark : Pc → Option (ℕ × Option Cqe)
  | .posting (.write head) _ _ => some (head, none)
  | .posting (.publish head) cqe _ => some (head, some cqe)
  | _ => none

@[simp] lemma resume_mark (next : Option (ℕ × ℕ × ℕ)) : (resume next).mark = none := by
  cases next <;> rfl

/-- Whether a task is about to look for room for a completion. -/
def Pc.checks : Pc → Bool
  | .posting .check _ _ => true
  | _ => false

/-- Whether a task is in `stream_submit_batch`. -/
def Pc.inBatch : Pc → Bool
  | .loop _ _ _ => true
  | .take _ _ _ _ => true
  | .taken _ _ _ _ _ => true
  | .linked _ _ _ _ => true
  | .posting _ _ next => next.isSome
  | _ => false

/-- The entry that a task is about to consume. -/
def Pc.entry : Pc → Option Sqe
  | .taken sqe _ _ _ _ => some sqe
  | _ => none

/-- The number of completions that user space has not read. -/
def unread (s : Stream) : ℕ := distance wrap s.cqHead s.cqTail

/-- The conditions that the code does not check. A batch begins while no other is under way. An
entry is consumed while the completion ring has room for what is owed and one more, and its length
is within the limit of its task. A completion is posted while no other is being posted. -/
def Careful (s : Stream) : Op → Prop
  | .submit _ _ => ∀ u < s.tasks, (s.pc u).inBatch = false
  | .task t _ =>
    (∀ sqe ∈ (s.pc t).entry, (owed s).card + unread s < s.geometry.cqEntries ∧
      (needsTokens s t sqe = true → asInt64 sqe.len ≤ s.ioRate t)) ∧
    ((s.pc t).checks = true → ∀ u < s.tasks, (s.pc u).mark = none)
  | _ => True

/-- The completion ring holds the completions that were posted and not read, each in its slot, and
has room for those that are owed. -/
structure CompletionRing (s : Stream) (log : Log) : Prop where
  head : s.cqHead = log.posted.length % wrap
  headKernel : s.cqHeadKernel = log.posted.length % wrap
  tail : s.cqTail = log.reaped.length % wrap
  reaped : log.reaped <+: log.posted
  dropped : log.dropped = []
  room : log.posted.length + (owed s).card ≤ log.reaped.length + s.geometry.cqEntries
  stored : ∀ k cqe, log.reaped.length ≤ k → log.posted[k]? = some cqe →
    s.cq (k % s.geometry.cqEntries) = cqe
  marked : ∀ t < s.tasks, ∀ head entry, (s.pc t).mark = some (head, entry) →
    head = log.posted.length % wrap ∧
      ∀ cqe ∈ entry, s.cq (log.posted.length % s.geometry.cqEntries) = cqe
  alone : ∀ t < s.tasks, ∀ u < s.tasks, (s.pc t).mark ≠ none → (s.pc u).mark ≠ none → t = u

lemma cqEntries_lt_wrap (g : Geometry) : g.cqEntries < wrap :=
  Nat.pow_lt_pow_right (by decide) (by have := g.cq_max; omega)

lemma cqEntries_dvd_wrap (g : Geometry) : g.cqEntries ∣ wrap :=
  Nat.pow_dvd_pow 2 (by have := g.cq_max; omega)

namespace CompletionRing

variable {s s' : Stream} {log : Log} {e : Events} {op : Op} {t : TaskId} {cqe : Cqe}
  {next : Option (ℕ × ℕ × ℕ)} {head : ℕ}

variable (h : CompletionRing s log)
include h

lemma reaped_le : log.reaped.length ≤ log.posted.length :=
  h.reaped.length_le

theorem unread_eq : unread s = log.posted.length - log.reaped.length := by
  have hroom := h.room
  have hwrap := cqEntries_lt_wrap s.geometry
  rw [unread, h.head, h.tail, distance_mod h.reaped_le (by omega)]

/-- A task that is to post finds room. -/
theorem not_full (howed : owed s ≠ 0) :
    distance wrap s.cqHeadKernel s.cqTail < s.geometry.cqEntries := by
  have hpos : 0 < (owed s).card := Multiset.card_pos.mpr howed
  have hroom := h.room
  have hunread := h.unread_eq
  have hle := h.reaped_le
  rw [unread, h.head, ← h.headKernel] at hunread
  omega

/-- The ring keeps room for what is owed. -/
theorem room_step (hstep : Steps s op s' e) (hcareful : Careful s op)
    (hgeometry : s'.geometry = s.geometry) :
    (log.add e).posted.length + (owed s').card ≤
      (log.add e).reaped.length + s'.geometry.cqEntries := by
  have hbooks := congrArg Multiset.card (owed_step hstep)
  have hroom := h.room
  have hposted : (cookie e.posted).card = e.posted.toList.length := by
    cases e.posted <;> simp
  have hconsumed : (entryCookie e.consumed).card ≤ e.consumed.toList.length := by
    cases e.consumed <;> simp
  have hnew : e.consumed.toList.length + log.posted.length + (owed s).card ≤
      log.reaped.length + s.geometry.cqEntries := by
    have hle := h.reaped_le
    have hunread := h.unread_eq
    cases hstep with
    | rejects ht hpc e | links ht hpc =>
      have hfree := (hcareful.1 _ (by rw [hpc]; rfl)).1
      simp only [Option.toList_some, length_singleton]
      omega
    | _ =>
      simp only [Option.toList_none, length_nil]
      omega
  simp only [Multiset.card_add] at hbooks
  simp only [Log.add, length_append, hgeometry]
  omega

omit h

/-- The completion ring and the tasks that post are the same. -/
structure SameRing (s s' : Stream) : Prop where
  geometry : s'.geometry = s.geometry
  tasks : s'.tasks = s.tasks
  cq : s'.cq = s.cq
  head : s'.cqHead = s.cqHead
  headKernel : s'.cqHeadKernel = s.cqHeadKernel
  tail : s'.cqTail = s.cqTail
  marks : ∀ t, (s'.pc t).mark = (s.pc t).mark

lemma sameRing_setPc {old new : Pc} (h : SameRing s s') (hpc : s.pc t = old)
    (hmark : new.mark = old.mark) : SameRing s (s'.setPc t new) := { h with
  marks := by
    intro u
    by_cases hu : u = t
    · rw [hu, Stream.setPc_self, hpc, hmark]
    · rw [Stream.setPc_of_ne new hu, h.marks u] }

lemma sameRing_handOff (s : Stream) (t : TaskId) (sqe : Sqe) : SameRing s (handOff s t sqe) := by
  rw [handOff]
  split_ifs <;> exact ⟨rfl, rfl, rfl, rfl, rfl, rfl, fun _ => rfl⟩

lemma sameRing_refill (s : Stream) (t : TaskId) : SameRing s (refillIoTokens s t) := by
  rw [refillIoTokens]
  split_ifs <;> exact ⟨rfl, rfl, rfl, rfl, rfl, rfl, fun _ => rfl⟩

include h

/-- A step that posts and reads nothing. -/
theorem quiet (hsame : SameRing s s') (hstep : Steps s op s' e) (hcareful : Careful s op)
    (hposted : e.posted = none) (hdropped : e.dropped = none)
    (hreaped : e.reaped = none) : CompletionRing s' (log.add e) := by
  have hroom := h.room_step hstep hcareful hsame.geometry
  have hp : (log.add e).posted = log.posted := by simp [Log.add, hposted]
  have hd : (log.add e).dropped = log.dropped := by simp [Log.add, hdropped]
  have hr : (log.add e).reaped = log.reaped := by simp [Log.add, hreaped]
  refine ⟨?_, ?_, ?_, ?_, hd.trans h.dropped, hroom, ?_, ?_, ?_⟩
  · rw [hsame.head, h.head, hp]
  · rw [hsame.headKernel, h.headKernel, hp]
  · rw [hsame.tail, h.tail, hr]
  · rw [hp, hr]
    exact h.reaped
  · rw [hsame.cq, hsame.geometry, hp, hr]
    exact h.stored
  · rw [hsame.cq, hsame.geometry, hsame.tasks, hp]
    intro t ht head entry hmark
    exact h.marked t ht head entry (hsame.marks t ▸ hmark)
  · rw [hsame.tasks]
    intro t ht u hu hmt hmu
    exact h.alone t ht u hu (hsame.marks t ▸ hmt) (hsame.marks u ▸ hmu)

/-- A task reads the head. No other task has read it, so it is the number of the next
completion. -/
theorem begins (hfree : ∀ u < s.tasks, (s.pc u).mark = none) :
    let s' := s.setPc t (.posting (.write s.cqHeadKernel) cqe next)
    log.posted.length + (owed s').card ≤ log.reaped.length + s.geometry.cqEntries →
      CompletionRing s' log := by
  intro s' hroom
  have honly : ∀ u < s.tasks, (s'.pc u).mark ≠ none → u = t := by
    intro u hu hmark
    by_contra hne
    rw [Stream.setPc_of_ne _ hne] at hmark
    exact hmark (hfree u hu)
  refine ⟨h.head, h.headKernel, h.tail, h.reaped, h.dropped, hroom, h.stored, ?_, ?_⟩
  · intro u hu head entry hmark
    have hut : u = t := honly u hu (by simp [hmark])
    rw [hut, Stream.setPc_self] at hmark
    cases hmark
    exact ⟨h.headKernel, nofun⟩
  · intro u hu v hv hmu hmv
    rw [honly u hu hmu, honly v hv hmv]

/-- The entry is stored in a slot that holds no completion that is still to be read. -/
theorem stores (ht : t < s.tasks) (hpc : s.pc t = .posting (.write head) cqe next)
    (howed : log.posted.length + 1 ≤ log.reaped.length + s.geometry.cqEntries) :
    let s' := { s with cq := update s.cq (head % s.geometry.cqEntries) cqe }.setPc t
      (.posting (.publish head) cqe next)
    log.posted.length + (owed s').card ≤ log.reaped.length + s.geometry.cqEntries →
      CompletionRing s' log := by
  intro s' hroom
  have hhead : head = log.posted.length % wrap := (h.marked t ht head none (by rw [hpc]; rfl)).1
  have hslot : head % s.geometry.cqEntries = log.posted.length % s.geometry.cqEntries := by
    rw [hhead, slot_mod (cqEntries_dvd_wrap _)]
  have honly : ∀ u < s.tasks, (s'.pc u).mark ≠ none → u = t := by
    intro u hu hmark
    by_contra hne
    rw [Stream.setPc_of_ne _ hne] at hmark
    exact hne (h.alone u hu t ht hmark (by simp [hpc, Pc.mark]))
  refine ⟨h.head, h.headKernel, h.tail, h.reaped, h.dropped, hroom, ?_, ?_, ?_⟩
  · intro k c hk hc
    have hlt : k < log.posted.length := (List.getElem?_eq_some_iff.mp hc).1
    change update s.cq (head % s.geometry.cqEntries) cqe (k % s.geometry.cqEntries) = c
    rw [hslot, update_of_ne (slot_ne hlt (by omega)).symm]
    exact h.stored k c hk hc
  · intro u hu hd entry hmark
    have hut : u = t := honly u hu (by simp [hmark])
    rw [hut, Stream.setPc_self] at hmark
    cases hmark
    refine ⟨hhead, fun c hc => ?_⟩
    cases hc
    change update s.cq (head % s.geometry.cqEntries) cqe
      (log.posted.length % s.geometry.cqEntries) = cqe
    rw [hslot, update_self]
  · intro u hu v hv hmu hmv
    rw [honly u hu hmu, honly v hv hmv]

/-- The head is published, and the entry that was stored becomes the last completion. -/
theorem publishes (ht : t < s.tasks) (hpc : s.pc t = .posting (.publish head) cqe next) :
    let s' := { s with
      cqHead := (head + 1) % wrap
      cqHeadKernel := (head + 1) % wrap }.setPc t (resume next)
    let log' := log.add { posted := some cqe }
    log'.posted.length + (owed s').card ≤ log'.reaped.length + s.geometry.cqEntries →
      CompletionRing s' log' := by
  intro s' log' hroom
  obtain ⟨hhead, hentry⟩ := h.marked t ht head (some cqe) (by rw [hpc]; rfl)
  have hp : log'.posted = log.posted ++ [cqe] := rfl
  have hr : log'.reaped = log.reaped := by simp [log', Log.add]
  have hnext : (head + 1) % wrap = (log.posted ++ [cqe]).length % wrap := by
    rw [hhead, length_append, length_singleton, Nat.mod_add_mod]
  -- the task was the only one that had read the head
  have hfree : ∀ u < s.tasks, (s'.pc u).mark = none := by
    intro u hu
    by_cases hut : u = t
    · rw [hut, Stream.setPc_self, resume_mark]
    · rw [Stream.setPc_of_ne _ hut]
      by_contra hmark
      exact hut (h.alone u hu t ht hmark (by simp [hpc, Pc.mark]))
  refine ⟨hnext, hnext, ?_, ?_, ?_, hroom, ?_, ?_, ?_⟩
  · rw [hr]
    exact h.tail
  · rw [hr, hp]
    exact h.reaped.trans (prefix_append _ _)
  · simpa [log', Log.add] using h.dropped
  · intro k c hk hc
    rw [hr] at hk
    rw [hp, getElem?_append] at hc
    split_ifs at hc with hlt
    · exact h.stored k c hk hc
    have hk0 : k - log.posted.length = 0 := by
      have := (List.getElem?_eq_some_iff.mp hc).1
      simpa using this
    rw [hk0] at hc
    rw [show k = log.posted.length by omega]
    exact (hentry cqe rfl).trans (Option.some.inj hc)
  · intro u hu hd entry hmark
    rw [hfree u hu] at hmark
    cases hmark
  · intro u hu v hv hmu _
    exact absurd (hfree u hu) hmu

/-- User space reads the oldest completion. -/
theorem reaps (hunread : s.cqTail ≠ s.cqHead) :
    CompletionRing { s with cqTail := (s.cqTail + 1) % wrap }
      (log.add { reaped := some (s.cq (s.cqTail % s.geometry.cqEntries)) }) := by
  have hlt : log.reaped.length < log.posted.length := by
    rcases h.reaped_le.lt_or_eq with hlt | heq
    · exact hlt
    · exact absurd (by rw [h.tail, h.head, heq]) hunread
  have hread : log.posted[log.reaped.length]? = some (s.cq (s.cqTail % s.geometry.cqEntries)) := by
    rw [getElem?_eq_getElem hlt, Option.some_inj, h.tail, slot_mod (cqEntries_dvd_wrap _)]
    exact (h.stored _ _ le_rfl (getElem?_eq_getElem hlt)).symm
  set cqe := s.cq (s.cqTail % s.geometry.cqEntries)
  have hp : (log.add { reaped := some cqe }).posted = log.posted := by simp [Log.add]
  have hr : (log.add { reaped := some cqe }).reaped = log.reaped ++ [cqe] := rfl
  have hroom := h.room
  refine ⟨?_, ?_, ?_, ?_, ?_, ?_, ?_, ?_, h.alone⟩
  · rw [hp]
    exact h.head
  · rw [hp]
    exact h.headKernel
  · rw [hr, h.tail, length_append, length_singleton, Nat.mod_add_mod]
  · obtain ⟨rest, hrest⟩ := h.reaped
    rw [hp, hr]
    rw [← hrest, getElem?_append_right le_rfl, Nat.sub_self] at hread
    cases rest with
    | nil => cases hread
    | cons c rest =>
      rw [← hrest, ← Option.some.inj hread]
      exact ⟨rest, by simp⟩
  · simpa [Log.add] using h.dropped
  · rw [hp, hr, length_append, length_singleton]
    change _ + (owed s).card ≤ _ + s.geometry.cqEntries
    omega
  · intro k c hk hc
    rw [hr, length_append, length_singleton] at hk
    rw [hp] at hc
    exact h.stored k c (by omega) hc
  · rw [hp]
    exact h.marked

/-- Every step keeps the ring in order. -/
theorem step (hstep : Steps s op s' e) (hcareful : Careful s op) :
    CompletionRing s' (log.add e) := by
  have hroom := h.room_step hstep hcareful
  have hquiet : SameRing s s' → e.posted = none → e.dropped = none → e.reaped = none →
      CompletionRing s' (log.add e) := fun hsame => h.quiet hsame hstep hcareful
  cases hstep with
  | stays | writeSqe | setSqHead =>
    exact hquiet ⟨rfl, rfl, rfl, rfl, rfl, rfl, fun _ => rfl⟩ rfl rfl rfl
  | reap hunread => exact h.reaps hunread
  | refill ht => exact hquiet (sameRing_refill s _) rfl rfl rfl
  | submit hpc _ ht | pop ht hpc _ | round ht hpc | ends ht hpc | takes ht hpc
  | rejects ht hpc e | links ht hpc | fails ht hpc | runs ht hpc =>
    refine hquiet (sameRing_setPc ?_ hpc rfl) rfl rfl rfl
    exact ⟨rfl, rfl, rfl, rfl, rfl, rfl, fun _ => rfl⟩
  | hands ht hpc => exact hquiet (sameRing_setPc (sameRing_handOff s _ _) hpc rfl) rfl rfl rfl
  | drops ht hpc hfull =>
    have howed : owed s ≠ 0 := owed_ne_zero ht (by rw [hpc]; exact Multiset.singleton_ne_zero _)
    exact absurd hfull (not_le.mpr (h.not_full howed))
  | begins ht hpc =>
    have hroom := hroom rfl
    rw [Log.add_empty] at hroom ⊢
    exact h.begins (hcareful.2 (by rw [hpc]; rfl)) hroom
  | stores ht hpc =>
    have howed : owed s ≠ 0 := owed_ne_zero ht (by rw [hpc]; exact Multiset.singleton_ne_zero _)
    have hpos : 0 < (owed s).card := Multiset.card_pos.mpr howed
    have hroom := hroom rfl
    rw [Log.add_empty] at hroom ⊢
    exact h.stores ht hpc (by have := h.room; omega) hroom
  | publishes ht hpc => exact h.publishes ht hpc (hroom rfl)

end CompletionRing

/-- The entry that a task has chosen, and whether it has taken it out of the ring. -/
def Pc.holds : Pc → Option (ℕ × Bool)
  | .take slot _ _ _ => some (slot, false)
  | .taken _ slot _ _ _ => some (slot, true)
  | _ => none

@[simp] lemma resume_holds (next : Option (ℕ × ℕ × ℕ)) : (resume next).holds = none := by
  cases next <;> rfl

lemma Pc.inBatch_of_holds {pc : Pc} (h : pc.holds ≠ none) : pc.inBatch = true := by
  cases pc <;> simp_all [Pc.holds, Pc.inBatch]

/-- Entries are consumed in the order of the ring, each once, by one task at a time. -/
structure SubmissionOrder (s : Stream) (log : Log) : Prop where
  held : ∀ t < s.tasks, ∀ slot out, (s.pc t).holds = some (slot, out) →
    slot = log.consumed.length % wrap ∧
      (out = true → s.sqTailKernel = (log.consumed.length + 1) % wrap)
  free : (∀ t < s.tasks, ∀ slot, (s.pc t).holds ≠ some (slot, true)) →
    s.sqTailKernel = log.consumed.length % wrap
  alone : ∀ t < s.tasks, ∀ u < s.tasks, (s.pc t).inBatch = true → (s.pc u).inBatch = true → t = u
  worker : (s.pc s.worker).inBatch = false
  numbers : log.consumed.map Prod.fst = (List.range log.consumed.length).map (· % wrap)

namespace SubmissionOrder

variable {s s' : Stream} {log : Log} {e : Events} {op : Op} {t : TaskId} {old new : Pc}

/-- No task begins a batch, and no task gets hold of an entry. -/
structure SameOrder (s s' : Stream) : Prop where
  tasks : s'.tasks = s.tasks
  worker : s'.worker = s.worker
  tail : s'.sqTailKernel = s.sqTailKernel
  holds : ∀ t, (s'.pc t).holds = (s.pc t).holds
  batches : ∀ t, (s'.pc t).inBatch = true → (s.pc t).inBatch = true

lemma sameOrder_setPc (h : SameOrder s s') (hpc : s.pc t = old) (hholds : new.holds = old.holds)
    (hbatch : new.inBatch = true → old.inBatch = true) : SameOrder s (s'.setPc t new) := { h with
  holds := by
    intro u
    by_cases hu : u = t
    · rw [hu, Stream.setPc_self, hpc, hholds]
    · rw [Stream.setPc_of_ne new hu, h.holds u]
  batches := by
    intro u hbu
    by_cases hu : u = t
    · rw [hu, Stream.setPc_self] at hbu
      rw [hu, hpc]
      exact hbatch hbu
    · rw [Stream.setPc_of_ne new hu] at hbu
      exact h.batches u hbu }

lemma sameOrder_handOff (s : Stream) (t : TaskId) (sqe : Sqe) : SameOrder s (handOff s t sqe) := by
  rw [handOff]
  split_ifs <;> exact ⟨rfl, rfl, rfl, fun _ => rfl, fun _ h => h⟩

lemma sameOrder_refill (s : Stream) (t : TaskId) : SameOrder s (refillIoTokens s t) := by
  rw [refillIoTokens]
  split_ifs <;> exact ⟨rfl, rfl, rfl, fun _ => rfl, fun _ h => h⟩

variable (h : SubmissionOrder s log)
include h

theorem quiet (hsame : SameOrder s s') (hconsumed : e.consumed = none) :
    SubmissionOrder s' (log.add e) := by
  have hc : (log.add e).consumed = log.consumed := by simp [Log.add, hconsumed]
  refine ⟨?_, ?_, ?_, ?_, ?_⟩
  · rw [hc, hsame.tasks, hsame.tail]
    intro t ht slot out hholds
    exact h.held t ht slot out (hsame.holds t ▸ hholds)
  · rw [hc, hsame.tasks, hsame.tail]
    intro hfree
    exact h.free fun t ht slot => hsame.holds t ▸ hfree t ht slot
  · rw [hsame.tasks]
    intro t ht u hu hbt hbu
    exact h.alone t ht u hu (hsame.batches t hbt) (hsame.batches u hbu)
  · rw [hsame.worker, Bool.eq_false_iff]
    intro hbatch
    exact Bool.eq_false_iff.mp h.worker (hsame.batches _ hbatch)
  · rw [hc]
    exact h.numbers

omit h

/-- No other task is in a batch. -/
def Alone (s : Stream) (t : TaskId) : Prop :=
  t ≠ s.worker ∧ ∀ u < s.tasks, (s.pc u).inBatch = true → u = t

include h

lemma alone_of_batch (ht : t < s.tasks) (hpc : s.pc t = old) (hbatch : old.inBatch = true)
    : Alone s t := by
  rw [← hpc] at hbatch
  refine ⟨?_, fun u hu hbu => h.alone u hu t ht hbu hbatch⟩
  rintro rfl
  rw [h.worker] at hbatch
  cases hbatch

/-- The task in a batch moves on. The others hold no entry, so only its own counts. -/
theorem move {log' : Log} (halone : Alone s t) (htasks : s'.tasks = s.tasks)
    (hworker : s'.worker = s.worker) (hpcs : s'.pc = s.pc)
    (ht : t < s.tasks)
    (hheld : ∀ slot out, new.holds = some (slot, out) →
      slot = log'.consumed.length % wrap ∧
        (out = true → s'.sqTailKernel = (log'.consumed.length + 1) % wrap))
    (hfree : (∀ slot, new.holds ≠ some (slot, true)) →
      s'.sqTailKernel = log'.consumed.length % wrap)
    (hnumbers : log'.consumed.map Prod.fst = (List.range log'.consumed.length).map (· % wrap)) :
    SubmissionOrder (s'.setPc t new) log' := by
  have hothers : ∀ u < s.tasks, ((s'.setPc t new).pc u).inBatch = true → u = t := by
    intro u hu hbu
    by_contra hne
    rw [Stream.setPc_of_ne _ hne, hpcs] at hbu
    exact hne (halone.2 u hu hbu)
  refine ⟨?_, ?_, ?_, ?_, hnumbers⟩
  · intro u hu slot out hholds
    have hut : u = t := hothers u (htasks ▸ hu) (Pc.inBatch_of_holds (by simp [hholds]))
    rw [hut, Stream.setPc_self] at hholds
    exact hheld slot out hholds
  · intro hnone
    refine hfree fun slot => ?_
    have := hnone t (htasks.symm ▸ ht) slot
    rwa [Stream.setPc_self] at this
  · intro u hu v hv hbu hbv
    rw [hothers u (htasks ▸ hu) hbu, hothers v (htasks ▸ hv) hbv]
  · change ((s'.setPc t new).pc s'.worker).inBatch = false
    rw [hworker, Stream.setPc_of_ne _ halone.1.symm, hpcs]
    exact h.worker

/-- A task in a batch that holds no entry is the only one that could. -/
theorem tail_eq (halone : Alone s t) (hpc : s.pc t = old)
    (hholds : ∀ slot, old.holds ≠ some (slot, true)) :
    s.sqTailKernel = log.consumed.length % wrap := by
  refine h.free fun u hu slot hslot => ?_
  have hut : u = t := halone.2 u hu (Pc.inBatch_of_holds (by simp [hslot]))
  rw [hut, hpc] at hslot
  exact hholds slot hslot

/-- An entry is consumed for good. -/
theorem consume {sqe : Sqe} {slot i n head : ℕ} (htasks : s'.tasks = s.tasks)
    (hworker : s'.worker = s.worker) (hpcs : s'.pc = s.pc)
    (htail : s'.sqTailKernel = s.sqTailKernel) (ht : t < s.tasks)
    (hpc : s.pc t = .taken sqe slot i n head) (hnew : new.holds = none) :
    SubmissionOrder (s'.setPc t new) (log.add { consumed := some (slot, sqe) }) := by
  obtain ⟨hslot, hnext⟩ := h.held t ht slot true (by rw [hpc]; rfl)
  have hlength : (log.add { consumed := some (slot, sqe) }).consumed.length =
      log.consumed.length + 1 := by simp [Log.add]
  refine h.move (h.alone_of_batch ht hpc rfl) htasks hworker hpcs ht (by simp [hnew]) ?_ ?_
  · intro _
    rw [hlength, htail, hnext rfl]
  · rw [hlength, range_succ, map_append, ← h.numbers, map_singleton, ← hslot]
    simp [Log.add]

/-- Every step keeps the order. -/
theorem step (hstep : Steps s op s' e) (hcareful : Careful s op) :
    SubmissionOrder s' (log.add e) := by
  cases hstep with
  | stays | writeSqe | setSqHead | reap =>
    exact h.quiet ⟨rfl, rfl, rfl, fun _ => rfl, fun _ h => h⟩ rfl
  | submit hidle hworker ht =>
    have halone : Alone s _ := ⟨hworker, fun u hu hbu => by rw [hcareful u hu] at hbu; cases hbu⟩
    rw [Log.add_empty]
    exact h.move halone rfl rfl rfl ht nofun (fun _ => h.tail_eq halone hidle nofun) h.numbers
  | refill ht => exact h.quiet (sameOrder_refill s _) rfl
  | pop ht hpc _ | ends ht hpc | runs ht hpc =>
    refine h.quiet (sameOrder_setPc ?_ hpc rfl nofun) rfl
    exact ⟨rfl, rfl, rfl, fun _ => rfl, fun _ h => h⟩
  | round ht hpc =>
    have halone := h.alone_of_batch ht hpc rfl
    have htail := h.tail_eq halone hpc nofun
    rw [Log.add_empty]
    refine h.move halone rfl rfl rfl ht ?_ (fun _ => htail) h.numbers
    intro slot out hholds
    cases hholds
    exact ⟨htail, nofun⟩
  | @takes t _ slot i n head ht hpc =>
    obtain ⟨hslot, -⟩ := h.held t ht slot false (by rw [hpc]; rfl)
    rw [Log.add_empty]
    refine h.move (h.alone_of_batch ht hpc rfl) rfl rfl rfl ht ?_
      (fun hnone => absurd rfl (hnone slot)) h.numbers
    intro slot' out hholds
    cases hholds
    refine ⟨hslot, fun _ => ?_⟩
    rw [hslot, Nat.mod_add_mod]
  | rejects ht hpc | links ht hpc => exact h.consume rfl rfl rfl rfl ht hpc rfl
  | @fails t _ sqe slot i n head ht hpc =>
    obtain ⟨hslot, -⟩ := h.held t ht slot true (by rw [hpc]; rfl)
    rw [Log.add_empty]
    exact h.move (h.alone_of_batch ht hpc rfl) rfl rfl rfl ht nofun (fun _ => hslot) h.numbers
  | hands ht hpc =>
    exact h.quiet (sameOrder_setPc (sameOrder_handOff s _ _) hpc rfl fun _ => rfl) rfl
  | begins ht hpc | stores ht hpc =>
    refine h.quiet (sameOrder_setPc ?_ hpc rfl id) rfl
    exact ⟨rfl, rfl, rfl, fun _ => rfl, fun _ h => h⟩
  | @drops _ _ _ next ht hpc | @publishes _ _ _ next _ ht hpc =>
    refine h.quiet (sameOrder_setPc ?_ hpc (resume_holds next) (by cases next <;> exact id)) rfl
    exact ⟨rfl, rfl, rfl, fun _ => rfl, fun _ h => h⟩

end SubmissionOrder

end GrahaOS.SubmissionStream
