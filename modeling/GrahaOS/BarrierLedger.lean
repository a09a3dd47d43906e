import GrahaOS.SnapshotBarrier

/-!
# Every parked task comes back

The ledger records which tasks are parked in which barrier, and which tasks the end of a barrier
puts back on a queue. A barrier that times out leaves its list behind, and a CPU that has read the
flag may park a task before the list is reset or after it was taken.
-/

namespace GrahaOS.Scheduler.BarrierLedger

open World Runs List Option

structure Ledger where
  world : World
  parks : List (ℕ × TaskId)
  releases : List (ℕ × TaskId)

def record (s : Ledger) (op : Op) : Ledger where
  world := step s.world op
  parks := ((parksBy s.world op).map (Prod.mk s.world.barrierSeq)).toList ++ s.parks
  releases := (releasesBy s.world op).toList ++ s.releases

def start (n : ℕ) : Ledger := ⟨boot n, [], []⟩

/-- The barrier has begun, and its list has not been taken yet. -/
def isOpen (w : World) : Bool := w.ownerTask.any fun t => (w.cont t).isOpen

/-- The barrier that a task ends, and the tasks it has yet to put back. -/
def handing : Cont → Option (ℕ × List TaskId)
  | .ending seq ts | .releasing seq ts => some (seq, ts)
  | _ => none

/-- Barrier `b` has the task on its list, or its end has yet to put it back. -/
def Held (w : World) (b : ℕ) (x : TaskId) : Prop :=
  (isOpen w = true ∧ b = w.barrierSeq ∧ x ∈ w.parked) ∨
    ∃ t ts, handing (w.cont t) = some (b, ts) ∧ x ∈ ts

/-- A task is only parked while the list of the barrier is in use, and a barrier only times out
while nobody is parked. -/
def Careful (s : Ledger) (op : Op) : Prop :=
  Switched s.world op ∧
  match op with
  | .schedule c _ => s.world.pc c = .park → isOpen s.world = true
  | .call c .barrierTimeout => (executing s.world c).isSome → s.world.parked = []
  | _ => True

structure Balanced (s : Ledger) : Prop where
  parks_nodup : s.parks.Nodup
  releases_nodup : s.releases.Nodup
  known : ∀ y ∈ s.releases, y ∈ s.parks
  settled : ∀ {b x}, (b, x) ∈ s.parks → (b, x) ∈ s.releases ∨ Held s.world b x
  held : ∀ {b x}, Held s.world b x → (b, x) ∈ s.parks ∧ (b, x) ∉ s.releases
  past : ∀ {b x}, (b, x) ∈ s.releases →
    b ≤ s.world.barrierSeq ∧ (isOpen s.world = true → b < s.world.barrierSeq)
  handed : ∀ {t b ts}, handing (s.world.cont t) = some (b, ts) →
    b ≤ s.world.barrierSeq ∧ (isOpen s.world = true → b < s.world.barrierSeq)
  inside : s.world.parked ≠ [] → isOpen s.world = true

section Steps

variable {w w' : World} {parks releases : List (ℕ × TaskId)} {t : TaskId} {cont : Cont}

/-- The tasks in the hands of barriers stay the same, and barriers only get older. -/
lemma Balanced.keeps (h : Balanced ⟨w, parks, releases⟩)
    (hheld : ∀ b x, Held w' b x ↔ Held w b x) (hseq : w.barrierSeq ≤ w'.barrierSeq)
    (hopen : isOpen w' = true → isOpen w = true ∨ w.barrierSeq < w'.barrierSeq)
    (hhanded : ∀ {t b ts}, handing (w'.cont t) = some (b, ts) →
      (∃ s ts', handing (w.cont s) = some (b, ts')) ∨ b = w.barrierSeq ∧ isOpen w' = false)
    (hinside : w'.parked ≠ [] → isOpen w' = true) : Balanced ⟨w', parks, releases⟩ := by
  have hlater : ∀ {b}, b ≤ w.barrierSeq ∧ (isOpen w = true → b < w.barrierSeq) →
      b ≤ w'.barrierSeq ∧ (isOpen w' = true → b < w'.barrierSeq) := by
    rintro b ⟨hle, hlt⟩
    refine ⟨hle.trans hseq, fun ho => ?_⟩
    rcases hopen ho with ho' | hnew
    · exact (hlt ho').trans_le hseq
    · exact hle.trans_lt hnew
  refine ⟨h.parks_nodup, h.releases_nodup, h.known, fun hy => ?_, fun hx => ?_,
    fun hy => hlater (h.past hy), fun hc => ?_, hinside⟩
  · exact (h.settled hy).imp_right (hheld _ _).mpr
  · exact h.held ((hheld _ _).mp hx)
  · rcases hhanded hc with ⟨s, ts', hs⟩ | ⟨rfl, hclosed⟩
    · exact hlater (h.handed hs)
    · refine ⟨hseq, fun ho => ?_⟩
      rw [hclosed] at ho
      cases ho

lemma handing_of_not_barred (h : ¬ cont.barred) : handing cont = none := by
  cases cont <;> first | rfl | exact absurd trivial h

lemma isOpen_of_not_barred (h : ¬ cont.barred) : cont.isOpen = false := by
  cases cont <;> first | rfl | exact absurd trivial h

lemma isOpen_of_cont (howner : w'.ownerTask = w.ownerTask)
    (hcont : ∀ s, (w'.cont s).isOpen = (w.cont s).isOpen) : isOpen w' = isOpen w := by
  rw [isOpen, isOpen, howner]
  simp only [hcont]

lemma Balanced.unmoved (h : Balanced ⟨w, parks, releases⟩) (howner : w'.ownerTask = w.ownerTask)
    (hseq : w'.barrierSeq = w.barrierSeq) (hparked : w'.parked = w.parked)
    (hopens : ∀ s, (w'.cont s).isOpen = (w.cont s).isOpen)
    (hcont : ∀ s, handing (w'.cont s) = handing (w.cont s)) : Balanced ⟨w', parks, releases⟩ := by
  have hopen := isOpen_of_cont howner hopens
  refine h.keeps (fun b x => by simp only [Held, hopen, hseq, hparked, hcont]) hseq.ge (fun ho => .inl (hopen ▸ ho))
    (fun {t b ts} hc => .inl ⟨t, ts, hcont t ▸ hc⟩) fun hne => ?_
  rw [hopen]
  exact h.inside (hparked ▸ hne)

/-- What holds of the point that a task goes to, and of all the others, holds of all. -/
lemma setCont_congr {α : Type*} {f : Cont → α} (hcont : w'.cont = w.cont)
    (ht : f cont = f (w.cont t)) (s : TaskId) : f ((w'.setCont t cont).cont s) = f (w.cont s) := by
  by_cases hs : s = t
  · subst hs
    rw [setCont_self, ht]
  · rw [setCont_of_ne _ hs, hcont]

/-- The owner is the one task that makes the barrier open. -/
lemma isOpen_iff (h : Owned w) : isOpen w = true ↔ ∃ t, (w.cont t).isOpen = true := by
  rw [isOpen, Option.any_eq_true]
  constructor
  · rintro ⟨t, -, ht⟩
    exact ⟨t, ht⟩
  · rintro ⟨t, ht⟩
    exact ⟨t, h.owner ht, ht⟩

/-- An owner that is not polling or holding leaves the barrier closed. -/
lemma not_open_of_owns (h : Owned w) (ht : (w.cont t).owns) (hnot : (w.cont t).isOpen = false) :
    isOpen w = false := by
  rw [← Bool.not_eq_true, isOpen_iff h]
  rintro ⟨s, hs⟩
  rw [h.unique (Cont.owns_of_isOpen hs) ht, hnot] at hs
  cases hs

lemma Balanced.park (hp : Placed w) (h : Balanced ⟨w, parks, releases⟩) {c : CpuId}
    (hpc : w.pc c = .park) (hopen : isOpen w = true) (howner : w'.ownerTask = w.ownerTask)
    (hseq : w'.barrierSeq = w.barrierSeq) (hcont : w'.cont = w.cont)
    (hparked : w'.parked = w.current c :: w.parked) :
    Balanced ⟨w', (w.barrierSeq, w.current c) :: parks, releases⟩ := by
  have hne : w.current c ≠ w.idleTask c := hp.busy c (by rw [hpc]; trivial)
  have hnot : w.current c ∉ w.parked := by
    refine hp.separate.notMem (q := .parked) (p := .cpu c) ?_ (by simp)
    simp only [places, hpc, Pc.holds, other_of_ne hne]
    exact mem_singleton_self _
  have hnotReleased : (w.barrierSeq, w.current c) ∉ releases :=
    fun hy => lt_irrefl _ ((h.past hy).2 hopen)
  -- the barrier is open, so what ends are barriers before it
  have hnotHeld : ¬ Held w w.barrierSeq (w.current c) := by
    rintro (⟨-, -, hx⟩ | ⟨t, ts, hc, -⟩)
    · exact hnot hx
    · exact lt_irrefl _ ((h.handed hc).2 hopen)
  have hopen' : isOpen w' = true := by
    rw [isOpen_of_cont howner fun s => by rw [hcont]]
    exact hopen
  have hheld : ∀ {b x}, Held w' b x ↔ (b = w.barrierSeq ∧ x = w.current c) ∨ Held w b x := by
    intro b x
    rw [Held, Held, hopen', hopen, hseq, hparked, hcont, mem_cons]
    tauto
  refine ⟨nodup_cons.mpr ⟨fun hy => ?_, h.parks_nodup⟩, h.releases_nodup,
    fun y hy => mem_cons_of_mem _ (h.known y hy), fun {b x} hy => ?_, fun {b x} hx => ?_,
    fun hy => ?_, fun hc => ?_, fun _ => hopen'⟩
  · exact (h.settled hy).elim hnotReleased hnotHeld
  · rw [hheld]
    rcases mem_cons.mp hy with heq | hy
    · cases heq
      exact .inr (.inl ⟨rfl, rfl⟩)
    · exact (h.settled hy).imp_right .inr
  · rcases hheld.mp hx with ⟨rfl, rfl⟩ | hx
    · exact ⟨mem_cons_self, hnotReleased⟩
    · exact ⟨mem_cons_of_mem _ (h.held hx).1, (h.held hx).2⟩
  · rw [hseq]
    exact ⟨(h.past hy).1, fun _ => (h.past hy).2 hopen⟩
  · rw [hcont] at hc
    rw [hseq]
    exact ⟨(h.handed hc).1, fun _ => (h.handed hc).2 hopen⟩

/-- The end of a barrier puts a task back. -/
lemma Balanced.release (hp : Placed w) (h : Balanced ⟨w, parks, releases⟩) {x : TaskId} {seq : ℕ}
    {xs : List TaskId} (hcont : w.cont t = .releasing seq (x :: xs))
    (howner : w'.ownerTask = w.ownerTask) (hseq : w'.barrierSeq = w.barrierSeq)
    (hparked : w'.parked = w.parked) (hconts : w'.cont = w.cont) :
    Balanced ⟨w'.setCont t (.releasing seq xs), parks, (seq, x) :: releases⟩ := by
  have hself : handing (w.cont t) = some (seq, x :: xs) := by rw [hcont]; rfl
  have hx : Held w seq x := .inr ⟨t, x :: xs, hself, mem_cons_self⟩
  have hopen : isOpen (w'.setCont t (.releasing seq xs)) = isOpen w :=
    isOpen_of_cont howner (setCont_congr hconts (by rw [hcont]; rfl))
  have hplace : ∀ {s b ts y}, handing (w.cont s) = some (b, ts) → y ∈ ts →
      y ∈ places w (.kernel s) := by
    intro s b ts y hs hy
    cases hc : w.cont s <;> rw [hc] at hs <;> cases hs <;> simpa [places, hc, Cont.holds] using hy
  have hnodup : (x :: xs).Nodup := by
    have := hp.separate.nodup (.kernel t)
    rwa [places, hcont] at this
  have hothers : ∀ {s}, s ≠ t → (w'.setCont t (.releasing seq xs)).cont s = w.cont s :=
    fun hs => (setCont_of_ne _ hs).trans (congrFun hconts _)
  -- what is left: nobody else has the task in hand
  have hheld : ∀ {b y}, Held (w'.setCont t (.releasing seq xs)) b y →
      Held w b y ∧ (b, y) ≠ (seq, x) := by
    rintro b y (⟨ho, hb, hy⟩ | ⟨s, ts, hs, hy⟩)
    · have hb' : b = w.barrierSeq := hb.trans hseq
      have hy' : y ∈ w.parked := hparked ▸ hy
      rw [hopen] at ho
      refine ⟨.inl ⟨ho, hb', hy'⟩, fun heq => ?_⟩
      have hlt := (h.handed hself).2 ho
      rw [← (Prod.mk.inj heq).1, hb'] at hlt
      exact lt_irrefl _ hlt
    · by_cases hst : s = t
      · subst hst
        rw [setCont_self] at hs
        cases hs
        refine ⟨.inr ⟨s, x :: xs, hself, mem_cons_of_mem x hy⟩, fun heq => ?_⟩
        exact (nodup_cons.mp hnodup).1 ((Prod.mk.inj heq).2 ▸ hy)
      · rw [hothers hst] at hs
        refine ⟨.inr ⟨s, ts, hs, hy⟩, fun heq => ?_⟩
        have hmem := hplace hs ((Prod.mk.inj heq).2 ▸ hy)
        have hsame := hp.separate.apart hmem (hplace hself mem_cons_self)
        exact hst (Place.kernel.inj hsame)
  have hkept : ∀ {b y}, Held w b y → (b, y) ≠ (seq, x) →
      Held (w'.setCont t (.releasing seq xs)) b y := by
    rintro b y (⟨ho, hb, hy⟩ | ⟨s, ts, hs, hy⟩) hne
    · refine .inl ⟨hopen ▸ ho, hb.trans hseq.symm, ?_⟩
      change y ∈ w'.parked
      rw [hparked]
      exact hy
    · by_cases hst : s = t
      · subst hst
        obtain ⟨rfl, rfl⟩ := Prod.mk.inj (mem_unique hself hs)
        refine .inr ⟨s, xs, by rw [setCont_self]; rfl, ?_⟩
        exact (mem_cons.mp hy).resolve_left fun heq => hne (by rw [heq])
      · exact .inr ⟨s, ts, by rw [hothers hst]; exact hs, hy⟩
  have hbounds : ∀ {b}, b ≤ w.barrierSeq ∧ (isOpen w = true → b < w.barrierSeq) →
      b ≤ w'.barrierSeq ∧ (isOpen (w'.setCont t (.releasing seq xs)) = true →
        b < w'.barrierSeq) := by
    intro b hb
    rw [hopen, hseq]
    exact hb
  refine ⟨h.parks_nodup, nodup_cons.mpr ⟨(h.held hx).2, h.releases_nodup⟩, fun y hy => ?_,
    fun {b y} hy => ?_, fun {b y} hy => ?_, fun {b y} hy => ?_, fun {s b ts} hs => ?_, fun hne => ?_⟩
  · rcases mem_cons.mp hy with rfl | hy
    · exact (h.held hx).1
    · exact h.known y hy
  · by_cases heq : (b, y) = (seq, x)
    · exact .inl (heq ▸ mem_cons_self)
    · exact (h.settled hy).imp (mem_cons_of_mem _) fun hheld => hkept hheld heq
  · obtain ⟨hold, hne⟩ := hheld hy
    refine ⟨(h.held hold).1, fun hmem => ?_⟩
    exact (mem_cons.mp hmem).elim hne (h.held hold).2
  · rcases mem_cons.mp hy with heq | hy
    · rw [(Prod.mk.inj heq).1]
      exact hbounds (h.handed hself)
    · exact hbounds (h.past hy)
  · by_cases hst : s = t
    · subst hst
      rw [setCont_self] at hs
      rw [← (Prod.mk.inj (some.inj hs)).1]
      exact hbounds (h.handed hself)
    · rw [hothers hst] at hs
      exact hbounds (h.handed hs)
  · rw [hopen]
    exact h.inside (hparked ▸ hne)

end Steps

lemma releasesBy_of_ne {w : World} {c : CpuId} {t : TaskId} (ht : executing w c = some t)
    (hnot : ∀ seq x xs, w.cont t ≠ .releasing seq (x :: xs)) :
    releasesBy w (.continue c) = none := by
  rw [releasesBy, ht, bind_some]
  cases hcont : w.cont t with
  | releasing seq ts =>
    cases ts with
    | nil => rfl
    | cons x xs => exact absurd hcont (hnot seq x xs)
  | _ => rfl

/-- Every careful step keeps the balance. -/
theorem record_balanced (s : Ledger) (op : Op) (hp : Placed s.world) (hown : Owned s.world)
    (h : Balanced s) (hop : Careful s op) : Balanced (record s op) := by
  obtain ⟨w, parks, releases⟩ := s
  have hstep := (step_moves w op).barrier
  rw [record]
  dsimp only at hp hown hop ⊢
  generalize step w op = w' at hstep ⊢
  cases hstep with
  | aside silent same hcont =>
    rw [silent.1, silent.2]
    refine h.unmoved same.owner same.seq same.parked (fun s => ?_) fun s => ?_
    · rcases hcont s with heq | ⟨hold, hnew⟩
      · rw [heq]
      · rw [isOpen_of_not_barred hold, isOpen_of_not_barred hnew]
    · rcases hcont s with heq | ⟨hold, hnew⟩
      · rw [heq]
      · rw [handing_of_not_barred hold, handing_of_not_barred hnew]
  | @park c choice hpc =>
    have hparks : parksBy w (.schedule c choice) = some (w.current c) := if_pos hpc
    rw [hparks]
    exact h.park hp hpc (hop.2 hpc) rfl rfl rfl rfl
  | begins ht hcont hflag =>
    exact h.unmoved rfl rfl rfl (setCont_congr rfl (by rw [hcont]; rfl))
      (setCont_congr rfl (by rw [hcont]; rfl))
  | @resets c t ht hcont =>
    rw [releasesBy_of_ne ht (by simp [hcont])]
    have hclosed : isOpen w = false :=
      not_open_of_owns hown (by rw [hcont]; trivial) (by rw [hcont]; rfl)
    have hhanding : ∀ s, handing (({ w with
        parked := []
        ownerTask := some t
        barrierSeq := w.barrierSeq + 1 }.setCont t (.polling 0)).cont s) = handing (w.cont s) :=
      setCont_congr rfl (by rw [hcont]; rfl)
    refine h.keeps (fun b x => ?_) (Nat.le_succ _) (fun _ => .inr (Nat.lt_succ_self _))
      (fun {s b ts} hs => .inl ⟨s, ts, hhanding s ▸ hs⟩) fun hne => absurd rfl hne
    rw [Held, Held, hclosed]
    simp only [hhanding]
    refine or_congr_left (iff_of_false (fun hx => ?_) fun hx => ?_)
    · exact not_mem_nil hx.2.2
    · cases hx.1
  | polls ht hcont | retries ht hcont | succeeds ht hcont | clears ht hcont =>
    rw [releasesBy_of_ne ht (by simp [hcont])]
    exact h.unmoved rfl rfl rfl (setCont_congr rfl (by rw [hcont]; rfl))
      (setCont_congr rfl (by rw [hcont]; rfl))
  | @timesOut c t i ht hcont =>
    have hparked : w.parked = [] := hop.2 (by rw [ht]; rfl)
    have hhanding : ∀ s, handing (({ w with barrierFlag := false }.setCont t .user).cont s) =
        handing (w.cont s) := setCont_congr rfl (by rw [hcont]; rfl)
    refine h.keeps (fun b x => ?_) le_rfl (fun _ => .inl ?_)
      (fun {s b ts} hs => .inl ⟨s, ts, hhanding s ▸ hs⟩) fun hne => absurd hparked hne
    · rw [Held, Held]
      simp only [hhanding]
      refine or_congr_left (iff_of_false (fun hx => ?_) fun hx => ?_)
      · exact not_mem_nil (hparked ▸ hx.2.2)
      · exact not_mem_nil (hparked ▸ hx.2.2)
    · exact (isOpen_iff hown).mpr ⟨t, by rw [hcont]; rfl⟩
  | @ends c t ht hcont =>
    have hopen : isOpen w = true := (isOpen_iff hown).mpr ⟨t, by rw [hcont]; rfl⟩
    have hclosed : isOpen ({ w with parked := [], ownerTask := none }.setCont t
        (.ending w.barrierSeq w.parked)) = false := rfl
    have hself : handing (({ w with parked := [], ownerTask := none }.setCont t
        (.ending w.barrierSeq w.parked)).cont t) = some (w.barrierSeq, w.parked) := by
      rw [setCont_self]
      rfl
    have hothers : ∀ {s}, s ≠ t → handing (({ w with parked := [], ownerTask := none }.setCont t
        (.ending w.barrierSeq w.parked)).cont s) = handing (w.cont s) := by
      intro s hs
      rw [setCont_of_ne _ hs]
    have hnone : handing (w.cont t) = none := by rw [hcont]; rfl
    refine h.keeps (fun b x => ⟨fun hx => ?_, fun hx => ?_⟩) le_rfl (fun _ => .inl hopen)
      (fun {s b ts} hs => ?_) fun hne => absurd rfl hne
    · rcases hx with hx | ⟨s, ts, hs, hx⟩
      · exact absurd hx.2.2 not_mem_nil
      · by_cases hst : s = t
        · subst hst
          obtain ⟨rfl, rfl⟩ := Prod.mk.inj (mem_unique hself hs)
          exact .inl ⟨hopen, rfl, hx⟩
        · exact .inr ⟨s, ts, hothers hst ▸ hs, hx⟩
    · rcases hx with ⟨-, rfl, hx⟩ | ⟨s, ts, hs, hx⟩
      · exact .inr ⟨t, w.parked, hself, hx⟩
      · have hst : s ≠ t := by
          rintro rfl
          rw [hnone] at hs
          cases hs
        exact .inr ⟨s, ts, (hothers hst).trans hs, hx⟩
    · by_cases hst : s = t
      · subst hst
        obtain ⟨rfl, rfl⟩ := Prod.mk.inj (mem_unique hself hs)
        exact .inr ⟨rfl, hclosed⟩
      · exact .inl ⟨s, ts, hothers hst ▸ hs⟩
  | @releases c t x seq xs ht hcont =>
    have hreleases : releasesBy w (.continue c) = some (seq, x) := by
      rw [releasesBy, ht, bind_some, hcont]
    rw [hreleases]
    exact h.release hp hcont rfl rfl rfl rfl
  | @finishes c t seq ht hcont =>
    rw [releasesBy_of_ne ht (by simp [hcont])]
    have hopen : isOpen (w.setCont t .user) = isOpen w :=
      isOpen_of_cont rfl (setCont_congr rfl (by rw [hcont]; rfl))
    have hback : ∀ {s b ts}, handing ((w.setCont t .user).cont s) = some (b, ts) →
        handing (w.cont s) = some (b, ts) := by
      intro s b ts hs
      have hst : s ≠ t := by
        rintro rfl
        rw [setCont_self] at hs
        cases hs
      rwa [setCont_of_ne _ hst] at hs
    refine h.keeps (fun b x => ?_) le_rfl (fun ho => .inl (hopen ▸ ho))
      (fun {s b ts} hs => .inl ⟨s, ts, hback hs⟩) fun hne => hopen ▸ h.inside hne
    rw [Held, Held, hopen]
    refine or_congr_right ⟨?_, ?_⟩
    · rintro ⟨s, ts, hs, hx⟩
      exact ⟨s, ts, hback hs, hx⟩
    rintro ⟨s, ts, hs, hx⟩
    have hst : s ≠ t := by
      rintro rfl
      rw [hcont] at hs
      cases hs
      cases hx
    exact ⟨s, ts, by rw [setCont_of_ne _ hst]; exact hs, hx⟩

lemma balanced_start (n : ℕ) : Balanced (start n) := by
  have hnone : ∀ {b x}, ¬ Held (boot n) b x := by
    rintro b x (hx | ⟨t, ts, hc, -⟩)
    · cases hx.1
    · cases hc
  exact ⟨nodup_nil, nodup_nil, fun y hy => hy, fun hy => absurd hy not_mem_nil,
    fun hx => absurd hx hnone, fun hy => absurd hy not_mem_nil, (fun hc => by cases hc),
    fun hne => absurd rfl hne⟩

/-- What the end of a barrier puts back is on a queue afterwards. -/
lemma releasesBy_ready {w : World} {op : Op} {b : ℕ} {x : TaskId}
    (h : releasesBy w op = some (b, x)) : ∃ d, x ∈ (step w op).ready d := by
  have hstep := (step_moves w op).barrier
  generalize step w op = w' at hstep ⊢
  cases hstep with
  | aside silent =>
    rw [silent.2] at h
    cases h
  | @releases c t y seq ys ht hcont =>
    rw [releasesBy, ht, bind_some, hcont] at h
    obtain ⟨-, rfl⟩ := Prod.mk.inj (some.inj h)
    refine ⟨targetCpu (w.setState y .ready) y, ?_⟩
    change y ∈ places (enqueueReady (w.setState y .ready) y)
      (.ready (targetCpu (w.setState y .ready) y))
    rw [places_enqueueReady_self]
    exact mem_append.mpr (.inr mem_cons_self)
  | park => cases h
  | begins => cases h
  | timesOut => cases h
  | ends => cases h
  | resets ht hcont | polls ht hcont | retries ht hcont | succeeds ht hcont
  | clears ht hcont | finishes ht hcont => rw [releasesBy_of_ne ht (by simp [hcont])] at h; cases h

/-- In every state that is reached: a task is parked once in a barrier; one that its barrier has no
longer in hand has been put back exactly once, and one that it has in hand not yet; nothing else is
put back; tasks are only parked while the end of their barrier is to come; and what is put back is
on a queue of ready tasks. -/
theorem parked_tasks_come_back (n : ℕ) {ops : List Op}
    (hops : Guarded record Careful (start n) ops) :
    (run record (start n) ops).parks.Nodup ∧
    (∀ b x, (b, x) ∈ (run record (start n) ops).parks →
      (¬ Held (run record (start n) ops).world b x →
        (run record (start n) ops).releases.count (b, x) = 1) ∧
      (Held (run record (start n) ops).world b x →
        (run record (start n) ops).releases.count (b, x) = 0)) ∧
    (∀ y ∈ (run record (start n) ops).releases, y ∈ (run record (start n) ops).parks) ∧
    (∀ x ∈ (run record (start n) ops).world.parked,
      isOpen (run record (start n) ops).world = true ∧
        ((run record (start n) ops).world.barrierSeq, x) ∈ (run record (start n) ops).parks) ∧
    ∀ op b x, releasesBy (run record (start n) ops).world op = some (b, x) →
      ∃ d, x ∈ (step (run record (start n) ops).world op).ready d := by
  have hbalanced : Balanced (run record (start n) ops) := by
    have hall := invariant_run (fun s => Placed s.world ∧ Owned s.world ∧ Balanced s)
      (fun s op h hop => ⟨step_placed s.world op h.1 hop.1, step_owned s.world op h.2.1,
        record_balanced s op h.1 h.2.1 h.2.2 hop⟩)
      ⟨placed_boot n, owned_boot n, balanced_start n⟩ hops
    exact hall.2.2
  generalize run record (start n) ops = s at hbalanced ⊢
  refine ⟨hbalanced.parks_nodup, fun b x hy => ⟨fun hnot => ?_, fun hx => ?_⟩, hbalanced.known,
    fun x hx => ?_, fun op b x => releasesBy_ready⟩
  · have hmem := (hbalanced.settled hy).resolve_right hnot
    exact List.count_eq_one_of_mem hbalanced.releases_nodup hmem
  · exact List.count_eq_zero.mpr (hbalanced.held hx).2
  · have hopen := hbalanced.inside (List.ne_nil_of_mem hx)
    exact ⟨hopen, (hbalanced.held (.inl ⟨hopen, rfl, hx⟩)).1⟩

def isTimeout : Op → Bool
  | .call _ .barrierTimeout => true
  | _ => false

/-- `Careful`, looking at the CPUs that exist. -/
def CarefulHere (s : Ledger) (op : Op) : Prop :=
  SwitchedHere s.world op ∧ ((parksBy s.world op).isSome → isOpen s.world = true) ∧
    (isTimeout op → s.world.parked = [])

instance (s : Ledger) (op : Op) : Decidable (CarefulHere s op) :=
  inferInstanceAs (Decidable (_ ∧ _ ∧ _))

lemma guarded_of_here {ops : List Op} {s : Ledger} (h : Wired s.world)
    (hops : Guarded record CarefulHere s ops) : Guarded record Careful s ops := by
  refine guarded_of_invariant (fun s => Wired s.world) (fun _ op h _ => step_wired h op)
    (fun s op h hop => ?_) h hops
  obtain ⟨hswitched, hpark, hlist⟩ := hop
  refine ⟨switched_of_here h hswitched, ?_⟩
  cases op with
  | schedule c choice => exact fun hpc => hpark (by simp [parksBy, hpc])
  | call c call =>
    cases call with
    | barrierTimeout => exact fun _ => hlist rfl
    | _ => trivial
  | _ => trivial

/-- A task on the first CPU begins a barrier while the second CPU executes another task; this one is
parked, and put back by the end of the barrier. -/
def barrierOps : List Op :=
  reschedule 0 ++ spawn 0 ++ spawn 0 ++ steal 1 ++ [.call 0 .beginBarrier, .continue 0] ++
    reschedule 1 ++ [.continue 0, .continue 0, .continue 0, .call 0 .endBarrier] ++
    [.continue 0, .continue 0, .continue 0]

/-- The parked task was put back once. -/
theorem parked_task_is_put_back :
    Guarded record Careful (start 2) barrierOps ∧
    (run record (start 2) barrierOps).parks = [(1, 4)] ∧
    (run record (start 2) barrierOps).releases = [(1, 4)] ∧
    ¬ Held (run record (start 2) barrierOps).world 1 4 := by
  have hops : Guarded record Careful (start 2) barrierOps :=
    guarded_of_here (placed_boot 2).toWired (by decide +kernel)
  have hparks : (run record (start 2) barrierOps).parks = [(1, 4)] := by decide +kernel
  have hreleases : (run record (start 2) barrierOps).releases = [(1, 4)] := by decide +kernel
  refine ⟨hops, hparks, hreleases, fun hheld => ?_⟩
  have hcount := ((parked_tasks_come_back 2 hops).2.1 1 4
    (by rw [hparks]; exact List.mem_singleton_self _)).2 hheld
  rw [hreleases] at hcount
  cases hcount

/-- A task on the first CPU begins a barrier while the others execute tasks. The second CPU parks
its task, the third one is busy, and the barrier times out. -/
def timeoutOps : List Op :=
  reschedule 0 ++ spawn 0 ++ spawn 0 ++ spawn 0 ++ steal 1 ++ steal 2 ++
    [.call 0 .beginBarrier, .continue 0] ++ reschedule 1 ++ [.call 0 .barrierTimeout]

/-- The barrier is over, the task is still parked, and nobody has it in hand; the next barrier
forgets it. -/
theorem parked_task_is_forgotten :
    (run record (start 3) timeoutOps).parks = [(1, 6)] ∧
    (run record (start 3) timeoutOps).world.parked = [6] ∧
    (run record (start 3) timeoutOps).world.barrierFlag = false ∧
    isOpen (run record (start 3) timeoutOps).world = false ∧
    (run record (start 3) (timeoutOps ++ [.call 0 .beginBarrier, .continue 0])).world.parked = [] ∧
    (run record (start 3) (timeoutOps ++ [.call 0 .beginBarrier, .continue 0])).releases = [] ∧
    (run record (start 3) (timeoutOps ++ [.call 0 .beginBarrier, .continue 0])).world.state 6 =
      some .barrierWait ∧
    ∀ c < 3, 6 ∉
      (run record (start 3) (timeoutOps ++ [.call 0 .beginBarrier, .continue 0])).world.ready c := by
  refine ⟨?_, ?_, ?_, ?_, ?_, ?_, ?_, ?_⟩ <;> decide +kernel

end GrahaOS.Scheduler.BarrierLedger
