import GrahaOS.CapHistory

/-!
# Authority along derivation

`Narrower` compares an object with its parent at the moment of the derivation, and `LineageOk`
chains the comparison up to the root. The argument needs that an object whose audience names
`PID_PUBLIC` is marked `PUBLIC`, and that a spawned task's id is below `MAX_TASKS` and hence not
`PID_PUBLIC`.
-/

namespace GrahaOS.Authority

open Masks Token CapRegistry CapHistory Runs

/-- The object has no more authority than its parent had, up to the pid that
inheritance added. -/
structure Narrower (o : CapObject) (l : Link) : Prop where
  rights : Within o.rightsBitmap l.parent.rightsBitmap
  isPublic : hasFlag o.flags flagPublic = true → hasFlag l.parent.flags flagPublic = true
  immortal : hasFlag o.flags flagImmortal = true → hasFlag l.parent.flags flagImmortal = true
  audience : ∀ pid, validateAudience o pid = true →
    validateAudience l.parent pid = true ∨ l.added = some pid

/-- Each object of the path is narrower than the next one; the last has no parent. -/
def LineageOk : CapObject → List Link → Prop
  | o, [] => o.parentIdx = idxNone
  | o, l :: ls => Narrower o l ∧ LineageOk l.parent ls

/-- Naming the public pid makes an object public. -/
def PublicMarked (o : CapObject) : Prop :=
  pidPublic ∈ o.audienceSet.pids → hasFlag o.flags flagPublic = true

lemma hasFlag_or_public_immortal (f : BitVec 8) :
    hasFlag (f ||| flagPublic) flagImmortal = hasFlag f flagImmortal := by
  revert f
  decide

lemma hasFlag_or_public_public (f : BitVec 8) : hasFlag (f ||| flagPublic) flagPublic = true := by
  revert f
  decide

lemma hasFlag_of_privileged {fs pf f : BitVec 8} (hf : Within f privilegedFlags)
    (h : Within (fs &&& privilegedFlags) pf) (hfs : hasFlag fs f = true) : hasFlag pf f = true := by
  have hsame : fs &&& privilegedFlags &&& f = fs &&& f := by
    rw [BitVec.and_assoc, hf]
  have hne : fs &&& privilegedFlags &&& f ≠ 0#8 := by
    rw [hsame]
    simpa [hasFlag] using hfs
  simpa [hasFlag] using and_ne_zero_of_within h hne

lemma newObject_flags (a : CreateArgs) (p : ℕ) :
    (pidPublic ∈ (newObject a p).audienceSet.pids ∧
        (newObject a p).flags = a.flags ||| flagPublic) ∨
      (pidPublic ∉ (newObject a p).audienceSet.pids ∧ (newObject a p).flags = a.flags) := by
  unfold newObject
  split_ifs with hcontains
  · exact .inl ⟨by simpa using hcontains, rfl⟩
  · exact .inr ⟨by simpa using hcontains, rfl⟩

lemma publicMarked_newObject (a : CreateArgs) (p : ℕ) : PublicMarked (newObject a p) := by
  intro hmem
  rcases newObject_flags a p with ⟨-, hflags⟩ | ⟨hnot, -⟩
  · rw [hflags]
    exact hasFlag_or_public_public a.flags
  · exact absurd hmem hnot

variable {o parent o' : CapObject} {pid : ℤ} {a : DeriveArgs} {r : Registry} {op : CapOp} {x : Bool}
  {ls : List Link}

lemma mem_of_mem_terminated {src : List ℤ} (h : pid ∈ terminated src) : pid ∈ src :=
  List.mem_of_mem_take (List.takeWhile_sublist _ |>.subset h)

lemma validateAudience_of_public (h : hasFlag o.flags flagPublic = true) (pid : ℤ) :
    validateAudience o pid = true := by
  simp [validateAudience, h]

/-- Where the entries of a derived object's audience come from: the parent admits
them, or inheritance added them; the public pid only comes from a public parent. -/
def EntriesOk (parent : CapObject) (added : Option ℤ) (entries : List ℤ) : Prop :=
  ∀ pid ∈ entries, (validateAudience parent pid = true ∨ added = some pid) ∧
    (pid = pidPublic → hasFlag parent.flags flagPublic = true)

lemma entriesOk_of_mem {added : Option ℤ} (hmarked : PublicMarked parent)
    (hmem : pid ∈ parent.audienceSet.pids) :
    (validateAudience parent pid = true ∨ added = some pid) ∧
      (pid = pidPublic → hasFlag parent.flags flagPublic = true) := by
  refine ⟨.inl (by simp [validateAudience, hmem]), ?_⟩
  rintro rfl
  exact hmarked hmem

lemma entriesOk_derive (hmarked : PublicMarked parent)
    (hcaller : validateAudience parent a.callerPid = true)
    (hsubset : audienceIsSubset parent a.audienceSubset = true) :
    EntriesOk parent none (terminated (a.audienceSubset.getD [a.callerPid])) := by
  intro pid hpid
  by_cases hpub : hasFlag parent.flags flagPublic = true
  · exact ⟨.inl (validateAudience_of_public hpub pid), fun _ => hpub⟩
  refine entriesOk_of_mem hmarked ?_
  cases haud : a.audienceSubset with
  | none =>
    rw [haud] at hpid
    obtain rfl : pid = a.callerPid := by simpa using mem_of_mem_terminated hpid
    simpa [validateAudience, hpub] using hcaller
  | some pids =>
    rw [haud] at hpid hsubset
    have hall : ∀ p ∈ terminated pids, p ≠ pidPublic ∧ p ∈ parent.audienceSet.pids := by
      simpa [audienceIsSubset, hpub] using hsubset
    exact (hall pid hpid).2

lemma entriesOk_inherit {obj : CapObject} {childId : ℕ} (hmarked : PublicMarked obj)
    (hid : childId < maxTasks) :
    EntriesOk obj (if appendsChild obj childId then some (childId : ℤ) else none)
      (terminated (inheritAudience obj childId)) := by
  intro pid hpid
  have hmem := mem_of_mem_terminated hpid
  by_cases happ : appendsChild obj childId = true
  · rw [inheritAudience, if_pos happ] at hmem
    rcases List.mem_append.mp hmem with hold | hnew
    · exact entriesOk_of_mem hmarked hold
    obtain rfl : pid = (childId : ℤ) := by simpa using hnew
    refine ⟨.inr (if_pos happ), ?_⟩
    intro hpub
    have hlt : (childId : ℤ) < 10240 := by exact_mod_cast hid
    rw [hpub] at hlt
    exact absurd hlt (by decide)
  · rw [inheritAudience, if_neg happ] at hmem
    exact entriesOk_of_mem hmarked hmem

lemma entriesOk_of_derives (hop : Derives r a x op) (hparent : r.ptrs a.parentIdx = some parent)
    (hmarked : PublicMarked parent) (hchecks : deriveChecks parent a x = .ok ()) :
    EntriesOk parent (addedPid r op) (terminated (a.audienceSubset.getD [a.callerPid])) := by
  obtain ⟨-, hcaller, -, -, haud⟩ := deriveChecks_ok hchecks
  cases op with
  | derive slab a' =>
    obtain ⟨rfl, rfl⟩ := hop
    exact entriesOk_derive hmarked hcaller (by simpa using haud)
  | inherit slab idx parentId childId =>
    obtain ⟨hid, obj, hobj, rfl, rfl⟩ := hop
    obtain rfl : obj = parent := by
      have hsame : r.ptrs idx = some parent := hparent
      rw [hobj] at hsame
      exact Option.some.inj hsame
    simp only [addedPid, hobj]
    exact entriesOk_inherit hmarked hid
  | create slab a' => exact hop.elim
  | revoke idx => exact hop.elim
  | destroy idx => exact hop.elim

/-- A derived object is narrower than the parent it was derived from. -/
theorem narrower_of_derives (hop : Derives r a x op) (hparent : r.ptrs a.parentIdx = some parent)
    (hmarked : PublicMarked parent) (hchecks : deriveChecks parent a x = .ok ()) (next : ℕ) :
    Narrower { newObject (derivedArgs parent a) a.parentIdx with nextSiblingIdx := next }
      ⟨parent, addedPid r op⟩ := by
  have hentries := entriesOk_of_derives hop hparent hmarked hchecks
  obtain ⟨-, -, hrights, hflags, -⟩ := deriveChecks_ok hchecks
  have hnew := newObject_flags (derivedArgs parent a) a.parentIdx
  have hpublic : hasFlag (newObject (derivedArgs parent a) a.parentIdx).flags flagPublic = true →
      hasFlag parent.flags flagPublic = true := by
    intro hf
    rcases hnew with ⟨hmem, -⟩ | ⟨-, heq⟩
    · exact (hentries pidPublic hmem).2 rfl
    · rw [heq] at hf
      exact hasFlag_of_privileged (by decide) hflags hf
  refine ⟨hrights, hpublic, ?_, ?_⟩
  · intro hf
    have hf' : hasFlag (newObject (derivedArgs parent a) a.parentIdx).flags flagImmortal = true :=
      hf
    rcases hnew with ⟨-, heq⟩ | ⟨-, heq⟩
    · rw [heq, hasFlag_or_public_immortal] at hf'
      exact hasFlag_of_privileged (by decide) hflags hf'
    · rw [heq] at hf'
      exact hasFlag_of_privileged (by decide) hflags hf'
  · intro pid hpid
    by_cases hpub : hasFlag (newObject (derivedArgs parent a) a.parentIdx).flags flagPublic = true
    · exact .inl (validateAudience_of_public (hpublic hpub) pid)
    · have hmem : pid ∈ (newObject (derivedArgs parent a) a.parentIdx).audienceSet.pids := by
        simpa [validateAudience, hpub] using hpid
      exact (hentries pid hmem).1

lemma lineageOk_of_evolves (h : Evolves o o') (hls : LineageOk o ls) : LineageOk o' ls := by
  have hpub : hasFlag o'.flags flagPublic = hasFlag o.flags flagPublic := h.hasFlag_eq (by decide)
  have himm : hasFlag o'.flags flagImmortal = hasFlag o.flags flagImmortal :=
    h.hasFlag_eq (by decide)
  have hrights : o'.rightsBitmap = o.rightsBitmap := h.rightsBitmap
  have haud : o'.audienceSet = o.audienceSet := h.audienceSet
  cases ls with
  | nil => exact h.parentIdx.trans hls
  | cons l ls =>
  refine ⟨⟨?_, ?_, ?_, ?_⟩, hls.2⟩
  · rw [hrights]
    exact hls.1.rights
  · rw [hpub]
    exact hls.1.isPublic
  · rw [himm]
    exact hls.1.immortal
  · intro pid hpid
    apply hls.1.audience pid
    simpa only [validateAudience, hpub, haud] using hpid

lemma publicMarked_of_evolves (h : Evolves o o') (ho : PublicMarked o) : PublicMarked o' := by
  intro hmem
  have haud : o'.audienceSet = o.audienceSet := h.audienceSet
  rw [haud] at hmem
  rw [h.hasFlag_eq (by decide)]
  exact ho hmem

/-- Every object of the history is narrower than its lineage. -/
def Diminishing (h : History) : Prop :=
  ∀ i o, h.reg.ptrs i = some o → PublicMarked o ∧ LineageOk o (h.lineage i)

theorem diminishing_init : Diminishing init := by
  intro i o ho
  by_cases hi : i = 0
  · obtain rfl : sentinel = o := by simpa [init, capObjectInit, hi] using ho
    exact ⟨fun _ => by decide, rfl⟩
  · simp [init, capObjectInit, hi] at ho

theorem diminishing_step (h : History) (op : CapOp) (hs : Diminishing h) :
    Diminishing (step h op) := by
  intro i o' ho'
  rcases (capStep_effect h.reg op).slot ho' with ⟨o, ho, hev⟩ | ⟨hnone, -, -, hpublished⟩
  · have hlineage : (step h op).lineage i = h.lineage i := by simp [step, filled, ho]
    rw [hlineage]
    exact ⟨publicMarked_of_evolves hev (hs i o ho).1, lineageOk_of_evolves hev (hs i o ho).2⟩
  have hfilled : filled h.reg (capStep h.reg op) i = true := filled_eq_true.mpr ⟨hnone, o', ho'⟩
  have hptr : (capStep h.reg op).ptrs i = some o' := ho'
  have hlineage : (step h op).lineage i = newLineage h op o' := by
    simp only [step, hfilled, if_true, hptr]
  rw [hlineage]
  rcases hpublished with ⟨slab, a, -, rfl⟩ | ⟨a, x, parent, hop, hparent, hcap, hchecks, rfl⟩
  · exact ⟨publicMarked_newObject a idxNone, rfl⟩
  refine ⟨publicMarked_newObject (derivedArgs parent a) a.parentIdx, ?_⟩
  have hne : a.parentIdx ≠ idxNone := by
    intro heq
    rw [heq] at hcap
    exact absurd hcap (by decide)
  have hparentOk := hs a.parentIdx parent hparent
  rw [newLineage_child op rfl hne hparent]
  exact ⟨narrower_of_derives hop hparent hparentOk.1 hchecks _, hparentOk.2⟩

/-- Rights and privileged flags narrow along the whole path. -/
lemma narrower_of_mem (h : LineageOk o ls) {l : Link} (hl : l ∈ ls) :
    Within o.rightsBitmap l.parent.rightsBitmap ∧
      (hasFlag o.flags flagPublic = true → hasFlag l.parent.flags flagPublic = true) ∧
      (hasFlag o.flags flagImmortal = true → hasFlag l.parent.flags flagImmortal = true) := by
  induction ls generalizing o with
  | nil => cases hl
  | cons first rest ih =>
    rcases List.mem_cons.mp hl with rfl | hrest
    · exact ⟨h.1.rights, h.1.isPublic, h.1.immortal⟩
    · obtain ⟨hr, hp, hi⟩ := ih h.2 hrest
      exact ⟨within_trans h.1.rights hr, fun hf => hp (h.1.isPublic hf),
        fun hf => hi (h.1.immortal hf)⟩

/-- In every reachable state, a derived object has no right and no privileged flag that
some ancestor lacked, and admits no pid that its parent did not admit, apart from the
child pid that inheritance added. -/
theorem derived_authority_never_grows (ops : List CapOp) {i : ℕ} {o : CapObject}
    (ho : (run step init ops).reg.ptrs i = some o) :
    (o.parentIdx ≠ idxNone → (run step init ops).lineage i ≠ []) ∧
    (∀ l ∈ (run step init ops).lineage i,
      Within o.rightsBitmap l.parent.rightsBitmap ∧
      (hasFlag o.flags flagPublic = true → hasFlag l.parent.flags flagPublic = true) ∧
      (hasFlag o.flags flagImmortal = true → hasFlag l.parent.flags flagImmortal = true)) ∧
    (∀ l ∈ ((run step init ops).lineage i).head?, ∀ pid, validateAudience o pid = true →
      validateAudience l.parent pid = true ∨ l.added = some pid) := by
  have hinv : Diminishing (run step init ops) :=
    invariant_run_all Diminishing diminishing_step diminishing_init ops
  have hline := (hinv i o ho).2
  refine ⟨?_, fun l hl => narrower_of_mem hline hl, ?_⟩
  · intro hparent hnil
    rw [hnil] at hline
    exact hparent hline
  · intro l hl pid hpid
    cases hls : (run step init ops).lineage i with
    | nil => simp [hls] at hl
    | cons first rest =>
      rw [hls] at hline hl
      obtain rfl : first = l := by simpa using hl
      exact hline.1.audience pid hpid

/-- A file object that pid 7 may read and derive from. -/
def sharedArgs : CreateArgs where
  kind := .file
  rights := rightRead ||| rightDerive
  audience := some [7]
  flags := 0#8
  kindData := 0
  ownerPid := 7

def readOnlyArgs : DeriveArgs where
  parentIdx := 1
  callerPid := 7
  rightsSubset := rightRead
  audienceSubset := none
  flagsSubset := 0#8

theorem derived_read_only_within_shared :
    (run step init [.create true sharedArgs, .derive true readOnlyArgs]).lineage 2 =
        [⟨newObject sharedArgs idxNone, none⟩] ∧
      Within (newObject (derivedArgs (newObject sharedArgs idxNone) readOnlyArgs) 1).rightsBitmap
        (newObject sharedArgs idxNone).rightsBitmap := by
  have hline : (run step init [.create true sharedArgs, .derive true readOnlyArgs]).lineage 2 =
      [⟨newObject sharedArgs idxNone, none⟩] := rfl
  have hresult := derived_authority_never_grows
    [.create true sharedArgs, .derive true readOnlyArgs] (i := 2)
    (o := newObject (derivedArgs (newObject sharedArgs idxNone) readOnlyArgs) 1) rfl
  refine ⟨hline, (hresult.2.1 ⟨newObject sharedArgs idxNone, none⟩ ?_).1⟩
  rw [hline]
  exact List.mem_singleton.mpr rfl

end GrahaOS.Authority
