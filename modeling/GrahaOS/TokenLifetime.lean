import GrahaOS.CapHistory

/-!
# How long a token stays valid

Creation always starts at generation 1 and destruction forgets the generation of the slot, so a
token is told apart from those of later objects in the slot only while the slot is not given to a
second object. `Fresh` is that condition on a step: the slot about to be filled has never held an
object.
-/

namespace GrahaOS.TokenLifetime

open Token CapRegistry Revoke CapHistory Runs Masks

/-- The slot that the step is about to fill, if it fills one, never held an object. -/
def Fresh (h : History) (op : CapOp) : Prop :=
  takesSlot h.reg op = true → ∀ slot ∈ findFreeSlot h.reg, h.epoch slot = 0

instance (h : History) (op : CapOp) : Decidable (Fresh h op) :=
  inferInstanceAs (Decidable (_ → _))

/-- Object number `e` of slot `i` is in the registry and not revoked. -/
def Alive (h : History) (i e : ℕ) : Prop :=
  h.epoch i = e ∧ ∃ o, h.reg.ptrs i = some o ∧ o.deleted = false

/-- No slot has held two objects. -/
structure Once (h : History) : Prop where
  bounded : ∀ i o, h.reg.ptrs i = some o → i < capObjectCapacity
  le_one : ∀ i, h.epoch i ≤ 1
  occupied : ∀ i o, h.reg.ptrs i = some o → h.epoch i = 1

theorem once_init : Once init where
  bounded := by
    intro i o ho
    by_cases hi : i = 0
    · subst i
      decide
    · simp [init, capObjectInit, hi] at ho
  le_one := by
    intro i
    by_cases hi : i = 0 <;> simp [init, hi]
  occupied := by
    intro i o ho
    by_cases hi : i = 0
    · simp [init, hi]
    · simp [init, capObjectInit, hi] at ho

variable {h : History} {i : ℕ} {op : CapOp}

lemma epoch_of_filled (hf : Fresh h op) {o : CapObject} (hnone : h.reg.ptrs i = none)
    (ho : (step h op).reg.ptrs i = some o) : h.epoch i = 0 ∧ (step h op).epoch i = 1 := by
  rcases (capStep_effect h.reg op).slot ho with ⟨o₀, ho₀, -⟩ | ⟨-, htakes, hslot, -⟩
  · rw [hnone] at ho₀
    cases ho₀
  have hzero := hf htakes i hslot
  have hfilled : filled h.reg (capStep h.reg op) i = true := filled_eq_true.mpr ⟨hnone, o, ho⟩
  refine ⟨hzero, ?_⟩
  simp [step, hfilled, hzero]

theorem once_step (h : History) (op : CapOp) (hs : Once h) (hf : Fresh h op) :
    Once (step h op) where
  bounded := by
    intro i o ho
    rcases (capStep_effect h.reg op).slot ho with ⟨o₀, ho₀, -⟩ | ⟨-, -, hslot, -⟩
    · exact hs.bounded i o₀ ho₀
    · exact (findFreeSlot_spec hslot).2.1
  le_one := by
    intro i
    cases ho : (step h op).reg.ptrs i with
    | none =>
      rw [epoch_step_of_none op ho]
      exact hs.le_one i
    | some o =>
      cases hpre : h.reg.ptrs i with
      | none => exact (epoch_of_filled hf hpre ho).2.le
      | some o₀ =>
        rw [epoch_step_of_some op hpre]
        exact hs.le_one i
  occupied := by
    intro i o ho
    cases hpre : h.reg.ptrs i with
    | none => exact (epoch_of_filled hf hpre ho).2
    | some o₀ =>
      rw [epoch_step_of_some op hpre]
      exact hs.occupied i o₀ hpre

lemma epoch_one_step (hf : Fresh h op) (hi : h.epoch i = 1) : (step h op).epoch i = 1 := by
  cases ho : (step h op).reg.ptrs i with
  | none =>
    rw [epoch_step_of_none op ho]
    exact hi
  | some o =>
    cases hpre : h.reg.ptrs i with
    | none => exact (epoch_of_filled hf hpre ho).2
    | some o₀ =>
      rw [epoch_step_of_some op hpre]
      exact hi

/-- The only object the slot ever held is revoked or gone. -/
def Spent (i : ℕ) (h : History) : Prop :=
  h.epoch i = 1 ∧ ∀ o, h.reg.ptrs i = some o → o.deleted = true

lemma spent_step (h : History) (op : CapOp) (hs : Spent i h) (hf : Fresh h op) :
    Spent i (step h op) := by
  refine ⟨epoch_one_step hf hs.1, ?_⟩
  intro o ho
  cases hpre : h.reg.ptrs i with
  | none =>
    have hzero := (epoch_of_filled hf hpre ho).1
    rw [hs.1] at hzero
    cases hzero
  | some o₀ =>
    rcases (capStep_effect h.reg op).slot ho with ⟨o₁, ho₁, hev⟩ | ⟨hnone, -⟩
    · obtain rfl : o₀ = o₁ := by
        rw [hpre] at ho₁
        exact Option.some.inj ho₁
      exact hev.deleted (hs.2 o₀ hpre)
    · rw [hpre] at hnone
      cases hnone

lemma spent_of_not_alive (hi : h.epoch i = 1) (hd : ¬Alive h i 1) : Spent i h := by
  refine ⟨hi, ?_⟩
  intro o ho
  by_contra hlive
  exact hd ⟨hi, o, ho, by simpa using hlive⟩

lemma resolve_none_of_spent {tok : CapToken} (hs : Spent (capTokenIdx tok) h) (pid : ℤ)
    (rights : BitVec 64) : capTokenResolve h.reg pid tok rights = none := by
  rw [Option.eq_none_iff_forall_ne_some]
  intro i hres
  obtain ⟨rfl, -, -, o, ho, hlive, -⟩ := capTokenResolve_eq_some hres
  rw [hs.2 o ho] at hlive
  cases hlive

/-- In runs of fresh steps, a token minted for an object resolves to that object while
it is alive, and to nothing in every state after it has been revoked or destroyed. -/
theorem token_resolves_only_to_its_object {ops₁ ops₂ : List CapOp} {idx : ℕ} {obj : CapObject}
    (flags : BitVec 8) (hrun₁ : Guarded step Fresh init ops₁)
    (hobj : (run step init ops₁).reg.ptrs idx = some obj)
    (hrun₂ : Guarded step Fresh (run step init ops₁) ops₂) :
    (∀ pid rights i, capTokenResolve (run step init (ops₁ ++ ops₂)).reg pid
        (capTokenPack obj.generation idx flags) rights = some i →
      i = idx ∧ Alive (run step init (ops₁ ++ ops₂)) idx ((run step init ops₁).epoch idx)) ∧
    (¬Alive (run step init (ops₁ ++ ops₂)) idx ((run step init ops₁).epoch idx) →
      ∀ ops₃, Guarded step Fresh (run step init (ops₁ ++ ops₂)) ops₃ → ∀ pid rights,
        capTokenResolve (run step init (ops₁ ++ ops₂ ++ ops₃)).reg pid
          (capTokenPack obj.generation idx flags) rights = none) := by
  have hminted : Once (run step init ops₁) := invariant_run Once once_step once_init hrun₁
  have hepoch : (run step init ops₁).epoch idx = 1 := hminted.occupied idx obj hobj
  have htok : capTokenIdx (capTokenPack obj.generation idx flags) = idx := by
    have hidx := hminted.bounded idx obj hobj
    exact capTokenIdx_pack _ _ (lt_trans hidx (by decide))
  have hlater : (run step init (ops₁ ++ ops₂)).epoch idx = 1 := by
    rw [run_append]
    exact invariant_run (fun h => h.epoch idx = 1) (fun h op hi hf => epoch_one_step hf hi)
      hepoch hrun₂
  rw [hepoch]
  constructor
  · intro pid rights i hres
    obtain ⟨rfl, -, -, o, ho, hlive, -⟩ := capTokenResolve_eq_some hres
    rw [htok] at ho ⊢
    exact ⟨rfl, hlater, o, ho, hlive⟩
  · intro hdead ops₃ hrun₃ pid rights
    have hspent : Spent idx (run step init (ops₁ ++ ops₂ ++ ops₃)) := by
      rw [run_append]
      exact invariant_run (Spent idx) spent_step (spent_of_not_alive hlater hdead) hrun₃
    rw [← htok] at hspent
    exact resolve_none_of_spent hspent pid rights

lemma lt_capacity {ops : List CapOp} {i : ℕ} {o : CapObject}
    (ho : (run capStep capObjectInit ops).ptrs i = some o) : i < capObjectCapacity := by
  refine @invariant_run_all _ _ capStep _ (fun r => ∀ i o, r.ptrs i = some o → i < capObjectCapacity)
    (fun r op h i o ho => ?_) once_init.bounded ops i o ho
  rcases (capStep_effect r op).slot ho with ⟨o', ho', -⟩ | ⟨-, -, hslot, -⟩
  · exact h i o' ho'
  · exact (findFreeSlot_spec hslot).2.1

/-- A read-only file object for pid 7. -/
def fileArgs : CreateArgs where
  kind := .file
  rights := rightRead
  audience := some [7]
  flags := 0#8
  kindData := 0
  ownerPid := 7

theorem revoked_file_token_resolves_to_nothing :
    capTokenResolve (run step init [.create true fileArgs, .revoke 1]).reg 7
      (capTokenPack 1#32 1 0#8) rightRead = none := by
  have hminted : (run step init [.create true fileArgs]).reg.ptrs 1 =
      some (newObject fileArgs idxNone) := by rfl
  have hresult := @token_resolves_only_to_its_object [.create true fileArgs] [.revoke 1] 1
    (newObject fileArgs idxNone) 0#8 (by decide) hminted (by decide)
  refine hresult.2 ?_ [] trivial 7 rightRead
  rintro ⟨-, o, ho, hlive⟩
  obtain rfl : invalidate (newObject fileArgs idxNone) = o := by
    exact Option.some.inj ho
  cases hlive

/-- The slot of a revoked and destroyed object is given to the next object with the
same generation, and the old token then resolves to that object. -/
theorem stale_token_resolves_to_next_object :
    ∃ ops₁ ops₂ idx obj flags pid rights, (run step init ops₁).reg.ptrs idx = some obj ∧
      ¬Alive (run step init (ops₁ ++ ops₂)) idx ((run step init ops₁).epoch idx) ∧
      capTokenResolve (run step init (ops₁ ++ ops₂)).reg pid
        (capTokenPack obj.generation idx flags) rights = some idx := by
  refine ⟨[.create true fileArgs], [.revoke 1, .destroy 1, .create true fileArgs], 1,
    newObject fileArgs idxNone, 0#8, 7, rightRead, rfl, ?_, by decide⟩
  rintro ⟨hepoch, -⟩
  exact absurd hepoch (by decide)

end GrahaOS.TokenLifetime
