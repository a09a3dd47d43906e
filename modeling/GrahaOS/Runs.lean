import Mathlib.Tactic

/-!
# Runs of a transition function

A system is a function `step : σ → ω → σ`; a failing operation returns the state it was given. A run
is a list of operations executed in order, and `Guarded` restricts it to operations that meet a side
condition in the state they are executed in. The rules carry the inductions over runs.

`forSlots` is the loop of a program over the slots of a table that are in use.
-/

namespace GrahaOS.Runs

variable {σ ω : Type*} (step : σ → ω → σ) (ok : σ → ω → Prop) {s : σ} {ops : List ω}

/-- The state after executing the operations in order. -/
def run (s : σ) (ops : List ω) : σ := ops.foldl step s

@[simp] theorem run_nil (s : σ) : run step s [] = s := rfl

@[simp] theorem run_cons (s : σ) (op : ω) (ops : List ω) :
    run step s (op :: ops) = run step (step s op) ops := rfl

@[simp] theorem run_append (s : σ) (ops ops' : List ω) :
    run step s (ops ++ ops') = run step (run step s ops) ops' := List.foldl_append

/-- Each operation of the run meets `ok` in the state it is executed in. -/
def Guarded : σ → List ω → Prop
  | _, [] => True
  | s, op :: ops => ok s op ∧ Guarded (step s op) ops

@[simp] theorem guarded_nil (s : σ) : Guarded step ok s [] := trivial

@[simp] theorem guarded_cons {op : ω} :
    Guarded step ok s (op :: ops) ↔ ok s op ∧ Guarded step ok (step s op) ops := Iff.rfl

instance guardedDecidable [∀ s op, Decidable (ok s op)] :
    ∀ (s : σ) (ops : List ω), Decidable (Guarded step ok s ops)
  | _, [] => .isTrue trivial
  | s, op :: ops =>
    have := guardedDecidable (step s op) ops
    inferInstanceAs (Decidable (ok s op ∧ Guarded step ok (step s op) ops))

theorem guarded_append {ops' : List ω} :
    Guarded step ok s (ops ++ ops') ↔
      Guarded step ok s ops ∧ Guarded step ok (run step s ops) ops' := by
  induction ops generalizing s with
  | nil => simp
  | cons op ops ih =>
    rw [List.cons_append, guarded_cons, guarded_cons, ih, run_cons, and_assoc]

/-- A condition on the operations alone guards any run of operations that meet it. -/
theorem guarded_of_forall {P : ω → Prop} (h : ∀ op ∈ ops, P op) (s : σ) :
    Guarded step (fun _ => P) s ops := by
  induction ops generalizing s with
  | nil => trivial
  | cons op ops ih =>
    exact ⟨h op List.mem_cons_self, ih (fun o ho => h o (List.mem_cons_of_mem _ ho)) _⟩

variable {step ok}

/-- An invariant that every admitted step keeps holds at the end of a guarded run. -/
theorem invariant_run (Inv : σ → Prop) (hstep : ∀ s op, Inv s → ok s op → Inv (step s op))
    (hs : Inv s) (hok : Guarded step ok s ops) : Inv (run step s ops) := by
  induction ops generalizing s with
  | nil => exact hs
  | cons op ops ih => exact ih (hstep s op hs hok.1) hok.2

/-- An invariant that every step keeps holds at the end of any run. -/
theorem invariant_run_all (Inv : σ → Prop) (hstep : ∀ s op, Inv s → Inv (step s op)) (hs : Inv s)
    (ops : List ω) : Inv (run step s ops) := by
  induction ops generalizing s with
  | nil => exact hs
  | cons op ops ih => exact ih (hstep s op hs)

/-- An invariant that every admitted step keeps may be used to show that the steps meet another
condition. -/
theorem guarded_of_invariant {ok' : σ → ω → Prop} (Inv : σ → Prop)
    (hstep : ∀ s op, Inv s → ok s op → Inv (step s op)) (h : ∀ s op, Inv s → ok s op → ok' s op)
    (hs : Inv s) (hok : Guarded step ok s ops) : Guarded step ok' s ops := by
  induction ops generalizing s with
  | nil => trivial
  | cons op ops ih => exact ⟨h s op hs hok.1, ih (hstep s op hs hok.1) hok.2⟩

/-- A reflexive, transitive relation that every admitted step stays in relates the
ends of a guarded run. -/
theorem relation_run {R : σ → σ → Prop} (hrefl : ∀ s, R s s)
    (htrans : ∀ {a b c}, R a b → R b c → R a c) (hstep : ∀ s op, ok s op → R s (step s op))
    (hok : Guarded step ok s ops) : R s (run step s ops) := by
  induction ops generalizing s with
  | nil => exact hrefl s
  | cons op ops ih => exact htrans (hstep s op hok.1) (ih hok.2)

/-- An operation done again and again, with an invariant that counts how often. -/
theorem guarded_replicate {op : ω} (Inv : ℕ → σ → Prop) (n : ℕ)
    (hstep : ∀ k s, k < n → Inv k s → ok s op ∧ Inv (k + 1) (step s op)) (hs : Inv 0 s) :
    Guarded step ok s (List.replicate n op) ∧ Inv n (run step s (List.replicate n op)) := by
  induction n with
  | zero => exact ⟨trivial, hs⟩
  | succ n ih =>
    obtain ⟨hguarded, hinv⟩ := ih fun k s hk => hstep k s (hk.trans n.lt_succ_self)
    obtain ⟨hok, hnext⟩ := hstep n _ n.lt_succ_self hinv
    rw [List.replicate_succ', guarded_append, run_append]
    exact ⟨⟨hguarded, hok, trivial⟩, hnext⟩

section Tables

variable {α : Type*}

/-- The loop over the slots of a table, in order, that handles those in use. The table is read
again at each slot. -/
def forSlots (table : σ → ℕ → Option α) (body : σ → ℕ → α → σ) : List ℕ → σ → σ
  | [], s => s
  | i :: is, s =>
    match table s i with
    | none => forSlots table body is s
    | some a => forSlots table body is (body s i a)

/-- A reflexive, transitive relation that the body stays in relates the ends of the loop. -/
theorem forSlots_rel {R : σ → σ → Prop} (hrefl : ∀ s, R s s)
    (htrans : ∀ {a b c}, R a b → R b c → R a c) {table : σ → ℕ → Option α}
    {body : σ → ℕ → α → σ} (hbody : ∀ s i a, table s i = some a → R s (body s i a))
    (is : List ℕ) (s : σ) : R s (forSlots table body is s) := by
  induction is generalizing s with
  | nil => exact hrefl s
  | cons i is ih =>
    rw [forSlots]
    cases ha : table s i with
    | none => exact ih s
    | some a => exact htrans (hbody s i a ha) (ih _)

end Tables

end GrahaOS.Runs
