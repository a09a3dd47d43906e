import GrahaOS.NetworkRuns

/-!
# Names of capabilities

`cap_register` compares the whole name with the names that are stored, stores the first 31
characters, and `cap_find` compares the whole name again. Two longer names with the same beginning
are stored as one name, and neither is found.
-/

namespace GrahaOS.NetworkNames

open Runs ActivationNetwork NetworkInvariant NetworkRuns

def capFind (s : Can) (name : Option Name) : ℤ :=
  match name with
  | none | some [] => capErrNotFound
  | some name =>
    ((List.range s.count).find? fun i => (s.entries i).any (·.named name)).elim capErrNotFound (↑·)

/-- The name fits into its field. -/
def Fits (name : Name) : Prop := name.length < capNameLen

instance (name : Name) : Decidable (Fits name) :=
  inferInstanceAs (Decidable (name.length < capNameLen))

/-- Registrations with names that fit, and unregistrations. -/
def NamesFit (_ : Option Can) : CanOp → Prop
  | .register r _ => ∀ name ∈ r.name, Fits name
  | .unregister _ _ => True
  | _ => False

/-- The stored names of two capabilities are different. -/
def DistinctNames (s : Can) : Prop :=
  ∀ i j e e', s.entries i = some e → s.entries j = some e' → e.name = e'.name → i = j

section Steps

variable {s s' : Can} {id i : ℕ} {cb : Callbacks} {rc : ℤ} {r : Registration} {name : Name}
  {allocOk : Bool}

lemma shape_name {e e' : CanEntry} (h : shape e = shape e') : e.name = e'.name := by
  have hname : (shape e).name = (shape e').name := by rw [h]
  exact hname

variable (hw : WellFormed s)
include hw

lemma capUnregister_entry (h : capUnregister cb s id = some (rc, s')) {e' : CanEntry}
    (he' : s'.entries i = some e') :
    ∃ e, s.entries i = some e ∧ shape e = shape e' := by
  rcases capUnregister_cases h with ⟨-, rfl⟩ | ⟨e, he, -, -, rfl⟩
  · exact ⟨e', he', rfl⟩
  obtain ⟨-, hkept⟩ := entries_of_remove he'
  split_ifs at hkept
  · exact (capDeactivate_deactivated hw).shape.entry hkept
  · exact ⟨e', hkept, rfl⟩

lemma capUnregister_wellFormed (h : capUnregister cb s id = some (rc, s')) : WellFormed s' := by
  rcases capUnregister_cases h with ⟨-, rfl⟩ | ⟨e, he, -, -, rfl⟩
  · exact hw
  apply wellFormed_remove
  split_ifs
  · exact (capDeactivate_deactivated hw).shape.wellFormed hw
  · exact hw

lemma capUnregister_distinct (hd : DistinctNames s) (h : capUnregister cb s id = some (rc, s'))
    : DistinctNames s' := by
  intro i j ei ej hi hj hname
  obtain ⟨e, he, hshape⟩ := capUnregister_entry hw h hi
  obtain ⟨e', he', hshape'⟩ := capUnregister_entry hw h hj
  exact hd i j e e' he he' (by rw [shape_name hshape, shape_name hshape', hname])

lemma not_named_of_hasName (h : s.hasName name = false) {e : CanEntry} (he : s.entries i = some e)
    : e.named name = false ∧ e.name ≠ name := by
  have hnone := List.any_eq_false.mp h i (List.mem_range.mpr (hw.bounded i e he))
  rw [he] at hnone
  have hnamed : e.named name = false := by simpa using hnone
  refine ⟨hnamed, fun hname => ?_⟩
  simp [CanEntry.named, hw.live i e he, hname] at hnamed

omit hw

lemma entry_name (h : Fits name) (deps : List ℕ) : (r.entry name deps).name = name :=
  List.take_of_length_le (Nat.le_pred_of_lt h)

include hw

lemma capRegister_distinct (hd : DistinctNames s) (hfits : ∀ name ∈ r.name, Fits name)
    (h : capRegister s r allocOk = some (rc, s')) :
    DistinctNames s' := by
  rcases capRegister_cases h with ⟨-, rfl | rfl⟩ | ⟨name, deps, hname, -, hnew, -, -, -, rfl⟩
  · exact hd
  · rwa [set_count_none hw]
  have hstored : (r.entry name deps).name = name := entry_name (hfits name hname) deps
  intro i j ei ej hi hj heq
  rcases entries_of_append hi with ⟨rfl, rfl⟩ | ⟨-, hi⟩ <;>
    rcases entries_of_append hj with ⟨rfl, rfl⟩ | ⟨-, hj⟩
  · rfl
  · exact absurd (heq.symm.trans hstored) (not_named_of_hasName hw hnew hj).2
  · exact absurd (heq.trans hstored) (not_named_of_hasName hw hnew hi).2
  · exact hd i j ei ej hi hj heq

lemma capFind_of_register (hfits : ∀ name ∈ r.name, Fits name)
    (h : capRegister s r allocOk = some (rc, s')) (hrc : 0 ≤ rc) : capFind s' r.name = rc := by
  rcases capRegister_cases h with ⟨hneg, -⟩ | ⟨name, deps, hname, hcons, hnew, -, -, rfl, rfl⟩
  · exact absurd hrc (not_le.mpr hneg)
  have hstored : (r.entry name deps).name = name := entry_name (hfits name hname) deps
  obtain ⟨c, cs, rfl⟩ := List.exists_cons_of_ne_nil hcons
  -- no entry before the new one has the name
  have hbefore : (List.range s.count).find? (fun i => ((s.set s.count
      (some (r.entry (c :: cs) deps))).entries i).any (·.named (c :: cs))) = none := by
    refine List.find?_eq_none.mpr fun i hi => ?_
    rw [Can.set_of_ne (List.mem_range.mp hi).ne]
    cases he : s.entries i with
    | none => simp
    | some e => simp [(not_named_of_hasName hw hnew he).1]
  have hlast : (r.entry (c :: cs) deps).named (c :: cs) = true := by
    rw [CanEntry.named, hstored]
    simp [Registration.entry]
  rw [hname, capFind.eq_3 _ _ hcons]
  rw [List.range_succ, List.find?_append, hbefore, Option.none_or, List.find?_singleton,
    Can.set_self, Option.any_some, if_pos hlast]
  rfl

end Steps

/-- The invariant of the names. -/
structure Named (s : Can) : Prop where
  wellFormed : WellFormed s
  distinct : DistinctNames s

lemma step_named {s s' : Can} {op : CanOp} (h : Named s) (hop : NamesFit (some s) op)
    (hstep : step (some s) op = some s') : Named s' := by
  obtain ⟨hw, hd⟩ := h
  cases op with
  | register r allocOk =>
    obtain ⟨⟨rc, s₂⟩, hreg, rfl⟩ := Option.map_eq_some_iff.mp hstep
    exact ⟨capRegister_wellFormed hw hreg, capRegister_distinct hw hd hop hreg⟩
  | unregister cb id =>
    obtain ⟨⟨rc, s₂⟩, hunreg, rfl⟩ := Option.map_eq_some_iff.mp hstep
    exact ⟨capUnregister_wellFormed hw hunreg, capUnregister_distinct hw hd hunreg⟩
  | activate cb id => exact hop.elim
  | deactivate cb id => exact hop.elim
  | setRefuseHook id fn => exact hop.elim

/-- In every registry that is reached by registrations with names that fit and by
unregistrations, stored names are distinct, and the next capability that is registered under a name
that fits is found under it. -/
theorem names_are_distinct_and_found {ops : List CanOp}
    (hops : Guarded step NamesFit (some Can.empty) ops) {s : Can}
    (hs : run step (some Can.empty) ops = some s) :
    DistinctNames s ∧
      ∀ (r : Registration) (allocOk : Bool) (rc : ℤ) (s' : Can), (∀ name ∈ r.name, Fits name) →
        capRegister s r allocOk = some (rc, s') → 0 ≤ rc → capFind s' r.name = rc := by
  have hempty : Named Can.empty := ⟨sound_empty.wellFormed, by simp [DistinctNames, Can.empty]⟩
  obtain ⟨hw, hd⟩ := run_keeps hempty step_named hops s hs
  exact ⟨hd, fun r allocOk rc s' hfits hreg hrc => capFind_of_register hw hfits hreg hrc⟩

/-- Two applications, the first of which is taken away, and its name is used again. -/
theorem name_is_used_again :
    ∃ s s', run step (some Can.empty)
        [.register editor true, .register spelling true, .unregister succeeding 0] = some s ∧
      DistinctNames s ∧ capRegister s editor true = some (2, s') ∧
      capFind s' (some "editor".toList) = 2 := by
  have hfits : ∀ name ∈ editor.name, Fits name := by
    intro name hname
    cases hname
    decide
  have hops : Guarded step NamesFit (some Can.empty)
      [.register editor true, .register spelling true, .unregister succeeding 0] := by
    refine ⟨hfits, ?_, trivial, trivial⟩
    intro name hname
    cases hname
    decide
  obtain ⟨hdistinct, hfound⟩ := names_are_distinct_and_found hops rfl
  exact ⟨_, _, rfl, hdistinct, rfl, hfound editor true 2 _ hfits rfl (by decide)⟩

/-- An application with a name of 31 letters `a` and one more letter. -/
def longName (c : Char) : Registration :=
  ⟨some (List.replicate 31 'a' ++ [c]), capApplication, [], 0, false, false⟩

/-- Two names that do not fit are stored as one, and neither is found. -/
theorem long_names_are_not_distinct :
    ∃ s e e', run step (some Can.empty)
        [.register (longName 'b') true, .register (longName 'c') true] = some s ∧
      s.entries 0 = some e ∧ s.entries 1 = some e' ∧ e.name = e'.name ∧
      capFind s (longName 'b').name = capErrNotFound ∧
      capFind s (longName 'c').name = capErrNotFound :=
  ⟨_, _, _, rfl, rfl, rfl, by decide, by decide, by decide⟩

end GrahaOS.NetworkNames
