import Mathlib.Data.Finset.Card
import Mathlib.Data.Set.Card
import Mathlib.Tactic

/-!
# Counting references

Each holder refers to at most one target: `f i = some k` says that holder `i` refers to `k`.
`holders s f k` is the number of holders in `s` that refer to `k`, and `refs f k` the number over
all holders, of which only finitely many refer to anything. The lemmas say how the numbers change
when holders take references or give them up.
-/

namespace GrahaOS.References

open Function List

variable {ι κ : Type*} [DecidableEq κ]

/-- The number of holders in `s` that refer to `k`. -/
def holders (s : Finset ι) (f : ι → Option κ) (k : κ) : ℕ :=
  (s.filter fun i => f i = some k).card

variable {s : Finset ι} {f g : ι → Option κ} {i : ι} {k : κ}

theorem holders_pos_iff : 0 < holders s f k ↔ ∃ i ∈ s, f i = some k := by
  simp [holders, Finset.card_pos, Finset.Nonempty]

theorem holders_le_card : holders s f k ≤ s.card := Finset.card_filter_le ..

/-- Distinct holders of `k` bound its count from below. -/
theorem card_le_holders {t : Finset ι} (hsub : t ⊆ s) (ht : ∀ i ∈ t, f i = some k) :
    t.card ≤ holders s f k := by
  apply Finset.card_le_card
  intro i hi
  exact Finset.mem_filter.mpr ⟨hsub hi, ht i hi⟩

variable [DecidableEq ι]

/-- A holder without a reference takes one. -/
theorem holders_take (hi : i ∈ s) (hfree : f i = none) (k k' : κ) :
    holders s (update f i (some k)) k' = holders s f k' + if k' = k then 1 else 0 := by
  have hrest : ∀ j ∈ s, j ≠ i → (update f i (some k) j = some k' ↔ f j = some k') := by
    intro j _ hj
    rw [update_of_ne hj]
  unfold holders
  split_ifs with hk
  · subst hk
    have hinsert : (s.filter fun j => update f i (some k') j = some k') =
        insert i (s.filter fun j => f j = some k') := by
      ext j
      simp only [Finset.mem_filter, Finset.mem_insert]
      by_cases hj : j = i
      · subst hj
        simp [hi]
      · simp [hj]
    rw [hinsert, Finset.card_insert_of_notMem (by simp [hfree])]
  · rw [add_zero]
    congr 1
    refine Finset.filter_congr fun j hj => ?_
    by_cases hji : j = i
    · subst hji
      simp [hfree, Ne.symm hk]
    · exact hrest j hj hji

/-- A holder gives its reference up. -/
theorem holders_drop (hi : i ∈ s) (hk : f i = some k) (k' : κ) :
    holders s (update f i none) k' + (if k' = k then 1 else 0) = holders s f k' := by
  have hback : update (update f i none) i (some k) = f := by
    rw [update_idem, ← hk, update_eq_self]
  have htake := holders_take hi (update_self i none f) k k'
  rw [hback] at htake
  exact htake.symm

/-- Only finitely many holders refer to anything. -/
def FinitelyMany (f : ι → Option κ) : Prop := {i | f i ≠ none}.Finite

/-- The number of holders that refer to `k`. -/
noncomputable def refs (f : ι → Option κ) (k : κ) : ℕ := {i | f i = some k}.ncard

omit [DecidableEq ι] in
theorem refs_eq_holders (h : ∀ i ∉ s, f i = none) : refs f k = holders s f k := by
  rw [refs, holders, ← Set.ncard_coe_finset]
  congr 1
  ext j
  simp only [Set.mem_ofPred_eq, Finset.coe_filter]
  refine ⟨fun hj => ⟨?_, hj⟩, fun hj => hj.2⟩
  by_contra hmem
  rw [h j hmem] at hj
  cases hj

variable (h : FinitelyMany f)
include h

omit [DecidableEq κ] in
lemma FinitelyMany.cover (i : ι) :
    ∃ s : Finset ι, i ∈ s ∧ ∀ j ∉ s, f j = none := by
  refine ⟨insert i h.toFinset, Finset.mem_insert_self .., fun j hj => ?_⟩
  by_contra hne
  exact hj (Finset.mem_insert_of_mem (h.mem_toFinset.mpr hne))

omit [DecidableEq κ] in
theorem FinitelyMany.update (i : ι) (r : Option κ) :
    FinitelyMany (update f i r) := by
  apply (h.insert i).subset
  intro j hj
  by_cases hji : j = i
  · exact .inl hji
  · rw [Set.mem_ofPred_eq, update_of_ne hji] at hj
    exact .inr hj

omit [DecidableEq κ] [DecidableEq ι] in
theorem refs_pos_iff : 0 < refs f k ↔ ∃ i, f i = some k := by
  have hfin : {i | f i = some k}.Finite := by
    apply h.subset
    intro i hi hnone
    rw [Set.mem_ofPred_eq, hnone] at hi
    cases hi
  rw [refs, Set.ncard_pos hfin]
  rfl

theorem refs_take (hfree : f i = none) (k k' : κ) :
    refs (update f i (some k)) k' = refs f k' + if k' = k then 1 else 0 := by
  obtain ⟨s, hi, hs⟩ := h.cover i
  have hs' : ∀ j ∉ s, update f i (some k) j = none := by
    intro j hj
    have hji : j ≠ i := fun heq => hj (heq ▸ hi)
    rw [update_of_ne hji, hs j hj]
  rw [refs_eq_holders hs', refs_eq_holders hs, holders_take hi hfree]

theorem refs_drop (hk : f i = some k) (k' : κ) :
    refs (update f i none) k' + (if k' = k then 1 else 0) = refs f k' := by
  have hback : update (update f i none) i (some k) = f := by
    rw [update_idem, ← hk, update_eq_self]
  have htake := refs_take (h.update i none) (update_self i none f) k k'
  rw [hback] at htake
  exact htake.symm

/-- A holder gives up what it has and takes something else, or nothing. -/
theorem refs_update (r : Option κ) (k : κ) :
    refs (update f i r) k + (if f i = some k then 1 else 0) =
      refs f k + if r = some k then 1 else 0 := by
  have hdrop : refs (update f i none) k + (if f i = some k then 1 else 0) = refs f k := by
    cases hf : f i with
    | none => rw [← hf, update_eq_self]; simp [hf]
    | some k₁ => simpa only [Option.some.injEq, eq_comm] using refs_drop h hf k
  rw [← hdrop, add_right_comm]
  congr 1
  cases r with
  | none => simp
  | some k₂ =>
    have htake := refs_take (h.update i none) (update_self i none f) k₂ k
    rw [update_idem] at htake
    simpa only [Option.some.injEq, eq_comm] using htake

/-- Distinct holders without a reference take those that the list pairs them with. -/
theorem refs_extend {l : List (ι × κ)} (hl : (l.map Prod.fst).Nodup)
    (hf : ∀ x ∈ l, f x.1 = none) (hg : ∀ x ∈ l, g x.1 = some x.2)
    (hout : ∀ i ∉ l.map Prod.fst, g i = f i) :
    FinitelyMany g ∧ ∀ k, refs g k = refs f k + (l.map Prod.snd).count k := by
  induction l generalizing f with
  | nil =>
    obtain rfl : g = f := funext fun i => hout i not_mem_nil
    exact ⟨h, fun k => rfl⟩
  | cons x l ih =>
  obtain ⟨hx, hl⟩ := nodup_cons.mp hl
  have hne : ∀ y ∈ l, y.1 ≠ x.1 := fun y hy heq => hx (heq ▸ mem_map_of_mem hy)
  obtain ⟨hfin, hcount⟩ := ih (h.update x.1 (some x.2)) hl
    (fun y hy => by
      rw [update_of_ne (hne y hy)]
      exact hf y (mem_cons_of_mem _ hy))
    (fun y hy => hg y (mem_cons_of_mem _ hy))
    (fun i hi => by
      by_cases hix : i = x.1
      · rw [hix, update_self, hg x mem_cons_self]
      · rw [update_of_ne hix]
        exact hout i (by simpa [hix] using hi))
  refine ⟨hfin, fun k => ?_⟩
  rw [hcount, refs_take h (hf x mem_cons_self), map_cons, count_cons]
  simp only [beq_iff_eq, eq_comm (a := x.2)]
  omega

end GrahaOS.References
