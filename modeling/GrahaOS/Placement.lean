import Mathlib.Data.List.Perm.Basic
import Mathlib.Data.List.Nodup
import Mathlib.Tactic

/-!
# Families of lists without overlap

`Separate` says of a family of lists, over any index, that no element is on a list twice or on two
lists. The rules are the ways in which such a family changes: lists lose elements, elements go from
one list to another, and an element that is on no list is put on one.
-/

namespace GrahaOS.Placement

variable {ι α : Type*} {f g : ι → List α} {p q : ι} {x : α}

/-- No element is on a list twice, or on two lists. -/
structure Separate (f : ι → List α) : Prop where
  nodup : ∀ p, (f p).Nodup
  apart : ∀ {p q x}, x ∈ f p → x ∈ f q → p = q

variable (h : Separate f)
include h

/-- Lists lose elements. -/
theorem Separate.mono (hsub : ∀ p, (g p).Sublist (f p)) : Separate g where
  nodup := fun p => (h.nodup p).sublist (hsub p)
  apart := fun hx hy => h.apart ((hsub _).subset hx) ((hsub _).subset hy)

theorem Separate.notMem (hx : x ∈ f p) (hne : q ≠ p) : x ∉ f q :=
  fun hq => hne (h.apart hq hx)

/-- Elements go from one of two lists to the other. -/
theorem Separate.exchange (hne : p ≠ q) (hperm : (g p ++ g q).Perm (f p ++ f q))
    (hothers : ∀ r, r ≠ p → r ≠ q → g r = f r) : Separate g := by
  have hdisjoint : (f p).Disjoint (f q) := fun x hx hy => hne (h.apart hx hy)
  have hnodup : (g p ++ g q).Nodup := hperm.nodup_iff.mpr ((h.nodup p).append (h.nodup q) hdisjoint)
  -- where an element was, as far as the two lists are not told apart
  have hwas : ∀ {r x}, x ∈ g r → (r = p ∨ r = q) ∧ (x ∈ f p ∨ x ∈ f q) ∨
      (r ≠ p ∧ r ≠ q) ∧ x ∈ f r := by
    intro r x hx
    by_cases hr : r = p ∨ r = q
    · refine .inl ⟨hr, List.mem_append.mp (hperm.mem_iff.mp (List.mem_append.mpr ?_))⟩
      rcases hr with rfl | rfl
      · exact .inl hx
      · exact .inr hx
    · rw [not_or] at hr
      exact .inr ⟨hr, hothers r hr.1 hr.2 ▸ hx⟩
  refine ⟨fun r => ?_, fun {r s x} hr hs => ?_⟩
  · by_cases hr : r = p
    · exact hr ▸ (List.nodup_append.mp hnodup).1
    · by_cases hr' : r = q
      · exact hr' ▸ (List.nodup_append.mp hnodup).2.1
      · exact hothers r hr hr' ▸ h.nodup r
  · rcases hwas hr with ⟨hrpq, hfr⟩ | ⟨hrpq, hfr⟩ <;> rcases hwas hs with ⟨hspq, hfs⟩ | ⟨hspq, hfs⟩
    · have hapart : ∀ {x}, x ∈ g p → x ∉ g q := fun hp hq =>
        (List.nodup_append'.mp hnodup).2.2 hp hq
      rcases hrpq with rfl | rfl <;> rcases hspq with rfl | rfl
      · rfl
      · exact absurd hs (hapart hr)
      · exact absurd hr (hapart hs)
      · rfl
    · rcases hfr with hf | hf
      · exact absurd (h.apart hfs hf) hspq.1
      · exact absurd (h.apart hfs hf) hspq.2
    · rcases hfs with hf | hf
      · exact absurd (h.apart hfr hf) hrpq.1
      · exact absurd (h.apart hfr hf) hrpq.2
    · exact h.apart hfr hfs

/-- An element goes from one list to another. -/
theorem Separate.hand (hne : p ≠ q) (hp : (f p).Perm (x :: g p)) (hq : (g q).Perm (x :: f q))
    (hothers : ∀ r, r ≠ p → r ≠ q → g r = f r) : Separate g := by
  have hmiddle : (g p ++ g q).Perm (x :: g p ++ f q) := (hq.append_left _).trans List.perm_middle
  exact h.exchange hne (hmiddle.trans (hp.symm.append_right _)) hothers

/-- Elements that are on no list are put on one. -/
theorem Separate.put {xs : List α} (hnodup : xs.Nodup) (hxs : ∀ x ∈ xs, ∀ p, x ∉ f p)
    (hperm : (g q).Perm (xs ++ f q))
    (hothers : ∀ r, r ≠ q → g r = f r) : Separate g := by
  have hmem : ∀ {r y}, y ∈ g r → r = q ∧ y ∈ xs ∨ y ∈ f r := by
    intro r y hy
    by_cases hr : r = q
    · subst hr
      exact (List.mem_append.mp (hperm.mem_iff.mp hy)).imp_left fun hyx => ⟨rfl, hyx⟩
    · exact .inr (hothers r hr ▸ hy)
  refine ⟨fun r => ?_, fun {r s y} hr hs => ?_⟩
  · by_cases hr : r = q
    · subst hr
      exact hperm.nodup_iff.mpr (hnodup.append (h.nodup r) fun x hx => hxs x hx r)
    · exact hothers r hr ▸ h.nodup r
  · rcases hmem hr with ⟨hrq, hy⟩ | hfr <;> rcases hmem hs with ⟨hsq, hy'⟩ | hfs
    · exact hrq.trans hsq.symm
    · exact absurd hfs (hxs y hy s)
    · exact absurd hfr (hxs y hy' r)
    · exact h.apart hfr hfs

end GrahaOS.Placement
