import Mathlib.Tactic

/-!
# Inclusion of bit masks

A mask is a fixed-width word read as a set of bits. `Within a b` says that every bit of `a` is a bit
of `b`, in the form kernels test it: masking the larger word with the smaller one gives the smaller
one back.
-/

namespace GrahaOS.Masks

variable {w : ℕ}

/-- Every bit of `a` is a bit of `b`: the test `(b & a) == a`. -/
def Within (a b : BitVec w) : Prop := b &&& a = a

instance (a b : BitVec w) : Decidable (Within a b) := inferInstanceAs (Decidable (_ = _))

theorem within_iff_getLsbD {a b : BitVec w} :
    Within a b ↔ ∀ i, a.getLsbD i = true → b.getLsbD i = true := by
  constructor
  · intro h i hi
    have hbit := congrArg (fun v : BitVec w => v.getLsbD i) h
    simp only [BitVec.getLsbD_and, hi, Bool.and_true] at hbit
    exact hbit
  · intro h
    apply BitVec.eq_of_getLsbD_eq
    intro i _
    rw [BitVec.getLsbD_and]
    cases ha : a.getLsbD i with
    | false => simp
    | true => simp [h i ha]

@[simp] theorem within_refl (a : BitVec w) : Within a a := BitVec.and_self

theorem within_trans {a b c : BitVec w} (hab : Within a b) (hbc : Within b c) : Within a c :=
  within_iff_getLsbD.mpr fun i hi => within_iff_getLsbD.mp hbc i (within_iff_getLsbD.mp hab i hi)

/-- A bit pattern seen in the smaller mask is seen in the larger one. -/
theorem and_ne_zero_of_within {a b m : BitVec w} (h : Within a b) (ha : a &&& m ≠ 0#w) :
    b &&& m ≠ 0#w := by
  intro hb
  apply ha
  rw [← h, BitVec.and_comm b a, BitVec.and_assoc, hb, BitVec.and_zero]

end GrahaOS.Masks
