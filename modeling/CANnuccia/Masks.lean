import Mathlib.Logic.Basic

/-!
# Setting and clearing the bits of a register

A driver changes a register that other parts share through a mask: it or-s the mask to it,
or and-s its complement. A mask that has no bit in common with it reads the same after.
-/
namespace Masks

variable {w : Nat}

/-- A bit of a register that the hardware sets. -/
def flag (b : Bool) (m : BitVec w) : BitVec w := if b then m else 0

@[simp] theorem or_mask (v m : BitVec w) : (v ||| m) &&& m = m := by
  apply BitVec.eq_of_getLsbD_eq
  intro i hi
  rw [BitVec.getLsbD_and, BitVec.getLsbD_or]
  cases v.getLsbD i <;> cases m.getLsbD i <;> rfl

theorem and_or_self (v m : BitVec w) : v &&& m ||| m = m := by
  apply BitVec.eq_of_getLsbD_eq
  intro i hi
  rw [BitVec.getLsbD_or, BitVec.getLsbD_and]
  cases v.getLsbD i <;> cases m.getLsbD i <;> rfl

/-- Setting bits again changes nothing. -/
theorem or_or_self (v m : BitVec w) : v ||| (v ||| m) = v ||| m := by
  rw [← BitVec.or_assoc, BitVec.or_self]

/-- Bits just cleared read back as zero. -/
theorem and_not_mask (v m : BitVec w) : v &&& ~~~m &&& m = 0 := by
  rw [BitVec.and_assoc, BitVec.not_and_self]
  exact BitVec.and_zero

/-- Writing back what was read with a bit more clears all of it. -/
theorem and_not_or_self (v m : BitVec w) : v &&& ~~~(v ||| m) = 0 := by
  rw [BitVec.not_or, ← BitVec.and_assoc, BitVec.and_not_self]
  exact BitVec.zero_and

theorem and_not_or_mask (v m : BitVec w) : v &&& ~~~(v ||| m) &&& m = 0 := by
  rw [and_not_or_self]
  exact BitVec.zero_and

/-- Values agree under a mask if they do in every bit it has. -/
theorem and_mask_iff (a b m : BitVec w) :
    a &&& m = b &&& m ↔ ∀ i < w, m.getLsbD i = true → a.getLsbD i = b.getLsbD i := by
  constructor
  · intro h i _ hm
    have hbit := congrArg (fun v => v.getLsbD i) h
    simpa [hm] using hbit
  · intro h
    apply BitVec.eq_of_getLsbD_eq
    intro i hi
    rw [BitVec.getLsbD_and, BitVec.getLsbD_and]
    cases hm : m.getLsbD i with
    | false => rw [Bool.and_false, Bool.and_false]
    | true => rw [h i hi hm]

/-- Setting some bits keeps the others. -/
theorem or_disjoint (v m m' : BitVec w) (h : m &&& m' = 0#w) : (v ||| m) &&& m' = v &&& m' := by
  rw [BitVec.and_or_distrib_right, h]
  exact BitVec.or_zero

/-- Clearing some bits keeps the others. -/
theorem and_not_disjoint (v m m' : BitVec w) (h : m &&& m' = 0#w) :
    v &&& ~~~m &&& m' = v &&& m' := by
  rw [and_mask_iff]
  intro i hi hm'
  have hm : m.getLsbD i = false := by
    have hbit := congrArg (fun v => v.getLsbD i) h
    simpa [hm'] using hbit
  rw [BitVec.getLsbD_and, BitVec.getLsbD_not, hm, decide_eq_true hi]
  exact Bool.and_true _

/-- Writing a field of a register keeps the others. -/
theorem write_disjoint (v m x m' : BitVec w) (h : m &&& m' = 0#w) (hx : x &&& m' = 0#w) :
    (v &&& ~~~m ||| x) &&& m' = v &&& m' := by
  rw [or_disjoint _ _ _ hx, and_not_disjoint _ _ _ h]

end Masks
