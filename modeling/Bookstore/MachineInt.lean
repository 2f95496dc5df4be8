import Mathlib.Data.Int.Basic
import Mathlib.Tactic.NormNum
import Mathlib.Order.Basic

/-!
Signed 32-bit arithmetic read in the unbounded integers. Sums and differences
are exact as long as the exact result is representable; otherwise they wrap.
-/
namespace Bookstore.MachineInt

/-- The largest `int`. -/
def intMax : ℤ := 2147483647

theorem toInt_le_intMax (a : Int32) : a.toInt ≤ intMax := by
  have h := a.toInt_lt
  unfold intMax
  omega

theorem toInt_add_of_fits (a b : Int32) (hlow : -2147483648 ≤ a.toInt + b.toInt)
    (hhigh : a.toInt + b.toInt ≤ intMax) : (a + b).toInt = a.toInt + b.toInt := by
  unfold intMax at hhigh
  rw [Int32.toInt_add, Int.bmod_eq_of_le] <;> omega

theorem toInt_sub_of_fits (a b : Int32) (hlow : -2147483648 ≤ a.toInt - b.toInt)
    (hhigh : a.toInt - b.toInt ≤ intMax) : (a - b).toInt = a.toInt - b.toInt := by
  unfold intMax at hhigh
  rw [Int32.toInt_sub, Int.bmod_eq_of_le] <;> omega

theorem toInt_pos_of_not_le {a : Int32} (h : ¬ a ≤ 0) : 0 < a.toInt := by
  rw [Int32.le_iff_toInt_le] at h
  simpa using h

theorem le_toInt_of_not_lt {a b : Int32} (h : ¬ a < b) : b.toInt ≤ a.toInt := by
  rw [Int32.lt_iff_toInt_lt] at h
  omega

/-- Taking a positive amount that is covered never wraps. -/
theorem toInt_sub_of_covered {a b : Int32} (hpos : 0 < b.toInt) (hle : b.toInt ≤ a.toInt) :
    (a - b).toInt = a.toInt - b.toInt := by
  have h := toInt_le_intMax a
  apply toInt_sub_of_fits <;> omega

/-- The value of `static_cast<int>`. -/
def toCInt (z : ℤ) : ℤ := (Int32.ofInt z).toInt

theorem toCInt_eq_bmod (z : ℤ) : toCInt z = z.bmod (2 ^ 32) := Int32.toInt_ofInt

theorem toCInt_of_fits {z : ℤ} (hlow : -2147483648 ≤ z) (hhigh : z ≤ intMax) : toCInt z = z := by
  unfold intMax at hhigh
  rw [toCInt_eq_bmod, Int.bmod_eq_of_le] <;> omega

theorem exists_toCInt_eq (z : ℤ) :
    ∃ q, toCInt z = z + 4294967296 * q ∧ -2147483648 ≤ toCInt z ∧ toCInt z ≤ 2147483647 := by
  have hlow := (Int32.ofInt z).le_toInt
  have hhigh := (Int32.ofInt z).toInt_lt
  refine ⟨-z.bdiv (2 ^ 32), ?_, hlow, Int.le_of_lt_add_one hhigh⟩
  have hdiv := Int.bmod_add_bdiv z (2 ^ 32)
  rw [toCInt_eq_bmod]
  omega

theorem ofInt_le_zero_iff (z : ℤ) : Int32.ofInt z ≤ 0 ↔ toCInt z ≤ 0 := by
  rw [Int32.le_iff_toInt_le, Int32.toInt_zero, toCInt]

/-- Widening keeps the sign. -/
theorem toInt64_le_zero_iff (a : Int32) : a.toInt64 ≤ 0 ↔ a ≤ 0 := by
  rw [Int64.le_iff_toInt_le, Int32.le_iff_toInt_le, Int32.toInt_toInt64, Int32.toInt_zero,
    Int64.toInt_zero]

end Bookstore.MachineInt
