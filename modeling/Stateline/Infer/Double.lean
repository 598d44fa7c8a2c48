import Mathlib
import Stateline.Lib.Reflection

/-!
# Floating point numbers

What the inference code does with a `double`, as a class of operations with no
laws. Random draws are arguments of the functions that use them.

* `Double ℝ`: exact arithmetic.
-/

namespace Stateline

/-- A `double`, with the functions of `<cmath>` and the linear solver that the code calls. -/
class Double (F : Type) extends Add F, Sub F, Neg F, Mul F, Div F, OfScientific F where
  lt : F → F → Bool
  exp : F → F
  log : F → F
  isInf : F → Bool
  ofInt : ℤ → F
  /-- `a.colPivHouseholderQr().solve(b)`. -/
  solve : (Fin 3 → Fin 3 → F) → (Fin 3 → F) → Fin 3 → F

namespace Double

variable {F : Type} [Double F]

/-- `std::max`. -/
def max (a b : F) : F := if lt a b then b else a

/-- `std::min`. -/
def min (a b : F) : F := if lt b a then b else a

end Double

open Classical in
/-- Exact arithmetic, with no infinite value. -/
noncomputable instance : Double ℝ where
  lt a b := decide (a < b)
  exp := Real.exp
  log := Real.log
  isInf _ := false
  ofInt z := z
  solve a b := (Matrix.of a)⁻¹.mulVec b

theorem Double.max_eq (a b : ℝ) : Double.max a b = a ⊔ b := by
  simp only [Double.max, Double.lt, decide_eq_true_eq, max_def_lt]

theorem Double.min_eq (a b : ℝ) : Double.min a b = a ⊓ b := by
  rw [min_comm]
  simp only [Double.min, Double.lt, decide_eq_true_eq, min_def_lt]

theorem Double.zero_eq : (0.0 : ℝ) = 0 := by norm_num

theorem Double.one_eq : (1.0 : ℝ) = 1 := by norm_num

theorem Double.ofInt_natCast (n : ℕ) : (Double.ofInt (n : ℤ) : ℝ) = n := Int.cast_natCast n

/-- The solution of a regular system. -/
theorem Double.solve_eq {m : Fin 3 → Fin 3 → ℝ} {b w : Fin 3 → ℝ} (hdet : (Matrix.of m).det ≠ 0)
    (h : (Matrix.of m).mulVec w = b) : Double.solve m b = w := by
  show (Matrix.of m)⁻¹.mulVec b = w
  rw [← h, Matrix.mulVec_mulVec, Matrix.nonsing_inv_mul _ (isUnit_iff_ne_zero.2 hdet),
    Matrix.one_mulVec]

/-- A `double`, with what the proposal calls besides. -/
class CMath (F : Type) extends Double F where
  sqrt : F → F
  /-- The integral part, as an integer of any size. -/
  trunc : F → ℤ

noncomputable instance : CMath ℝ where
  sqrt := Real.sqrt
  trunc x := if 0 ≤ x then ⌊x⌋ else ⌈x⌉

end Stateline
