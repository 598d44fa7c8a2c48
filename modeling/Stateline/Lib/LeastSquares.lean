import Mathlib

/-!
# Least squares with a prior

The moments of a list of observations together with those of a prior that counts as `w`
observations. They are kept as running means (`running_mean`); a positive definite prior
makes the normal equations solvable for any observations (`moments_posDef`, `solution_iff`).
-/

namespace Stateline.Lib.LeastSquares

open Matrix

/-- The next value of a running mean of `n` values. -/
theorem running_mean {K : Type*} [Field K] {n : K} (hn : n + 1 ≠ 0) (m v : K) :
    (m * (1 - 1 / (n + 1)) + v * (1 / (n + 1))) * (n + 1) = m * n + v := by
  field_simp
  ring

variable {ι : Type*} {w : ℝ} {M : Matrix ι ι ℝ}

/-- The second moments of a prior that counts as `w` observations, and of `xs`. -/
def moments (w : ℝ) (M : Matrix ι ι ℝ) (xs : List (ι → ℝ)) : Matrix ι ι ℝ :=
  of fun i j => w * M i j + (xs.map fun x => x i * x j).sum

theorem moments_cons (x : ι → ℝ) (xs : List (ι → ℝ)) :
    moments w M (x :: xs) = moments w M xs + vecMulVec x x := by
  ext i j
  simp only [moments, of_apply, List.map_cons, List.sum_cons, Matrix.add_apply, vecMulVec_apply]
  ring

variable [Fintype ι]

/-- **Any observations keep the second moments positive definite.** -/
theorem moments_posDef (hM : M.PosDef) (hw : 0 < w) (xs : List (ι → ℝ)) : (moments w M xs).PosDef := by
  induction xs with
  | nil =>
    have hprior : moments w M [] = w • M := by
      ext i j
      simp [moments]
    rw [hprior]
    exact hM.smul hw
  | cons x xs ih =>
    rw [moments_cons]
    exact ih.add_posSemidef (by simpa using posSemidef_vecMulVec_self_star x)

/-- The normal equations have one solution. -/
theorem solution_iff [DecidableEq ι] (hM : M.PosDef) {b v : ι → ℝ} : M *ᵥ v = b ↔ v = M⁻¹ *ᵥ b := by
  have hdet : IsUnit M.det := (isUnit_iff_isUnit_det M).1 hM.isUnit
  constructor
  · rintro rfl
    rw [mulVec_mulVec, nonsing_inv_mul _ hdet, one_mulVec]
  · rintro rfl
    rw [mulVec_mulVec, mul_nonsing_inv _ hdet, one_mulVec]

end Stateline.Lib.LeastSquares
