import Mathlib

/-!
# Rank-one updates of a triangular factor

A factor `R` of `M = R Rᵀ` becomes one of `M + x xᵀ`, one column after the other.
The column and the working vector are turned against each other (`turn`, `rest`),
such that the entry of the vector on the diagonal vanishes and the sum of their
products stays.

* `Partly M k R x`: the columns before `k` are done, and what is left of `x` is its tail.
* `Partly.column`: the next column. `Partly.factor`: all of them.
-/

namespace Stateline.Lib.Cholesky

open Matrix

variable {K : Type*} [Field K]

section Turn

variable {ι : Type*} {c s : K}

/-- The first of two vectors, turned. -/
def turn (c s : K) (a p : ι → K) : ι → K := fun i => (a i + s * p i) / c

/-- The second one. -/
def rest (c s : K) (a p : ι → K) : ι → K := fun i => c * p i - s * turn c s a p i

/-- **A turn keeps the products.** -/
theorem turn_mul_add (hc : c ≠ 0) (h : c * c = 1 + s * s) (a p : ι → K) (i j : ι) :
    turn c s a p i * turn c s a p j + rest c s a p i * rest c s a p j = a i * a j + p i * p j := by
  have hrest : ∀ i, rest c s a p i = (p i - s * a i) / c := by
    intro i
    unfold rest turn
    rw [eq_div_iff hc, sub_mul, mul_right_comm, h, mul_div_assoc', div_mul_cancel₀ _ hc]
    ring
  rw [hrest, hrest]
  unfold turn
  rw [div_mul_div_comm, div_mul_div_comm, ← add_div, div_eq_iff (mul_ne_zero hc hc), h]
  ring

end Turn

/-- A factor with one column replaced. -/
theorem updateCol_mul_transpose {ι : Type*} [Fintype ι] [DecidableEq ι] (R : Matrix ι ι K)
    (k : ι) (a : ι → K) (i j : ι) : (R.updateCol k a * (R.updateCol k a)ᵀ) i j + R i k * R j k =
      (R * Rᵀ) i j + a i * a j := by
  simp only [mul_apply, transpose_apply, updateCol_apply]
  rw [← Finset.add_sum_erase _ _ (Finset.mem_univ k),
    ← Finset.add_sum_erase Finset.univ _ (Finset.mem_univ k)]
  have hsame : ∑ l ∈ Finset.univ.erase k,
      (if l = k then a i else R i l) * (if l = k then a j else R j l) =
      ∑ l ∈ Finset.univ.erase k, R i l * R j l := by
    refine Finset.sum_congr rfl ?_
    intro l hl
    rw [if_neg (Finset.ne_of_mem_erase hl), if_neg (Finset.ne_of_mem_erase hl)]
  rw [hsame, if_pos rfl, if_pos rfl]
  ring

variable [LinearOrder K] {d : ℕ}

/-- What is left of the vector when the columns before `k` are done. -/
def tail (k : ℕ) (x : Fin d → K) : Fin d → K := fun i => if k ≤ i then x i else 0

/-- **The columns before `k` are done**: a lower triangular factor, and a vector that is still to be
added. -/
structure Partly (M : Matrix (Fin d) (Fin d) K) (k : ℕ) (R : Matrix (Fin d) (Fin d) K)
    (x : Fin d → K) : Prop where
  lower : ∀ i j, i < j → R i j = 0
  pos : ∀ i, 0 < R i i
  product : ∀ i j, (R * Rᵀ) i j + tail k x i * tail k x j = M i j

variable {M R : Matrix (Fin d) (Fin d) K} {x : Fin d → K} {k : Fin d} {r : K}

/-- The column `k` of the factor, turned so that its diagonal entry is `r`. -/
def columnOf (R : Matrix (Fin d) (Fin d) K) (x : Fin d → K) (k : Fin d) (r : K) : Fin d → K := fun i =>
  if i = k then r else if k < i then (R i k + x k / R k k * x i) / (r / R k k) else R i k

/-- What the vector is after the column `k`. -/
def vectorOf (R : Matrix (Fin d) (Fin d) K) (x : Fin d → K) (k : Fin d) (r : K) : Fin d → K := fun i =>
  if k < i then r / R k k * x i - x k / R k k * columnOf R x k r i else x i

omit [LinearOrder K] in
theorem columnOf_diag : columnOf R x k r k = r := if_pos rfl

theorem Partly.columnOf_above (h : Partly M k R x) {i : Fin d} (hi : i < k) :
    columnOf R x k r i = 0 := by
  unfold columnOf
  rw [if_neg hi.ne, if_neg hi.not_gt, h.lower i k hi]

/-- The turn takes the vector away at the diagonal. Above it there is nothing to turn. -/
theorem Partly.columnOf_eq (h : Partly M k R x) (hr : r ≠ 0)
    (hsq : r * r = R k k * R k k + x k * x k) :
    columnOf R x k r = turn (r / R k k) (x k / R k k) (fun i => R i k) (tail k x) := by
  have hV : R k k ≠ 0 := (h.pos k).ne'
  funext i
  unfold turn tail
  dsimp only
  rcases lt_trichotomy i k with hlt | rfl | hgt
  · rw [h.columnOf_above hlt, if_neg (show ¬ (k : ℕ) ≤ i from not_le.2 hlt), h.lower i k hlt]
    simp
  · rw [columnOf_diag, if_pos le_rfl, eq_div_iff (div_ne_zero hr hV), div_mul_eq_mul_div,
      mul_div_assoc', hsq, add_div, mul_div_cancel_right₀ _ hV]
  · unfold columnOf
    rw [if_neg hgt.ne', if_pos hgt, if_pos (show (k : ℕ) ≤ i from le_of_lt hgt)]

/-- What is left of the vector is the rest of the turn. -/
theorem Partly.vectorOf_eq (h : Partly M k R x) (hr : r ≠ 0)
    (hsq : r * r = R k k * R k k + x k * x k) :
    tail (k + 1) (vectorOf R x k r) =
      rest (r / R k k) (x k / R k k) (fun i => R i k) (tail k x) := by
  funext i
  unfold rest
  rw [← h.columnOf_eq hr hsq]
  unfold tail vectorOf
  rcases lt_trichotomy i k with hlt | rfl | hgt
  · rw [if_neg (show ¬ (k : ℕ) + 1 ≤ i by omega), if_neg (show ¬ (k : ℕ) ≤ i from not_le.2 hlt),
      h.columnOf_above hlt]
    simp
  · rw [if_neg (by omega), if_pos le_rfl, columnOf_diag]
    ring
  · rw [if_pos (show (k : ℕ) + 1 ≤ i from hgt), if_pos hgt,
      if_pos (show (k : ℕ) ≤ i from le_of_lt hgt)]

/-- **The next column.** -/
theorem Partly.column (h : Partly M k R x) (hr : 0 < r) (hsq : r * r = R k k * R k k + x k * x k) :
    Partly M (k + 1) (R.updateCol k (columnOf R x k r)) (vectorOf R x k r) := by
  have hV : R k k ≠ 0 := (h.pos k).ne'
  have hcs : r / R k k * (r / R k k) = 1 + x k / R k k * (x k / R k k) := by
    rw [div_mul_div_comm, div_mul_div_comm, hsq, add_div, div_self (mul_ne_zero hV hV)]
  refine ⟨?_, ?_, ?_⟩
  · intro i j hij
    rw [updateCol_apply]
    split
    · rename_i hj
      subst hj
      exact h.columnOf_above hij
    · exact h.lower i j hij
  · intro i
    rw [updateCol_apply]
    split
    · rename_i hi
      subst hi
      rwa [columnOf_diag]
    · exact h.pos i
  · intro i j
    have hupdate := updateCol_mul_transpose R k (columnOf R x k r) i j
    have hproduct : columnOf R x k r i * columnOf R x k r j + tail (k + 1) (vectorOf R x k r) i *
        tail (k + 1) (vectorOf R x k r) j = R i k * R j k + tail k x i * tail k x j := by
      rw [h.vectorOf_eq hr.ne' hsq, h.columnOf_eq hr.ne' hsq]
      exact turn_mul_add (div_ne_zero hr.ne' hV) hcs _ _ i j
    have hM := h.product i j
    linear_combination hupdate + hproduct + hM

/-- Before the first column. -/
theorem Partly.start (hlower : ∀ i j, i < j → R i j = 0) (hpos : ∀ i, 0 < R i i) (x : Fin d → K) :
    Partly (R * Rᵀ + vecMulVec x x) 0 R x := by
  refine ⟨hlower, hpos, ?_⟩
  intro i j
  simp [tail, vecMulVec_apply]

/-- **After the last column** the factor is one of the sum. -/
theorem Partly.factor (h : Partly M d R x) : R * Rᵀ = M := by
  ext i j
  rw [← h.product i j]
  unfold tail
  rw [if_neg (by omega)]
  simp

end Stateline.Lib.Cholesky
