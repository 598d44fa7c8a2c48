import Mathlib

/-!
# Moments in one pass

The mean of a list and the sum of its squared deviations from the mean, and how they change when
a value is added at the end, without the values before it. `sum_sq_sub` are the squared deviations
from any other centre.
-/

namespace Stateline.Lib

variable {K : Type*} [Field K]

def mean (xs : List K) : K := xs.sum / xs.length

/-- The sum of the squared deviations from the mean. -/
def deviations (xs : List K) : K := (xs.map fun x => (x - mean xs) ^ 2).sum

/-- The sample variance. -/
def variance (xs : List K) : K := deviations xs / (xs.length - 1)

/-- The order of the values does not matter. -/
theorem mean_perm {xs ys : List K} (h : xs.Perm ys) : mean xs = mean ys := by
  rw [mean, mean, h.sum_eq, h.length_eq]

theorem deviations_perm {xs ys : List K} (h : xs.Perm ys) : deviations xs = deviations ys := by
  rw [deviations, deviations, mean_perm h]
  exact (h.map _).sum_eq

section CharZero

variable [CharZero K]

theorem length_mul_mean (xs : List K) : xs.length * mean xs = xs.sum := by
  rcases eq_or_ne xs [] with rfl | hne
  · simp [mean]
  · exact mul_div_cancel₀ _ (Nat.cast_ne_zero.2 (List.length_pos_of_ne_nil hne).ne')

/-- The deviations from the mean cancel. -/
theorem sum_sub_mean (xs : List K) : (xs.map fun x => x - mean xs).sum = 0 := by
  simp only [sub_eq_add_neg]
  rw [List.sum_map_add, List.map_id', List.map_const', List.sum_replicate, nsmul_eq_mul, mul_neg,
    length_mul_mean, add_neg_cancel]

/-- **Squared deviations from any centre.** -/
theorem sum_sq_sub (xs : List K) (c : K) :
    (xs.map fun x => (x - c) ^ 2).sum = deviations xs + xs.length * (mean xs - c) ^ 2 := by
  have hexpand : ∀ x, (x - c) ^ 2 =
      (x - mean xs) ^ 2 + (2 * (mean xs - c) * (x - mean xs) + (mean xs - c) ^ 2) := by
    intro x
    ring
  rw [List.map_congr_left fun x _ => hexpand x, List.sum_map_add, List.sum_map_add,
    List.sum_map_mul_left, sum_sub_mean, mul_zero, zero_add, List.map_const', List.sum_replicate,
    nsmul_eq_mul]
  rfl

/-- **The mean with one value more.** -/
theorem mean_concat (xs : List K) (x : K) :
    mean (xs ++ [x]) = mean xs + (x - mean xs) / (xs.length + 1) := by
  have hn : (xs.length : K) + 1 ≠ 0 := Nat.cast_add_one_ne_zero _
  have hsum := length_mul_mean xs
  rw [mean, List.sum_append, List.sum_singleton, List.length_append, List.length_singleton,
    Nat.cast_add, Nat.cast_one, ← hsum]
  field_simp
  ring

/-- **The squared deviations with one value more.** -/
theorem deviations_concat (xs : List K) (x : K) :
    deviations (xs ++ [x]) = deviations xs + (x - mean xs) * (x - mean (xs ++ [x])) := by
  have hn : (xs.length : K) + 1 ≠ 0 := Nat.cast_add_one_ne_zero _
  rw [deviations, List.map_append, List.sum_append, List.map_singleton, List.sum_singleton, sum_sq_sub,
    mean_concat]
  field_simp
  ring

end CharZero

section Ordered

variable [LinearOrder K] [IsStrictOrderedRing K]

theorem deviations_nonneg (xs : List K) : 0 ≤ deviations xs := by
  refine List.sum_nonneg ?_
  intro d hd
  obtain ⟨x, -, rfl⟩ := List.mem_map.1 hd
  exact sq_nonneg _

/-- No deviation means that all values are the same. -/
theorem deviations_eq_zero_iff (xs : List K) : deviations xs = 0 ↔ ∀ x ∈ xs, ∀ y ∈ xs, x = y := by
  constructor
  · intro h
    have hall : ∀ x ∈ xs, x = mean xs := by
      intro x hx
      have hle := List.single_le_sum (l := xs.map fun x => (x - mean xs) ^ 2) (fun d hd => by
        obtain ⟨y, -, rfl⟩ := List.mem_map.1 hd
        exact sq_nonneg _) _ (List.mem_map_of_mem hx)
      have hzero : (x - mean xs) ^ 2 = 0 := le_antisymm (hle.trans_eq h) (sq_nonneg _)
      exact sub_eq_zero.1 ((pow_eq_zero_iff two_ne_zero).1 hzero)
    intro x hx y hy
    rw [hall x hx, hall y hy]
  · intro h
    cases xs with
    | nil => rfl
    | cons a xs =>
      -- the sum about `a`, which is all there is, has no terms
      have hterms : ((a :: xs).map fun x => (x - a) ^ 2).sum = 0 := by
        refine List.sum_eq_zero ?_
        intro d hd
        obtain ⟨x, hx, rfl⟩ := List.mem_map.1 hd
        rw [h x hx a List.mem_cons_self, sub_self, zero_pow two_ne_zero]
      rw [sum_sq_sub] at hterms
      have hcount : 0 ≤ ((a :: xs).length : K) * (mean (a :: xs) - a) ^ 2 :=
        mul_nonneg (Nat.cast_nonneg _) (sq_nonneg _)
      exact le_antisymm (by linarith) (deviations_nonneg _)

end Ordered

end Stateline.Lib
