import Mathlib

/-!
# The Metropolis rule

A step is accepted when a uniform draw from `[0, 1)` is below `exp t`. For the
logarithms `a` and `b` of the weights of two states and `t = b - a`, the two states
are in balance, and with symmetric proposals the weights are invariant.

* `drawProb_lt_exp`: the probability of a step. `exp_mul_min`: detailed balance.
* `lintegral_symm`: **a symmetric density and a rule in balance have a symmetric joint law**.
* `lintegral_step`: **the weights are invariant**; what does not move, as a proposal that failed, stays.
-/

namespace Stateline.Lib

open MeasureTheory Set ENNReal

/-- The probability that a uniform draw from `[0, 1)` is in `s`. -/
noncomputable def drawProb (s : Set ℝ) : ℝ := volume.real (s ∩ Ico 0 1)

theorem drawProb_univ : drawProb univ = 1 := by simp [drawProb]

theorem drawProb_empty : drawProb ∅ = 0 := by simp [drawProb]

theorem drawProb_lt_exp (t : ℝ) : drawProb {u | u < Real.exp t} = min 1 (Real.exp t) := by
  have hset : {u | u < Real.exp t} ∩ Ico 0 1 = Ico 0 (min 1 (Real.exp t)) := by
    ext u
    simp only [mem_inter_iff, mem_ofPred_eq, mem_Ico, lt_min_iff]
    tauto
  unfold drawProb
  rw [hset, Real.volume_real_Ico_of_le (le_min zero_le_one (Real.exp_pos t).le), sub_zero]

theorem drawProb_exp_le (t : ℝ) : drawProb {u | Real.exp t ≤ u} = 1 - min 1 (Real.exp t) := by
  have hset : {u | Real.exp t ≤ u} ∩ Ico 0 1 = Ico (min 1 (Real.exp t)) 1 := by
    ext u
    simp only [mem_inter_iff, mem_ofPred_eq, mem_Ico, min_le_iff]
    have := Real.exp_pos t
    constructor
    · rintro ⟨h, -, h1⟩
      exact ⟨.inr h, h1⟩
    · rintro ⟨h | h, h1⟩
      · exact absurd h (not_le.2 h1)
      · exact ⟨h, this.le.trans h, h1⟩
  unfold drawProb
  rw [hset, Real.volume_real_Ico_of_le (min_le_left _ _)]

/-- The probability of a choice. -/
theorem drawProb_choice {X : Type*} (t : ℝ) (x y : X) (A : Set X) :
    ENNReal.ofReal (drawProb {u | (if u < Real.exp t then y else x) ∈ A}) =
      .ofReal (min 1 (Real.exp t)) * A.indicator 1 y +
        (1 - .ofReal (min 1 (Real.exp t))) * A.indicator 1 x := by
  have hle : min 1 (Real.exp t) ≤ 1 := min_le_left _ _
  have hpos : 0 ≤ min 1 (Real.exp t) := le_min zero_le_one (Real.exp_pos t).le
  have hsub : (1 : ℝ≥0∞) - .ofReal (min 1 (Real.exp t)) = .ofReal (1 - min 1 (Real.exp t)) := by
    rw [ENNReal.ofReal_sub _ hpos, ENNReal.ofReal_one]
  by_cases hy : y ∈ A
  · by_cases hx : x ∈ A
    · have hall : {u | (if u < Real.exp t then y else x) ∈ A} = univ := by
        ext u
        simp only [mem_ofPred_eq, mem_univ, iff_true]
        split
        · exact hy
        · exact hx
      rw [hall, drawProb_univ, indicator_of_mem hy, indicator_of_mem hx, Pi.one_apply,
        Pi.one_apply, mul_one, mul_one, add_tsub_cancel_of_le (ENNReal.ofReal_le_one.2 hle),
        ENNReal.ofReal_one]
    · have haccept : {u | (if u < Real.exp t then y else x) ∈ A} = {u | u < Real.exp t} := by
        ext u
        simp only [mem_ofPred_eq]
        split <;> simp_all
      rw [haccept, drawProb_lt_exp, indicator_of_mem hy, indicator_of_notMem hx, Pi.one_apply,
        mul_one, mul_zero, add_zero]
  · by_cases hx : x ∈ A
    · have hrefuse : {u | (if u < Real.exp t then y else x) ∈ A} = {u | Real.exp t ≤ u} := by
        ext u
        simp only [mem_ofPred_eq, ← not_lt]
        split <;> simp_all
      rw [hrefuse, drawProb_exp_le, indicator_of_notMem hy, indicator_of_mem hx, Pi.one_apply,
        mul_one, mul_zero, zero_add, hsub]
    · have hnone : {u | (if u < Real.exp t then y else x) ∈ A} = ∅ := by
        ext u
        simp only [mem_ofPred_eq, mem_empty_iff_false, iff_false]
        split
        · exact hy
        · exact hx
      rw [hnone, drawProb_empty, indicator_of_notMem hy, indicator_of_notMem hx, mul_zero,
        mul_zero, add_zero, ENNReal.ofReal_zero]

/-- **Detailed balance.** -/
theorem exp_mul_min (a b : ℝ) :
    Real.exp a * min 1 (Real.exp (b - a)) = Real.exp b * min 1 (Real.exp (a - b)) := by
  rw [mul_min_of_nonneg _ _ (Real.exp_pos a).le, mul_min_of_nonneg _ _ (Real.exp_pos b).le,
    mul_one, mul_one, ← Real.exp_add, ← Real.exp_add, add_sub_cancel, add_sub_cancel, min_comm]

/-! ## Invariance -/

variable {X : Type*} [MeasurableSpace X] {μ : Measure X} [SFinite μ] {q p : X → X → ℝ≥0∞}
    {w r : X → ℝ≥0∞} {A : Set X}

/-- **A symmetric density and a rule in balance have a symmetric joint law.** -/
theorem lintegral_symm (hq : Measurable (Function.uncurry q))
    (hp : Measurable (Function.uncurry p)) (hw : Measurable w) (hA : MeasurableSet A)
    (hsymm : ∀ᵐ x ∂μ, ∀ᵐ y ∂μ, q x y = q y x) (hbalance : ∀ x y, w x * p x y = w y * p y x) :
    ∫⁻ x, w x * ∫⁻ y, q x y * (p x y * A.indicator 1 y) ∂μ ∂μ =
      ∫⁻ x, w x * (A.indicator 1 x * ∫⁻ y, q x y * p x y ∂μ) ∂μ := by
  have hone : Measurable (A.indicator (1 : X → ℝ≥0∞)) := measurable_one.indicator hA
  have hmeas : Measurable (Function.uncurry fun x y => w x * (q x y * (p x y * A.indicator 1 y))) :=
    (hw.comp measurable_fst).mul (hq.mul (hp.mul (hone.comp measurable_snd)))
  calc ∫⁻ x, w x * ∫⁻ y, q x y * (p x y * A.indicator 1 y) ∂μ ∂μ
      = ∫⁻ x, ∫⁻ y, w x * (q x y * (p x y * A.indicator 1 y)) ∂μ ∂μ := by
        refine lintegral_congr fun x => (lintegral_const_mul _ ?_).symm
        exact (hq.comp measurable_prodMk_left).mul ((hp.comp measurable_prodMk_left).mul hone)
    _ = ∫⁻ x, ∫⁻ y, w y * (q y x * (p y x * A.indicator 1 x)) ∂μ ∂μ :=
      lintegral_lintegral_swap hmeas.aemeasurable
    _ = ∫⁻ x, ∫⁻ y, w x * A.indicator 1 x * (q x y * p x y) ∂μ ∂μ := by
        refine lintegral_congr_ae ?_
        filter_upwards [hsymm] with x hx
        refine lintegral_congr_ae ?_
        filter_upwards [hx] with y hy
        calc w y * (q y x * (p y x * A.indicator 1 x)) = w y * p y x * (q y x * A.indicator 1 x) := by ring
          _ = w x * A.indicator 1 x * (q x y * p x y) := by
            rw [← hbalance, ← hy]
            ring
    _ = ∫⁻ x, w x * (A.indicator 1 x * ∫⁻ y, q x y * p x y ∂μ) ∂μ := by
        refine lintegral_congr fun x => ?_
        rw [lintegral_const_mul, mul_assoc]
        exact (hq.comp measurable_prodMk_left).mul (hp.comp measurable_prodMk_left)

/-- **The weights are invariant.** A step goes from `x` to `y` with the density `q x y` and the
probability `p x y`, and stays at `x` otherwise: when the step is refused, and with the
probability `r x` that there is none. -/
theorem lintegral_step (hq : Measurable (Function.uncurry q))
    (hp : Measurable (Function.uncurry p)) (hw : Measurable w) (hA : MeasurableSet A)
    (hsymm : ∀ᵐ x ∂μ, ∀ᵐ y ∂μ, q x y = q y x) (hbalance : ∀ x y, w x * p x y = w y * p y x)
    (hp1 : ∀ x y, p x y ≤ 1) (hmass : ∀ᵐ x ∂μ, ∫⁻ y, q x y ∂μ + r x = 1) :
    ∫⁻ x, w x * (∫⁻ y, q x y * (p x y * A.indicator 1 y + (1 - p x y) * A.indicator 1 x) ∂μ +
      r x * A.indicator 1 x) ∂μ =
      ∫⁻ x, w x * A.indicator 1 x ∂μ := by
  have hone : Measurable (A.indicator (1 : X → ℝ≥0∞)) := measurable_one.indicator hA
  have hqx : ∀ x, Measurable (q x) := fun x => hq.comp measurable_prodMk_left
  have hpx : ∀ x, Measurable (p x) := fun x => hp.comp measurable_prodMk_left
  have hqp : ∀ x, Measurable fun y => q x y * p x y := fun x => (hqx x).mul (hpx x)
  have hqA : ∀ x, Measurable fun y => q x y * (p x y * A.indicator 1 y) :=
    fun x => (hqx x).mul ((hpx x).mul hone)
  have hqr : ∀ x, Measurable fun y => q x y * (1 - p x y) :=
    fun x => (hqx x).mul (measurable_const.sub (hpx x))
  -- what arrives in `A` and what stays there
  have hsplit : ∀ x, ∫⁻ y, q x y * (p x y * A.indicator 1 y + (1 - p x y) * A.indicator 1 x) ∂μ =
      ∫⁻ y, q x y * (p x y * A.indicator 1 y) ∂μ + A.indicator 1 x * ∫⁻ y, q x y * (1 - p x y) ∂μ := by
    intro x
    rw [← lintegral_const_mul _ (hqr x), ← lintegral_add_left (hqA x)]
    refine lintegral_congr fun y => ?_
    ring
  have hall : ∀ x, ∫⁻ y, q x y * p x y ∂μ + ∫⁻ y, q x y * (1 - p x y) ∂μ = ∫⁻ y, q x y ∂μ := by
    intro x
    rw [← lintegral_add_left (hqp x)]
    refine lintegral_congr fun y => ?_
    rw [← mul_add, add_tsub_cancel_of_le (hp1 x y), mul_one]
  have hjoint : Measurable fun x => w x * ∫⁻ y, q x y * (p x y * A.indicator 1 y) ∂μ :=
    hw.mul (hq.mul (hp.mul (hone.comp measurable_snd))).lintegral_prod_right
  have hmove : Measurable fun x => w x * (A.indicator 1 x * ∫⁻ y, q x y * p x y ∂μ) :=
    hw.mul (hone.mul (hq.mul hp).lintegral_prod_right)
  calc ∫⁻ x, w x * (∫⁻ y, q x y * (p x y * A.indicator 1 y + (1 - p x y) * A.indicator 1 x) ∂μ +
          r x * A.indicator 1 x) ∂μ
      = ∫⁻ x, (w x * ∫⁻ y, q x y * (p x y * A.indicator 1 y) ∂μ +
          w x * (A.indicator 1 x * (∫⁻ y, q x y * (1 - p x y) ∂μ + r x))) ∂μ := by
        refine lintegral_congr fun x => ?_
        rw [hsplit]
        ring
    _ = ∫⁻ x, w x * (A.indicator 1 x * ∫⁻ y, q x y * p x y ∂μ) ∂μ +
          ∫⁻ x, w x * (A.indicator 1 x * (∫⁻ y, q x y * (1 - p x y) ∂μ + r x)) ∂μ := by
        rw [lintegral_add_left hjoint, lintegral_symm hq hp hw hA hsymm hbalance]
    _ = ∫⁻ x, w x * A.indicator 1 x ∂μ := by
        rw [← lintegral_add_left hmove]
        refine lintegral_congr_ae ?_
        filter_upwards [hmass] with x hx
        rw [← mul_add, ← mul_add, ← add_assoc, hall, hx, mul_one]

end Stateline.Lib
