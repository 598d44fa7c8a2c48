import Mathlib

/-!
# Normal draws

Independent standard normal draws (`normals`), and the density of a linear map of them.
-/

namespace Stateline.Lib

open MeasureTheory ProbabilityTheory Matrix

variable {ι : Type*} [Fintype ι]

/-- Independent standard normal draws. -/
noncomputable def normals (ι : Type*) [Fintype ι] : Measure (ι → ℝ) :=
  Measure.pi fun _ => gaussianReal 0 1

instance : IsProbabilityMeasure (normals ι) := by
  unfold normals
  infer_instance

/-- Their density. -/
noncomputable def normalDensity (z : ι → ℝ) : ℝ :=
  Real.exp (-(∑ i, z i ^ 2) / 2) / √(2 * Real.pi) ^ Fintype.card ι

theorem normalDensity_eq (z : ι → ℝ) : normalDensity z = ∏ i, gaussianPDFReal 0 1 (z i) := by
  have hexp : Real.exp (-(∑ i, z i ^ 2) / 2) = ∏ i, Real.exp (-(z i) ^ 2 / 2) := by
    rw [← Real.exp_sum, ← Finset.sum_div, Finset.sum_neg_distrib]
  unfold normalDensity gaussianPDFReal
  simp only [NNReal.coe_one, mul_one, sub_zero]
  rw [Finset.prod_mul_distrib, Finset.prod_const, Finset.card_univ, hexp, div_eq_inv_mul, inv_pow]

theorem continuous_normalDensity : Continuous (normalDensity : (ι → ℝ) → ℝ) := by
  unfold normalDensity
  fun_prop

theorem normals_eq_withDensity :
    normals ι = volume.withDensity fun z => ENNReal.ofReal (normalDensity z) := by
  refine Measure.pi_eq fun s hs => ?_
  have hprod : ∀ z : ι → ℝ, (Set.univ.pi s).indicator (fun z => ENNReal.ofReal (normalDensity z)) z =
      ENNReal.ofReal (∏ i, (s i).indicator (gaussianPDFReal 0 1) (z i)) := by
    intro z
    by_cases hz : z ∈ Set.univ.pi s
    · rw [Set.indicator_of_mem hz, normalDensity_eq]
      congr 1
      exact Finset.prod_congr rfl fun i _ => (Set.indicator_of_mem (hz i trivial) _).symm
    · rw [Set.indicator_of_notMem hz]
      obtain ⟨i, hi⟩ : ∃ i, z i ∉ s i := by
        by_contra h
        push Not at h
        exact hz fun i _ => h i
      rw [Finset.prod_eq_zero (Finset.mem_univ i) (Set.indicator_of_notMem hi _), ENNReal.ofReal_zero]
  have hnonneg : ∀ i x, 0 ≤ (s i).indicator (gaussianPDFReal 0 1) x := fun i =>
    Set.indicator_nonneg fun x _ => gaussianPDFReal_nonneg 0 1 x
  have hint : ∀ i, Integrable ((s i).indicator (gaussianPDFReal 0 1)) := fun i =>
    (integrable_gaussianPDFReal 0 1).indicator (hs i)
  have hall : Integrable fun z : ι → ℝ => ∏ i, (s i).indicator (gaussianPDFReal 0 1) (z i) :=
    Integrable.fintype_prod hint
  rw [withDensity_apply _ (.univ_pi hs), ← lintegral_indicator (.univ_pi hs), lintegral_congr hprod,
    ← ofReal_integral_eq_lintegral_ofReal hall
      (ae_of_all _ fun z => Finset.prod_nonneg fun i _ =>
        hnonneg i _), integral_fintype_prod_volume_eq_prod,
        ENNReal.ofReal_prod_of_nonneg fun i _ => integral_nonneg (hnonneg i)]
  refine Finset.prod_congr rfl fun i _ => ?_
  rw [integral_indicator (hs i), gaussianReal_apply_eq_integral 0 one_ne_zero]

/-- **The density of a linear map of normal draws.** -/
theorem lintegral_normals_mulVec [DecidableEq ι] {M : Matrix ι ι ℝ} (hM : M.det ≠ 0)
    (f : (ι → ℝ) → ENNReal) :
    ∫⁻ z, f (M *ᵥ z) ∂normals ι = ∫⁻ v, ENNReal.ofReal (normalDensity (M⁻¹ *ᵥ v) / |M.det|) * f v := by
  have hunit : IsUnit M.det := isUnit_iff_ne_zero.2 hM
  have hemb : MeasurableEmbedding (toLin' M) := by
    refine ((toLin' M).continuous_of_finiteDimensional).measurableEmbedding fun a b h => ?_
    exact (mulVec_injective_iff_isUnit.2 ((isUnit_iff_isUnit_det M).2 hunit)) h
  have hscale := Real.map_matrix_volume_pi_eq_smul_volume_pi hM
  have hback : ∀ z, M⁻¹ *ᵥ (M *ᵥ z) = z := by
    intro z
    rw [mulVec_mulVec, nonsing_inv_mul _ hunit, one_mulVec]
  rw [normals_eq_withDensity, lintegral_withDensity_eq_lintegral_mul_non_measurable _
    continuous_normalDensity.measurable.ennreal_ofReal (ae_of_all _ fun _ => ENNReal.ofReal_lt_top)]
  calc ∫⁻ z, ENNReal.ofReal (normalDensity z) * f (M *ᵥ z)
      = ∫⁻ z, ENNReal.ofReal (normalDensity (M⁻¹ *ᵥ toLin' M z)) * f (toLin' M z) := by
        refine lintegral_congr fun z => ?_
        rw [toLin'_apply, hback]
    _ = ∫⁻ v, ENNReal.ofReal (normalDensity (M⁻¹ *ᵥ v)) * f v ∂Measure.map (toLin' M) volume :=
        (hemb.lintegral_map fun v => ENNReal.ofReal (normalDensity (M⁻¹ *ᵥ v)) * f v).symm
    _ = ∫⁻ v, ENNReal.ofReal (normalDensity (M⁻¹ *ᵥ v) / |M.det|) * f v := by
        rw [hscale, lintegral_smul_measure, smul_eq_mul,
          ← lintegral_const_mul' _ _ ENNReal.ofReal_ne_top]
        refine lintegral_congr fun v => ?_
        rw [← mul_assoc, ← ENNReal.ofReal_mul (abs_nonneg _), abs_inv, inv_mul_eq_div]

end Stateline.Lib
