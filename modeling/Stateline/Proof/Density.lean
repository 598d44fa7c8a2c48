import Stateline.Infer.ChainArray
import Stateline.Proof.Bounce
import Stateline.Lib.Unfold
import Stateline.Lib.Normal
import Stateline.Lib.Metropolis

/-!
# The density of the bounded proposal

In exact arithmetic a proposal is the sample and a displacement `σ N z`, folded into the
box; `z` are normal draws. A point that is strictly inside is reached by one displacement
for each of its copies that is in range, so the density of the proposal there is the sum
of those of the displacements (`density`).

* `lintegral_boundedPropose`: **what `boundedPropose` returns has this density**, for every
  shape; the rest are the draws with which it is undefined.
-/

namespace Stateline

open Lib Reflection Matrix MeasureTheory

/-! ## The copies in range -/

section Line

variable {lo hi x y v : ℝ} {m : ℤ}

theorem inRange_copy (hlt : lo < hi) (hy : y ∈ Set.Ioo lo hi) :
    InRange (copy lo hi m y) lo hi ↔ |m| ≤ 2 ^ 31 := by
  have hδ : 0 < hi - lo := sub_pos.2 hlt
  obtain ⟨h₁, h₂⟩ : copy lo hi m y ∈ cell lo hi m := copy_mem_cell.2 hy
  unfold InRange
  rw [div_lt_iff₀ hδ, div_lt_iff₀ hδ, abs_le]
  constructor
  · rintro ⟨hbig, hsmall⟩
    constructor
    · by_contra hm
      have hm1 : (m : ℝ) ≤ -2 ^ 31 - 1 := by exact_mod_cast (by omega : m ≤ -2 ^ 31 - 1)
      have hmul : m * (hi - lo) ≤ (-2 ^ 31 - 1) * (hi - lo) := mul_le_mul_of_nonneg_right hm1 hδ.le
      linarith
    · by_contra hm
      have hm1 : (2 ^ 31 + 1 : ℝ) ≤ m := by exact_mod_cast (by omega : 2 ^ 31 + 1 ≤ m)
      have hmul : (2 ^ 31 + 1) * (hi - lo) ≤ m * (hi - lo) := mul_le_mul_of_nonneg_right hm1 hδ.le
      linarith
  · rintro ⟨hge, hle⟩
    have hge' : (-2 ^ 31 : ℝ) ≤ m := by exact_mod_cast hge
    have hle' : (m : ℝ) ≤ 2 ^ 31 := by exact_mod_cast hle
    have hmul₁ : (-2 ^ 31) * (hi - lo) ≤ m * (hi - lo) := mul_le_mul_of_nonneg_right hge' hδ.le
    have hmul₂ : m * (hi - lo) ≤ 2 ^ 31 * (hi - lo) := mul_le_mul_of_nonneg_right hle' hδ.le
    constructor <;> linarith

/-- **The arguments that are folded to a point strictly inside are its copies in range.** -/
theorem bounce_eq_inside_iff (hlt : lo < hi) (hy : y ∈ Set.Ioo lo hi) :
    bounce v lo hi = .ok y ↔ ∃ m, |m| ≤ 2 ^ 31 ∧ v = copy lo hi m y := by
  rw [bounce_eq_ok_iff hlt, image_iff_copy]
  constructor
  · rintro ⟨hv, -, m, rfl⟩
    exact ⟨m, (inRange_copy hlt hy).1 hv, rfl⟩
  · rintro ⟨m, hm, rfl⟩
    exact ⟨(inRange_copy hlt hy).2 hm, Set.Ioo_subset_Icc_self hy, m, rfl⟩

end Line

variable {d : ℕ} {min max x y : Fin d → ℝ} {m : Fin d → ℤ}

/-- The copies that `bouncyBounds` folds. -/
def Near (m : Fin d → ℤ) : Prop := ∀ i, |m i| ≤ 2 ^ 31

instance : DecidablePred (Near (d := d)) := fun m => inferInstanceAs (Decidable (∀ i, |m i| ≤ 2 ^ 31))

theorem bouncyBounds_copies (hlt : ∀ i, min i < max i) (hy : y ∈ box min max) (hm : Near m) :
    bouncyBounds (copies min max m y) min max = .ok y :=
  bouncyBounds_eq_ok_iff.2 fun i => (bounce_eq_inside_iff (hlt i) (mem_box.1 hy i)).2 ⟨m i, hm i, rfl⟩

theorem bouncyBounds_far (hlt : ∀ i, min i < max i) (hy : y ∈ box min max) (hm : ¬ Near m) :
    ∃ e, bouncyBounds (copies min max m y) min max = .error e := by
  match hrun : bouncyBounds (copies min max m y) min max with
  | .error e => exact ⟨e, rfl⟩
  | .ok result =>
    refine absurd (fun i => ?_) hm
    exact (inRange_copy (hlt i) (mem_box.1 hy i)).1
      (inRange_of_bounce (hlt i) (bouncyBounds_eq_ok_iff.1 hrun i))

/-! ## Displacements -/

/-- The displacements that `bouncyBounds` folds to `y`. -/
def displacements (bounds : ProposalBounds ℝ d) (x y : Fin d → ℝ) : Set (Fin d → ℝ) :=
  {δ | bouncyBounds (x + δ) bounds.min bounds.max = .ok y}

/-- A displacement for each copy in range. -/
noncomputable def ways {bounds : ProposalBounds ℝ d} (hlt : ∀ i, bounds.min i < bounds.max i)
    (x : Fin d → ℝ) (hy : y ∈ box bounds.min bounds.max) :
    {m : Fin d → ℤ // Near m} ≃ displacements bounds x y :=
  Equiv.ofBijective
    (fun m => ⟨copies bounds.min bounds.max m y - x, by
      show bouncyBounds (x + _) _ _ = _
      rw [add_sub_cancel]
      exact bouncyBounds_copies hlt hy m.2⟩)
    (by
      constructor
      · intro m n h
        have h' := sub_left_injective (Subtype.ext_iff.1 h)
        refine Subtype.ext (funext fun i => ?_)
        exact copy_inj (hlt i) (mem_box.1 hy i) (congrFun h' i)
      · rintro ⟨δ, hδ⟩
        have hcopy :=
          fun i => (bounce_eq_inside_iff (hlt i) (mem_box.1 hy i)).1 (bouncyBounds_eq_ok_iff.1 hδ i)
        choose m hm heq using hcopy
        refine ⟨⟨m, hm⟩, Subtype.ext (funext fun i => ?_)⟩
        show copies bounds.min bounds.max m y i - x i = δ i
        rw [sub_eq_iff_eq_add', ← Pi.add_apply, heq i]
        rfl)

theorem ways_apply {bounds : ProposalBounds ℝ d} (hlt : ∀ i, bounds.min i < bounds.max i)
    (x : Fin d → ℝ) (hy : y ∈ box bounds.min bounds.max) (m : {m : Fin d → ℤ // Near m}) :
    (ways hlt x hy m : Fin d → ℝ) = copies bounds.min bounds.max m y - x := rfl

/-! ## Folding an integral -/

/-- The sum over the copies of `y` with `P`. -/
noncomputable def folded (P : (Fin d → ℤ) → Prop) [DecidablePred P] (min max : Fin d → ℝ)
    (g : (Fin d → ℝ) → ENNReal) (y : Fin d → ℝ) : ENNReal :=
  tsum fun m => if P m then g (copies min max m y) else 0

theorem measurable_folded (P : (Fin d → ℤ) → Prop) [DecidablePred P] (min max : Fin d → ℝ)
    {Y : Type*} [MeasurableSpace Y] {g : Y → (Fin d → ℝ) → ENNReal}
    (hg : Measurable (Function.uncurry g)) :
    Measurable (Function.uncurry fun t y => folded P min max (g t) y) := by
  refine Measurable.tsum fun m => ?_
  split
  · exact hg.comp (measurable_fst.prodMk ((continuous_copies min max m).measurable.comp measurable_snd))
  · exact measurable_const

/-- **`bouncyBounds` folds an integral into the box**; the rest is undefined. -/
theorem lintegral_bouncyBounds (hlt : ∀ i, min i < max i) {g f : (Fin d → ℝ) → ENNReal}
    (hg : Measurable g) (hf : Measurable f) (c : ENNReal) :
    ∫⁻ v, g v * (match bouncyBounds v min max with | .ok y => f y | .error _ => c) =
      (∫⁻ y in box min max, folded Near min max g y * f y) +
        (∫⁻ y in box min max, folded (¬ Near ·) min max g y) * c := by
  have hcopy : ∀ m, ∀ y ∈ box min max,
      (match bouncyBounds (copies min max m y) min max with
        | .ok y => f y | .error _ => c) = if Near m then f y else c := by
    intro m y hy
    by_cases hm : Near m
    · rw [bouncyBounds_copies hlt hy hm, if_pos hm]
    · obtain ⟨e, he⟩ := bouncyBounds_far hlt hy hm
      rw [he, if_neg hm]
  have hmeas := fun P [DecidablePred P] =>
    (measurable_folded P min max (g := fun _ : Unit => g) (hg.comp measurable_snd)).comp
      (measurable_prodMk_left (x := ()))
  have hnear : Measurable fun y => folded Near min max g y * f y := (hmeas Near).mul hf
  have hfar : Measurable fun y => folded (¬ Near ·) min max g y := hmeas (¬ Near ·)
  calc ∫⁻ v, g v * (match bouncyBounds v min max with | .ok y => f y | .error _ => c)
      = tsum fun m => ∫⁻ y in box min max, g (copies min max m y) * if Near m then f y else c := by
        rw [lintegral_copies hlt]
        refine tsum_congr fun m => setLIntegral_congr_fun (measurableSet_box min max) fun y hy => ?_
        rw [hcopy m y hy]
    _ = ∫⁻ y in box min max, tsum fun m => g (copies min max m y) * if Near m then f y else c := by
        refine (lintegral_tsum fun m => ?_).symm
        refine ((hg.comp (continuous_copies min max m).measurable).mul ?_).aemeasurable
        split
        · exact hf
        · exact measurable_const
    _ = ∫⁻ y in box min max, (folded Near min max g y * f y + folded (¬ Near ·) min max g y * c) := by
        refine lintegral_congr fun y => ?_
        unfold folded
        rw [← ENNReal.tsum_mul_right, ← ENNReal.tsum_mul_right, ← ENNReal.tsum_add]
        refine tsum_congr fun m => ?_
        by_cases hm : Near m
        · simp [hm]
        · simp [hm]
    _ = (∫⁻ y in box min max, folded Near min max g y * f y) +
          (∫⁻ y in box min max, folded (¬ Near ·) min max g y) * c := by
        rw [lintegral_add_left hnear, lintegral_mul_const _ hfar]

/-! ## The density -/

/-- `|N⁻¹ δ|²`. -/
noncomputable def stepExponent (N : Fin d → Fin d → ℝ) (δ : Fin d → ℝ) : ℝ := ∑ i, ((of N)⁻¹ *ᵥ δ) i ^ 2

/-- The density of `σ N z`, for normal draws `z`. -/
noncomputable def stepDensity (N : Fin d → Fin d → ℝ) (sigma : ℝ) (δ : Fin d → ℝ) : ENNReal :=
  .ofReal (Real.exp (-stepExponent N δ / (2 * sigma ^ 2)) / (√(2 * Real.pi) * sigma) ^ d / (of N).det)

/-- **The density of proposing `y` from `x`.** -/
noncomputable def density (bounds : ProposalBounds ℝ d) (N : Fin d → Fin d → ℝ) (sigma : ℝ)
    (x y : Fin d → ℝ) : ENNReal :=
  tsum fun δ : displacements bounds x y => stepDensity N sigma δ

variable {bounds : ProposalBounds ℝ d} {N : Fin d → Fin d → ℝ} {sigma : ℝ}

theorem density_eq (hlt : ∀ i, bounds.min i < bounds.max i) (x : Fin d → ℝ)
    (hy : y ∈ box bounds.min bounds.max) :
    density bounds N sigma x y = folded Near bounds.min bounds.max
      (fun v => stepDensity N sigma (v - x)) y := by
  have hsub := tsum_subtype {m : Fin d → ℤ | Near m} fun m =>
      stepDensity N sigma (copies bounds.min bounds.max m y - x)
  unfold density folded
  rw [← Equiv.tsum_eq (ways hlt x hy)]
  simp only [ways_apply]
  exact hsub.trans (tsum_congr fun m => Set.indicator_apply _ _ _)

theorem measurable_stepDensity (N : Fin d → Fin d → ℝ) (sigma : ℝ) :
    Measurable (stepDensity N sigma) := by
  have hcont : Continuous (stepExponent N) := by
    unfold stepExponent
    fun_prop
  unfold stepDensity
  fun_prop

/-- The density of `σ N z` is that of a linear map of normal draws. -/
theorem stepDensity_eq (hdet : 0 < (of N).det) (hs : 0 < sigma) (δ : Fin d → ℝ) :
    ENNReal.ofReal (normalDensity ((sigma • of N)⁻¹ *ᵥ δ) / |(sigma • of N).det|) =
      stepDensity N sigma δ := by
  have hinv : (sigma • of N)⁻¹ = sigma⁻¹ • (of N)⁻¹ := by
    refine inv_eq_left_inv ?_
    rw [smul_mul_smul_comm, inv_mul_cancel₀ hs.ne', one_smul, nonsing_inv_mul _ hdet.ne'.isUnit]
  have hsum : ∑ i, ((sigma • of N)⁻¹ *ᵥ δ) i ^ 2 = stepExponent N δ / sigma ^ 2 := by
    unfold stepExponent
    rw [hinv, Finset.sum_div]
    refine Finset.sum_congr rfl fun i _ => ?_
    rw [smul_mulVec, Pi.smul_apply, smul_eq_mul, mul_pow, inv_pow, inv_mul_eq_div]
  unfold normalDensity stepDensity
  rw [hsum, det_smul, Fintype.card_fin, abs_of_pos (mul_pos (pow_pos hs d) hdet), mul_pow,
    div_div, div_div, mul_assoc, ← neg_div, div_div, mul_comm (sigma ^ 2)]

namespace GaussianProposal

variable (p : GaussianProposal ℝ d) {id : ℕ}

/-- A proposal is a displacement by `σ N z`. -/
theorem propose_eq (id : ℕ) (x : Fin d → ℝ) (sigma : ℝ) (z : Fin d → ℝ) :
    p.propose id x sigma z = x + (sigma • of (p.proposalShape.Ns id)) *ᵥ z := by
  funext i
  have hsum : (List.finRange d).foldl (fun acc j => acc + p.proposalShape.Ns id i j * z j) 0.0 =
      ∑ j, p.proposalShape.Ns id i j * z j := by
    rw [Fin.sum_univ_def, List.sum_eq_foldl, List.foldl_map]
    norm_num
  show x i + _ * sigma = _
  rw [hsum, Pi.add_apply, smul_mulVec, Pi.smul_apply, smul_eq_mul, mul_comm sigma]
  rfl

/-- The draws with which the proposal is undefined. -/
noncomputable def undefinedProb (id : ℕ) (sigma : ℝ) (x : Fin d → ℝ) : ENNReal :=
  ∫⁻ y in box p.bounds.min p.bounds.max,
    folded (¬ Near ·) p.bounds.min p.bounds.max
      (fun v => stepDensity (p.proposalShape.Ns id) sigma (v - x)) y

/-- **What `boundedPropose` returns**: a point of the box with this density, or else it is undefined. -/
theorem lintegral_boundedPropose (hlt : ∀ i, p.bounds.min i < p.bounds.max i)
    (hdet : 0 < (of (p.proposalShape.Ns id)).det) (hs : 0 < sigma) (x : Fin d → ℝ)
    {f : (Fin d → ℝ) → ENNReal} (hf : Measurable f) (c : ENNReal) :
    ∫⁻ z, (match p.boundedPropose id x sigma z with | .ok y => f y | .error _ => c) ∂normals (Fin d) =
      (∫⁻ y in box p.bounds.min p.bounds.max,
        density p.bounds (p.proposalShape.Ns id) sigma x y * f y) +
        p.undefinedProb id sigma x * c := by
  have hscale : (sigma • of (p.proposalShape.Ns id)).det ≠ 0 := by
    rw [det_smul]
    exact mul_ne_zero (pow_ne_zero _ hs.ne') hdet.ne'
  have hstep : Measurable fun v => stepDensity (p.proposalShape.Ns id) sigma (v - x) :=
    (measurable_stepDensity _ sigma).comp (measurable_id.sub_const x)
  calc ∫⁻ z, (match p.boundedPropose id x sigma z with | .ok y => f y | .error _ => c) ∂normals (Fin d)
      = ∫⁻ δ, stepDensity (p.proposalShape.Ns id) sigma δ *
          (match bouncyBounds (x + δ) p.bounds.min p.bounds.max with
            | .ok y => f y | .error _ => c) := by
        unfold boundedPropose
        simp only [p.propose_eq]
        rw [lintegral_normals_mulVec hscale fun δ =>
          match bouncyBounds (x + δ) p.bounds.min p.bounds.max with | .ok y => f y | .error _ => c]
        simp only [stepDensity_eq hdet hs]
    _ = ∫⁻ v, stepDensity (p.proposalShape.Ns id) sigma (v - x) *
          (match bouncyBounds v p.bounds.min p.bounds.max with | .ok y => f y | .error _ => c) := by
        rw [← lintegral_sub_right_eq_self _ x]
        simp only [add_sub_cancel]
    _ = _ := by
        rw [lintegral_bouncyBounds hlt hstep hf]
        congr 1
        refine setLIntegral_congr_fun (measurableSet_box _ _) fun y hy => ?_
        rw [density_eq hlt x hy]

theorem density_add_undefined (hlt : ∀ i, p.bounds.min i < p.bounds.max i)
    (hdet : 0 < (of (p.proposalShape.Ns id)).det) (hs : 0 < sigma) (x : Fin d → ℝ) :
    (∫⁻ y in box p.bounds.min p.bounds.max, density p.bounds (p.proposalShape.Ns id) sigma x y) +
      p.undefinedProb id sigma x
      = 1 := by
  have hall := p.lintegral_boundedPropose hlt hdet hs x (f := fun _ => 1) measurable_const 1
  simp only [mul_one] at hall
  rw [← hall]
  calc ∫⁻ z, (match p.boundedPropose id x sigma z with | .ok _ => (1 : ENNReal) | .error _ => 1)
        ∂normals (Fin d)
      = ∫⁻ _ : Fin d → ℝ, 1 ∂normals (Fin d) := by
        refine lintegral_congr fun z => ?_
        split <;> rfl
    _ = 1 := by simp

end GaussianProposal

end Stateline
