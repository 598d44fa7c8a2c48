import Stateline.Proof.Scale

/-!
# How far a proposal leads

The normalised version of the shape, as a bound on the steps of the proposals: it is never larger
than the quarters of the widths with the floor `minRank`, or than 1 before the first update.

* `bounded_update`: **an update leads no farther than the `stride`**.
-/

namespace Stateline

open Lib

namespace ProposalShaper

variable {d : ℕ} {bounds : ProposalBounds ℝ d} {sh : ProposalShaper ℝ d} {n₀ i : ℕ}

theorem abs_le_norm (z : Fin d → ℝ) (k : Fin d) : |z k| ≤ norm z := by
  rw [norm_eq]
  exact Real.abs_le_sqrt (Finset.single_le_sum (fun l _ => sq_nonneg (z l)) (Finset.mem_univ k))

/-- A row of a matrix, applied to a vector. -/
theorem abs_row_le (R : Fin d → Fin d → ℝ) (k : Fin d) (z : Fin d → ℝ) :
    |∑ l, R k l * z l| ≤ frobenius R * norm z := by
  have hrow : ∑ l, R k l ^ 2 ≤ ∑ l, ∑ i, R i l ^ 2 :=
    Finset.sum_le_sum fun l _ => Finset.single_le_sum (fun i _ => sq_nonneg (R i l)) (Finset.mem_univ k)
  have hR : 0 ≤ ∑ l, ∑ i, R i l ^ 2 :=
    Finset.sum_nonneg fun l _ => Finset.sum_nonneg fun i _ => sq_nonneg (R i l)
  rw [norm_eq, frobenius, ← Real.sqrt_mul hR]
  refine Real.abs_le_sqrt ?_
  calc (∑ l, R k l * z l) ^ 2 ≤ (∑ l, R k l ^ 2) * ∑ l, z l ^ 2 := Finset.sum_mul_sq_le_sq_mul_sq _ _ _
    _ ≤ (∑ l, ∑ i, R i l ^ 2) * ∑ l, z l ^ 2 :=
        mul_le_mul_of_nonneg_right hrow (Finset.sum_nonneg fun l _ => sq_nonneg (z l))

/-- How far a normalised version can lead, for a draw of the norm 1: the floor adds to the norm. -/
noncomputable def stride (bounds : ProposalBounds ℝ d) : ℝ := 1 ⊔ (norm (quarters bounds) + minRank)

/-- No normalised version leads farther than the stride. -/
def Bounded (B : ℝ) (sh : ProposalShaper ℝ d) : Prop :=
  ∀ i k z, |∑ l, sh.N i k l * z l| ≤ B * norm z

/-- **An update leads no farther than the stride**, whatever the steps were. -/
theorem Normalised.le_stride (h : Normalised (norm (quarters bounds)) sh i) (k : Fin d)
    (z : Fin d → ℝ) : |∑ l, sh.N i k l * z l| ≤ stride bounds * norm z := by
  obtain ⟨a, -, hscale, hN⟩ := h
  have hrank : (0 : ℝ) ≤ minRank := by unfold minRank; norm_num
  have hsum : ∑ l, sh.N i k l * z l = ∑ l, sh.L i k l * a * z l + minRank * z k := by
    simp only [hN, add_mul, ite_mul, zero_mul, Finset.sum_add_distrib, Finset.sum_ite_eq,
      Finset.mem_univ, if_true]
  calc |∑ l, sh.N i k l * z l| ≤ |∑ l, sh.L i k l * a * z l| + |minRank * z k| := by
        rw [hsum]
        exact abs_add_le _ _
    _ ≤ norm (quarters bounds) * norm z + minRank * norm z := by
        refine add_le_add ?_ ?_
        · rw [← hscale]
          exact abs_row_le (fun j l => sh.L i j l * a) k z
        · rw [abs_mul, abs_of_nonneg hrank]
          exact mul_le_mul_of_nonneg_left (abs_le_norm z k) hrank
    _ = (norm (quarters bounds) + minRank) * norm z := (add_mul _ _ _).symm
    _ ≤ stride bounds * norm z := mul_le_mul_of_nonneg_right le_sup_right (norm_nonneg z)

/-- The constructor leads no farther than the draw. -/
theorem bounded_init (hb : ∀ k, bounds.min k < bounds.max k) :
    Bounded (stride bounds) (init bounds n₀) := by
  intro i k z
  have hq : ∀ k, 0 < quarters bounds k := fun k => div_pos (sub_pos.2 (hb k)) four_pos
  have hle : quarters bounds k / norm (quarters bounds) ≤ 1 :=
    div_le_one_of_le₀ ((le_abs_self _).trans (abs_le_norm _ k)) (norm_nonneg _)
  have hsum : ∑ l, (init bounds n₀).N i k l * z l =
      quarters bounds k / norm (quarters bounds) * z k := by
    rw [N_init, Finset.sum_eq_single k]
    · rw [ProposalShaper.diagonal, if_pos rfl]
    · intro l _ hl
      rw [ProposalShaper.diagonal, if_neg hl.symm]
      norm_num
    · simp
  calc |∑ l, (init bounds n₀).N i k l * z l| =
        quarters bounds k / norm (quarters bounds) * |z k| := by
        rw [hsum, abs_mul, abs_of_nonneg (div_nonneg (hq k).le (norm_nonneg _))]
    _ ≤ 1 * norm z := mul_le_mul hle (abs_le_norm z k) (abs_nonneg _) zero_le_one
    _ ≤ stride bounds * norm z := mul_le_mul_of_nonneg_right le_sup_left (norm_nonneg z)

theorem bounded_update (h : Bounded (stride bounds) sh) (hnorm : sh.propNorm = norm (quarters bounds))
    (v : Fin d → ℝ) : Bounded (stride bounds) (sh.update i v) := by
  intro j k z
  rcases eq_or_ne j i with rfl | hne
  · refine Normalised.le_stride ?_ k z
    rw [← hnorm]
    refine normalised_update (hnorm ▸ norm_nonneg _) ?_ j v
    rintro rfl
    exact k.elim0
  · have hN : (sh.update i v).N j = sh.N j := Function.update_of_ne hne _ _
    rw [hN]
    exact h j k z

end ProposalShaper

end Stateline
