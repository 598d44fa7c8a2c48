import Stateline.Lib.Reflection

/-!
# The copies of a box

The line is tiled by the copies of the interval between two walls: those an even number of
widths away are shifted, the others reflected. In several dimensions the copies of a box
tile the space, and an integral over it is the sum of those over the copies.

* `image_iff_copy`: the images of a point are its copies.
* `copy_mem_cell`: the copy `m` of a point between the walls is in the cell `m`.
* `lintegral_copies`: **an integral over the space, folded into the box**.
-/

namespace Stateline.Lib.Reflection

section Line

variable {K : Type*} [Field K] {lo hi y v : K} {m n : ℤ}

/-- The copy of `y` that is `m` widths away. -/
def copy (lo hi : K) (m : ℤ) (y : K) : K :=
  if Even m then y + m * (hi - lo) else lo + hi + m * (hi - lo) - y

theorem copy_even (hm : Even m) (y : K) : copy lo hi m y = y + m * (hi - lo) := if_pos hm

theorem copy_odd (hm : ¬ Even m) (y : K) : copy lo hi m y = lo + hi + m * (hi - lo) - y := if_neg hm

theorem copy_zero (y : K) : copy lo hi 0 y = y := by simp [copy]

/-- The images of a point are its copies. -/
theorem image_iff_copy : Image lo hi v y ↔ ∃ m, v = copy lo hi m y := by
  constructor
  · intro h
    obtain ⟨k, hk | hk⟩ := h.symm
    · refine ⟨2 * k, ?_⟩
      rw [hk, copy_even (even_two_mul k)]
      push_cast
      rfl
    · refine ⟨2 * k + 1, ?_⟩
      rw [hk, copy_odd (by simp)]
      push_cast
      ring
  · rintro ⟨m, rfl⟩
    refine Image.symm ?_
    by_cases hm : Even m
    · obtain ⟨k, rfl⟩ := hm
      refine ⟨k, .inl ?_⟩
      rw [copy_even ⟨k, rfl⟩]
      push_cast
      ring
    · obtain ⟨k, rfl⟩ := Int.not_even_iff_odd.1 hm
      refine ⟨k, .inr ?_⟩
      rw [copy_odd hm]
      push_cast
      ring

/-- The copy of `x` to which the way from `y` is as long as the way from `x` to the copy `m` of `y`. -/
def turnBack (m : ℤ) : ℤ := if Even m then -m else m

theorem turnBack_turnBack (m : ℤ) : turnBack (turnBack m) = m := by
  unfold turnBack
  split <;> simp_all

theorem abs_turnBack (m : ℤ) : |turnBack m| = |m| := by
  unfold turnBack
  split
  · exact abs_neg m
  · rfl

theorem copy_turnBack_sub_sq (lo hi x y : K) (m : ℤ) :
    (copy lo hi (turnBack m) x - y) ^ 2 = (copy lo hi m y - x) ^ 2 := by
  by_cases hm : Even m
  · rw [turnBack, if_pos hm, copy_even hm.neg, copy_even hm]
    push_cast
    ring
  · rw [turnBack, if_neg hm, copy_odd hm, copy_odd hm]
    ring

variable [LinearOrder K] [IsStrictOrderedRing K]

/-- The interval that is `m` widths away. -/
def cell (lo hi : K) (m : ℤ) : Set K := Set.Ioo (lo + m * (hi - lo)) (hi + m * (hi - lo))

theorem copy_mem_cell : copy lo hi m y ∈ cell lo hi m ↔ y ∈ Set.Ioo lo hi := by
  unfold cell copy
  split
  · simp only [Set.mem_Ioo, add_lt_add_iff_right]
  · constructor
    · rintro ⟨h₁, h₂⟩
      constructor <;> linarith
    · rintro ⟨h₁, h₂⟩
      constructor <;> linarith

/-- Cells of different numbers are disjoint. -/
theorem cell_unique (hlt : lo < hi) (hm : v ∈ cell lo hi m) (hn : v ∈ cell lo hi n) : m = n := by
  have hδ : 0 < hi - lo := sub_pos.2 hlt
  have hle : ∀ {a b : ℤ}, v ∈ cell lo hi a → v ∈ cell lo hi b → a ≤ b := by
    intro a b ha hb
    by_contra hba
    have h1 : (b : K) + 1 ≤ a := by exact_mod_cast (by omega : b + 1 ≤ a)
    have hmul : (b + 1) * (hi - lo) ≤ a * (hi - lo) := mul_le_mul_of_nonneg_right h1 hδ.le
    have h₁ := ha.1
    have h₂ := hb.2
    linarith
  exact le_antisymm (hle hm hn) (hle hn hm)

/-- A point between the walls has one copy in each place. -/
theorem copy_inj (hlt : lo < hi) (hy : y ∈ Set.Ioo lo hi)
    (h : copy lo hi m y = copy lo hi n y) : m = n :=
  cell_unique hlt (copy_mem_cell.2 hy) (h ▸ copy_mem_cell.2 hy)

/-- Every point is in a cell or on a wall. -/
theorem exists_cell [FloorRing K] (hlt : lo < hi) (v : K) :
    (∃ m, v ∈ cell lo hi m) ∨ ∃ m : ℤ, v = lo + m * (hi - lo) := by
  have hδ : 0 < hi - lo := sub_pos.2 hlt
  have h₁ := Int.floor_le ((v - lo) / (hi - lo))
  have h₂ := Int.lt_floor_add_one ((v - lo) / (hi - lo))
  rw [le_div_iff₀ hδ] at h₁
  rw [div_lt_iff₀ hδ] at h₂
  rcases h₁.eq_or_lt with heq | hlt'
  · exact .inr ⟨_, by linarith⟩
  · exact .inl ⟨⌊(v - lo) / (hi - lo)⌋, by linarith, by linarith⟩

end Line

/-! ## The space -/

open MeasureTheory

theorem copy_measurePreserving (lo hi : ℝ) (m : ℤ) : MeasurePreserving (copy lo hi m) := by
  by_cases hm : Even m
  · rw [funext (copy_even hm)]
    exact measurePreserving_add_right volume _
  · rw [funext (copy_odd hm)]
    exact Measure.measurePreserving_sub_left volume _

theorem continuous_copy (lo hi : ℝ) (m : ℤ) : Continuous (copy lo hi m) := by
  unfold copy
  split
  · fun_prop
  · fun_prop

theorem copy_injective (lo hi : ℝ) (m : ℤ) : Function.Injective (copy lo hi m) := by
  intro a b h
  unfold copy at h
  split at h
  · exact add_right_cancel h
  · exact sub_right_injective h

variable {ι : Type*} {lo hi : ι → ℝ}

/-- The open box. -/
def box (lo hi : ι → ℝ) : Set (ι → ℝ) := Set.univ.pi fun i => Set.Ioo (lo i) (hi i)

theorem mem_box {y : ι → ℝ} : y ∈ box lo hi ↔ ∀ i, y i ∈ Set.Ioo (lo i) (hi i) := by simp [box]

/-- The copy of a point. -/
noncomputable def copies (lo hi : ι → ℝ) (m : ι → ℤ) (y : ι → ℝ) : ι → ℝ :=
  fun i => copy (lo i) (hi i) (m i) (y i)

/-- The copy of the box. -/
def cells (lo hi : ι → ℝ) (m : ι → ℤ) : Set (ι → ℝ) := Set.univ.pi fun i => cell (lo i) (hi i) (m i)

theorem copies_preimage_cells (m : ι → ℤ) :
    Set.preimage (copies lo hi m) (cells lo hi m) = box lo hi := by
  ext y
  simp only [cells, copies, box, Set.mem_preimage, Set.mem_univ_pi, copy_mem_cell]

theorem continuous_copies (lo hi : ι → ℝ) (m : ι → ℤ) : Continuous (copies lo hi m) :=
  continuous_pi fun i => (continuous_copy (lo i) (hi i) (m i)).comp (continuous_apply i)

variable [Fintype ι]

theorem measurableSet_box (lo hi : ι → ℝ) : MeasurableSet (box lo hi) :=
  MeasurableSet.univ_pi fun _ => measurableSet_Ioo

theorem copies_measurePreserving (lo hi : ι → ℝ) (m : ι → ℤ) : MeasurePreserving (copies lo hi m) :=
  volume_preserving_pi fun i => copy_measurePreserving (lo i) (hi i) (m i)

theorem copies_measurableEmbedding (lo hi : ι → ℝ) (m : ι → ℤ) : MeasurableEmbedding (copies lo hi m) :=
  (continuous_copies lo hi m).measurableEmbedding fun _ _ h =>
    funext fun i => copy_injective (lo i) (hi i) (m i) (congrFun h i)

/-- The points that are in no copy of the box are on walls. -/
theorem iUnion_cells_ae (hlt : ∀ i, lo i < hi i) : (⋃ m, cells lo hi m) =ᵐ[volume] Set.univ := by
  have hwall : ∀ i, ∀ᵐ v : ι → ℝ, ∀ k : ℤ, v i ≠ lo i + k * (hi i - lo i) := by
    intro i
    rw [ae_all_iff]
    intro k
    exact Measure.ae_eval_ne _ i _
  rw [Filter.eventuallyEq_univ]
  filter_upwards [ae_all_iff.2 hwall] with v hv
  have hcell : ∀ i, ∃ m, v i ∈ cell (lo i) (hi i) m := by
    intro i
    rcases exists_cell (hlt i) (v i) with h | ⟨k, hk⟩
    · exact h
    · exact absurd hk (hv i k)
  choose m hm using hcell
  exact Set.mem_iUnion.2 ⟨m, Set.mem_univ_pi.2 hm⟩

/-- **An integral over the space, folded into the box.** -/
theorem lintegral_copies (hlt : ∀ i, lo i < hi i) (f : (ι → ℝ) → ENNReal) :
    ∫⁻ v, f v = tsum fun m : ι → ℤ => ∫⁻ y in box lo hi, f (copies lo hi m y) := by
  have hdisj : Pairwise (Function.onFun Disjoint (cells lo hi)) := by
    intro m n hne
    refine Set.disjoint_left.2 fun v hm hn => hne (funext fun i => ?_)
    exact cell_unique (hlt i) (hm i trivial) (hn i trivial)
  have hmeas : ∀ m, MeasurableSet (cells lo hi m) :=
    fun m => MeasurableSet.univ_pi fun _ => measurableSet_Ioo
  calc ∫⁻ v, f v = ∫⁻ v in ⋃ m, cells lo hi m, f v := by
        rw [setLIntegral_congr (iUnion_cells_ae hlt), setLIntegral_univ]
    _ = tsum fun m => ∫⁻ v in cells lo hi m, f v := lintegral_iUnion hmeas hdisj f
    _ = tsum fun m => ∫⁻ y in box lo hi, f (copies lo hi m y) := by
        refine tsum_congr fun m => ?_
        rw [← (copies_measurePreserving lo hi m).setLIntegral_comp_preimage_emb
          (copies_measurableEmbedding lo hi m), copies_preimage_cells]

end Stateline.Lib.Reflection
