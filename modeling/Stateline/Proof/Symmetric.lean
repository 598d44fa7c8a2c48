import Stateline.Proof.Invariant

/-!
# Symmetry of the bounded proposal

Reflection turns one component of a displacement around and leaves the others. Where the
components of a displacement are independent, the way back is as likely as the way there;
where they are correlated it is not.

* `bijection_of_diagonal`: the displacements from `x` to `y` and those back, for a diagonal shape.
* `diagonal_of_bijection`: for any other shape there are two points without such a bijection.
* `symmetric_iff`: **the proposal is symmetric exactly for a diagonal shape.**
-/

namespace Stateline

open Lib Reflection Matrix MeasureTheory

variable {d : ℕ} {bounds : ProposalBounds ℝ d} {N : Fin d → Fin d → ℝ} {x y δ : Fin d → ℝ}

/-! ## Diagonal shapes -/

theorem stepExponent_diagonal (hdiag : ∀ i j, i ≠ j → N i j = 0) (hpos : ∀ i, 0 < N i i)
    (δ : Fin d → ℝ) :
    stepExponent N δ = ∑ i, (δ i / N i i) ^ 2 := by
  have hN : of N = diagonal fun i => N i i := by
    ext i j
    rw [of_apply, diagonal_apply]
    split
    · rename_i h
      rw [h]
    · rename_i h
      exact hdiag i j h
  have hinv : (of N)⁻¹ = diagonal fun i => (N i i)⁻¹ := by
    refine inv_eq_left_inv ?_
    rw [hN, diagonal_mul_diagonal, ← diagonal_one]
    exact congrArg diagonal (funext fun i => inv_mul_cancel₀ (hpos i).ne')
  unfold stepExponent
  refine Finset.sum_congr rfl fun i _ => ?_
  rw [hinv, mulVec_diagonal, inv_mul_eq_div]

/-- The copies of the two ends of a way. -/
def backs : {m : Fin d → ℤ // Near m} ≃ {m : Fin d → ℤ // Near m} where
  toFun m := ⟨fun i => turnBack (m.1 i), fun i => (abs_turnBack _).trans_le (m.2 i)⟩
  invFun m := ⟨fun i => turnBack (m.1 i), fun i => (abs_turnBack _).trans_le (m.2 i)⟩
  left_inv m := Subtype.ext (funext fun i => turnBack_turnBack (m.1 i))
  right_inv m := Subtype.ext (funext fun i => turnBack_turnBack (m.1 i))

/-- **A way back for each way, of the same length in each component.** -/
theorem bijection_of_diagonal (hlt : ∀ i, bounds.min i < bounds.max i)
    (hdiag : ∀ i j, i ≠ j → N i j = 0) (hpos : ∀ i, 0 < N i i)
    (hx : x ∈ box bounds.min bounds.max) (hy : y ∈ box bounds.min bounds.max) :
    ∃ e : displacements bounds x y ≃ displacements bounds y x, ∀ δ,
      stepExponent N (e δ) = stepExponent N δ := by
  refine ⟨(ways hlt x hy).symm.trans (backs.trans (ways hlt y hx)), fun δ => ?_⟩
  obtain ⟨m, rfl⟩ := (ways hlt x hy).surjective δ
  rw [Equiv.trans_apply, Equiv.trans_apply, Equiv.symm_apply_apply, ways_apply, ways_apply,
    stepExponent_diagonal hdiag hpos, stepExponent_diagonal hdiag hpos]
  refine Finset.sum_congr rfl fun i _ => ?_
  rw [div_pow, div_pow]
  congr 1
  exact copy_turnBack_sub_sq (bounds.min i) (bounds.max i) (x i) (y i) (m.1 i)

/-- A bijection that keeps the exponent keeps the density. -/
theorem density_of_bijection (sigma : ℝ) (e : displacements bounds x y ≃ displacements bounds y x)
    (he : ∀ δ, stepExponent N (e δ) = stepExponent N δ) :
      density bounds N sigma x y = density bounds N sigma y x := by
  unfold density
  rw [← e.tsum_eq]
  refine tsum_congr fun δ => ?_
  unfold stepDensity
  rw [he]

/-! ## Other shapes -/

/-- A displacement of one component. -/
theorem jump_cases {lo hi x y δ : ℝ} (hlt : lo < hi) (hx : x ∈ Set.Ioo lo hi) (hy : y ∈ Set.Ioo lo hi)
    (h : bounce (x + δ) lo hi = .ok y) :
      δ = y - x ∨ δ = 2 * hi - x - y ∨ δ = 2 * lo - x - y ∨ hi - lo ≤ |δ| := by
  have hδ : 0 < hi - lo := sub_pos.2 hlt
  obtain ⟨m, -, hm⟩ := (bounce_eq_inside_iff hlt hy).1 h
  obtain ⟨h₁, h₂⟩ : x + δ ∈ cell lo hi m := hm ▸ copy_mem_cell.2 hy
  obtain ⟨hx₁, hx₂⟩ := hx
  rcases lt_or_ge 1 m with hbig | hle
  · have hm2 : (2 : ℝ) ≤ m := by exact_mod_cast hbig
    have hmul : 2 * (hi - lo) ≤ m * (hi - lo) := mul_le_mul_of_nonneg_right hm2 hδ.le
    exact .inr (.inr (.inr (le_abs.2 (.inl (by linarith)))))
  · rcases lt_or_ge m (-1) with hsmall | hge
    · have hm2 : (m : ℝ) ≤ -2 := by exact_mod_cast (by omega : m ≤ -2)
      have hmul : m * (hi - lo) ≤ -2 * (hi - lo) := mul_le_mul_of_nonneg_right hm2 hδ.le
      exact .inr (.inr (.inr (le_abs.2 (.inr (by linarith)))))
    · obtain rfl | rfl | rfl : m = 0 ∨ m = 1 ∨ m = -1 := by omega
      · rw [copy_zero] at hm
        exact .inl (by linarith)
      · rw [copy_odd (by decide)] at hm
        push_cast at hm
        exact .inr (.inl (by linarith))
      · rw [copy_odd (by decide)] at hm
        push_cast at hm
        exact .inr (.inr (.inl (by linarith)))

/-- A short displacement has short components. -/
theorem sq_le_stepExponent (hdet : (of N).det ≠ 0) (δ : Fin d → ℝ) (l : Fin d) :
    δ l ^ 2 ≤ (∑ k, N l k ^ 2) * stepExponent N δ := by
  have hback : of N *ᵥ ((of N)⁻¹ *ᵥ δ) = δ := by
    rw [mulVec_mulVec, mul_nonsing_inv _ hdet.isUnit, one_mulVec]
  have hl : δ l = ∑ k, N l k * ((of N)⁻¹ *ᵥ δ) k := (congrFun hback l).symm
  rw [hl]
  exact Finset.sum_mul_sq_le_sq_mul_sq _ _ _

/-- The products of the columns of `N⁻¹`. -/
noncomputable def gram (N : Fin d → Fin d → ℝ) (i j : Fin d) : ℝ := ∑ k, (of N)⁻¹ k i * (of N)⁻¹ k j

theorem gram_self_nonneg (N : Fin d → Fin d → ℝ) (i : Fin d) : 0 ≤ gram N i i :=
  Finset.sum_nonneg fun _ _ => mul_self_nonneg _

/-- The exponent of a displacement of two components. -/
theorem stepExponent_pair (N : Fin d → Fin d → ℝ) (i j : Fin d) (a b : ℝ) :
    stepExponent N (Pi.single i a + Pi.single j b) =
    a ^ 2 * gram N i i + 2 * a * b * gram N i j + b ^ 2 * gram N j j := by
  unfold stepExponent gram
  rw [Finset.mul_sum, Finset.mul_sum, Finset.mul_sum, ← Finset.sum_add_distrib,
    ← Finset.sum_add_distrib]
  refine Finset.sum_congr rfl fun k _ => ?_
  have hk : ((of N)⁻¹ *ᵥ (Pi.single i a + Pi.single j b)) k = (of N)⁻¹ k i * a + (of N)⁻¹ k j * b := by
    rw [mulVec_add, mulVec_single, mulVec_single]
    rfl
  rw [hk]
  ring

theorem det_pos_of_lower (hlower : ∀ i j, i < j → N i j = 0) (hpos : ∀ i, 0 < N i i) :
    0 < (of N).det := by
  rw [det_of_isLowerTriangular (of N) fun i j hij => hlower i j hij]
  exact Finset.prod_pos fun i _ => hpos i

/-- **The columns of the inverse of a triangular matrix are orthogonal only when it is diagonal.** -/
theorem diagonal_of_gram (hlower : ∀ i j, i < j → N i j = 0) (hdet : (of N).det ≠ 0)
    (hgram : ∀ i j, i ≠ j → gram N i j = 0) : ∀ i j, i ≠ j → N i j = 0 := by
  have hunit : IsUnit (of N).det := hdet.isUnit
  have := invertibleOfIsUnitDet _ hunit
  have hinv : (of N)⁻¹.BlockTriangular OrderDual.toDual :=
    blockTriangular_inv_of_blockTriangular fun i j hij => hlower i j hij
  -- the transpose of the inverse, which is upper triangular, is a multiple of each row of `N`
  have hrow : ∀ i j, gram N i i * N i j = (of N)⁻¹ j i := by
    intro i j
    have hprod : (((of N)⁻¹)ᵀ * (of N)⁻¹) * of N = ((of N)⁻¹)ᵀ := by
      rw [Matrix.mul_assoc, nonsing_inv_mul _ hunit, Matrix.mul_one]
    calc gram N i i * N i j = ∑ k, gram N i k * N k j := by
          rw [Finset.sum_eq_single i]
          · intro k _ hk
            rw [hgram i k hk.symm, zero_mul]
          · simp
      _ = ((((of N)⁻¹)ᵀ * (of N)⁻¹) * of N) i j := rfl
      _ = (of N)⁻¹ j i := by rw [hprod, transpose_apply]
  have hgram_ne : ∀ i, gram N i i ≠ 0 := by
    intro i hzero
    have hcol : ∀ k, (of N)⁻¹ k i = 0 := fun k => by rw [← hrow i k, hzero, zero_mul]
    have hone : (of N * (of N)⁻¹) i i = 1 := by rw [mul_nonsing_inv _ hunit, one_apply_eq]
    rw [mul_apply, Finset.sum_eq_zero fun k _ => by rw [hcol k, mul_zero]] at hone
    exact zero_ne_one hone
  intro i j hij
  rcases lt_or_gt_of_ne hij with hlt | hgt
  · exact hlower i j hlt
  · have hzero := hrow i j
    rw [hinv hgt] at hzero
    exact (mul_eq_zero.1 hzero).resolve_left (hgram_ne i)

/-- A continuous function that vanishes at zero is small near it. -/
theorem eventually_small {f : ℝ → ℝ} (hf : Continuous f) (h0 : f 0 = 0) {c : ℝ} (hc : 0 < c) :
    ∀ᶠ ε in nhdsWithin 0 (Set.Ioi 0), f ε < c :=
  ((h0 ▸ hf.tendsto 0).eventually_lt_const hc).filter_mono nhdsWithin_le_nhds

section Corner

variable {i j : Fin d} {g ε : ℝ}

/-- A point near the upper wall of the component `i`. -/
noncomputable def nearWall (bounds : ProposalBounds ℝ d) (i : Fin d) (ε : ℝ) : Fin d → ℝ :=
  Function.update (fun k => (bounds.min k + bounds.max k) / 2) i (bounds.max i - ε)

/-- The widths of the box, as far as a way with the length `ε` cares. -/
structure Short (bounds : ProposalBounds ℝ d) (i j : Fin d) (g ε : ℝ) : Prop where
  pos : 0 < ε
  wall : ε < (bounds.max i - bounds.min i) / 2
  side : |ε * g| < (bounds.max j - bounds.min j) / 4

/-- A way turns `i` around at the wall and moves `j`. -/
theorem there_mem (hlt : ∀ i, bounds.min i < bounds.max i) (hij : i ≠ j)
    (hy : nearWall bounds i ε + Pi.single j (ε * g) ∈ box bounds.min bounds.max) :
      Pi.single i (2 * ε) + Pi.single j (ε * g) ∈
      displacements bounds (nearWall bounds i ε) (nearWall bounds i ε + Pi.single j (ε * g)) := by
  refine bouncyBounds_eq_ok_iff.2 fun l => (bounce_eq_inside_iff (hlt l) (mem_box.1 hy l)).2 ?_
  simp only [Pi.add_apply]
  by_cases hl : l = i
  · subst hl
    refine ⟨1, by norm_num, ?_⟩
    rw [copy_odd (by decide), Pi.single_eq_same, Pi.single_eq_of_ne hij]
    unfold nearWall
    rw [Function.update_self]
    push_cast
    ring
  · refine ⟨0, by norm_num, ?_⟩
    rw [copy_zero, Pi.single_eq_of_ne hl, zero_add]

variable (h : Short bounds i j g ε)
include h

theorem Short.nearWall_mem (hlt : ∀ i, bounds.min i < bounds.max i) :
    nearWall bounds i ε ∈ box bounds.min bounds.max := by
  refine mem_box.2 fun l => ?_
  have := hlt l
  have := h.pos
  have := h.wall
  unfold nearWall
  by_cases hl : l = i
  · subst hl
    rw [Function.update_self]
    constructor <;> linarith
  · rw [Function.update_of_ne hl]
    constructor <;> linarith

/-- A component that is not `i` moves around the middle. -/
theorem Short.side_lt (hlt : ∀ i, bounds.min i < bounds.max i) (l : Fin d) :
    |(Pi.single j (ε * g) : Fin d → ℝ) l| < (bounds.max l - bounds.min l) / 4 := by
  by_cases hl : l = j
  · subst hl
    rw [Pi.single_eq_same]
    exact h.side
  · have := hlt l
    rw [Pi.single_eq_of_ne hl, abs_zero]
    linarith

theorem Short.moved_mem (hlt : ∀ i, bounds.min i < bounds.max i) (hij : i ≠ j) :
    nearWall bounds i ε + Pi.single j (ε * g) ∈ box bounds.min bounds.max := by
  refine mem_box.2 fun l => ?_
  by_cases hl : l = i
  · subst hl
    rw [Pi.add_apply, Pi.single_eq_of_ne hij, add_zero]
    exact mem_box.1 (h.nearWall_mem hlt) l
  · have hside := abs_lt.1 (h.side_lt hlt l)
    have := hlt l
    rw [Pi.add_apply, nearWall, Function.update_of_ne hl]
    constructor <;> linarith

/-- **The short ways back.** They may turn `i` around as well, and move `j` against the way there. -/
theorem Short.back_cases (hlt : ∀ i, bounds.min i < bounds.max i) (hij : i ≠ j)
    (hback : δ ∈ displacements bounds (nearWall bounds i ε + Pi.single j (ε * g)) (nearWall bounds i ε))
    (hshort : ∀ l, |δ l| < (bounds.max l - bounds.min l) / 2) :
    ∃ s, (s = 0 ∨ s = 2 * ε) ∧ δ = Pi.single i s + Pi.single j (-(ε * g)) := by
  have hcases :=
    fun l => jump_cases (hlt l) (mem_box.1 (h.moved_mem hlt hij) l) (mem_box.1 (h.nearWall_mem hlt) l)
    (bouncyBounds_eq_ok_iff.1 hback l)
  -- the component `i` is at the same point near the wall
  have hi : δ i = 0 ∨ δ i = 2 * ε := by
    have hcase := hcases i
    have hwidth := hlt i
    have hwall := h.wall
    have hsmall := abs_lt.1 (hshort i)
    rw [Pi.add_apply, Pi.single_eq_of_ne hij, add_zero, nearWall, Function.update_self] at hcase
    rcases hcase with hcase | hcase | hcase | hcase
    · exact .inl (by linarith)
    · exact .inr (by linarith)
    · linarith
    · linarith [hshort i]
  -- any other is near the middle, where a wall is too far away
  have hl : ∀ l, l ≠ i → δ l = -(Pi.single j (ε * g) : Fin d → ℝ) l := by
    intro l hl
    have hcase := hcases l
    have hwidth := hlt l
    have hsmall := abs_lt.1 (hshort l)
    have hside := abs_lt.1 (h.side_lt hlt l)
    rw [Pi.add_apply, nearWall, Function.update_of_ne hl] at hcase
    rcases hcase with hcase | hcase | hcase | hcase
    · linarith
    · linarith
    · linarith
    · linarith [hshort l]
  refine ⟨δ i, hi, funext fun l => ?_⟩
  rw [Pi.add_apply]
  by_cases hli : l = i
  · subst hli
    rw [Pi.single_eq_same, Pi.single_eq_of_ne hij, add_zero]
  · rw [hl l hli, Pi.single_eq_of_ne hli, zero_add, Pi.single_neg]
    rfl

end Corner

/-- **Only a diagonal shape has a way back for each way.** Otherwise two components `i` and `j`
are correlated. Near the upper wall of the component `i`, a way turns that component around at
the wall and moves the component `j` by a bit; the way back turns `i` around as well and moves
`j` against it, and no way of the same length is left. -/
theorem diagonal_of_bijection (hlt : ∀ i, bounds.min i < bounds.max i)
    (hlower : ∀ i j, i < j → N i j = 0) (hpos : ∀ i, 0 < N i i)
    (h : ∀ x ∈ box bounds.min bounds.max, ∀ y ∈ box bounds.min bounds.max,
      ∃ e : displacements bounds x y ≃ displacements bounds y x, ∀ δ,
        stepExponent N (e δ) = stepExponent N δ) :
    ∀ i j, i ≠ j → N i j = 0 := by
  have hdet := (det_pos_of_lower hlower hpos).ne'
  refine diagonal_of_gram hlower hdet fun i j hij => ?_
  by_contra hg
  set g := gram N i j
  set c := 4 * gram N i i + 4 * g * g + g ^ 2 * gram N j j
  have hwidth : ∀ l, 0 < bounds.max l - bounds.min l := fun l => sub_pos.2 (hlt l)
  obtain ⟨ε, hε, hwall, hside, hsmall⟩ : ∃ ε, 0 < ε ∧ ε < (bounds.max i - bounds.min i) / 2 ∧
      |ε * g| < (bounds.max j - bounds.min j) / 4 ∧
      ∀ l, (∑ k, N l k ^ 2) * (ε ^ 2 * c) < ((bounds.max l - bounds.min l) / 2) ^ 2 := by
    have hall := (eventually_mem_nhdsWithin (a := (0 : ℝ)) (s := Set.Ioi 0)).and
      ((eventually_small continuous_id rfl (half_pos (hwidth i))).and
        ((eventually_small
          (f := fun ε => |ε * g|) (by fun_prop) (by simp) (div_pos (hwidth j) four_pos)).and
          (Filter.eventually_all.2 fun l => eventually_small
            (f := fun ε => (∑ k, N l k ^ 2) * (ε ^ 2 * c)) (by fun_prop)
            (by simp) (pow_pos (half_pos (hwidth l)) 2))))
    exact hall.exists
  have hshort : Short bounds i j g ε := ⟨hε, hwall, hside⟩
  obtain ⟨e, he⟩ := h _ (hshort.nearWall_mem hlt) _ (hshort.moved_mem hlt hij)
  set there : displacements bounds (nearWall bounds i ε) (nearWall bounds i ε + Pi.single j (ε * g)) :=
    ⟨_, there_mem hlt hij (hshort.moved_mem hlt hij)⟩
  have hthere : stepExponent N there = ε ^ 2 * c := by
    rw [stepExponent_pair]
    ring
  obtain ⟨s, hs, hback⟩ := hshort.back_cases hlt hij (e there).2 fun l => by
    refine abs_lt_of_sq_lt_sq ?_ (half_pos (hwidth l)).le
    calc (e there : Fin d → ℝ) l ^ 2 ≤ (∑ k, N l k ^ 2) * stepExponent N (e there) :=
      sq_le_stepExponent hdet _ l
      _ < _ := by
        rw [he, hthere]
        exact hsmall l
  have hexp := he there
  rw [hback, hthere, stepExponent_pair] at hexp
  have hpos2 : 0 < ε ^ 2 := pow_pos hε 2
  have hg2 : 0 < g ^ 2 := by positivity
  have hii := gram_self_nonneg N i
  rcases hs with rfl | rfl
  · nlinarith [mul_pos hpos2 hg2, mul_nonneg hpos2.le hii]
  · nlinarith [mul_pos hpos2 hg2]

/-! ## The proposal -/

/-- **The bounded proposal is symmetric** between points strictly inside the box. -/
structure GaussianProposal.Symmetric (p : GaussianProposal ℝ d) (id : ℕ) (sigma : ℝ) : Prop where
  bijection : ∀ x ∈ box p.bounds.min p.bounds.max, ∀ y ∈ box p.bounds.min p.bounds.max,
    ∃ e : displacements p.bounds x y ≃ displacements p.bounds y x,
      ∀ δ, stepExponent (p.proposalShape.Ns id) (e δ) = stepExponent (p.proposalShape.Ns id) δ
  density : ∀ x ∈ box p.bounds.min p.bounds.max, ∀ y ∈ box p.bounds.min p.bounds.max,
    density p.bounds (p.proposalShape.Ns id) sigma x y =
      density p.bounds (p.proposalShape.Ns id) sigma y x
  invariant : p.Invariant id sigma

/-- **The bounded proposal is symmetric exactly for a diagonal shape.** -/
theorem symmetric_iff (p : GaussianProposal ℝ d) (id : ℕ) {sigma : ℝ} (hs : 0 < sigma)
    (hlt : ∀ i, p.bounds.min i < p.bounds.max i) (hlower : ∀ i j, i < j → p.proposalShape.Ns id i j = 0)
    (hpos : ∀ i, 0 < p.proposalShape.Ns id i i) :
    p.Symmetric id sigma ↔ ∀ i j, i ≠ j → p.proposalShape.Ns id i j = 0 := by
  constructor
  · intro h
    exact diagonal_of_bijection hlt hlower hpos h.bijection
  · intro hdiag
    have hbij := fun x hx y hy => bijection_of_diagonal (x := x) (y := y) hlt hdiag hpos hx hy
    have hdensity : ∀ x ∈ box p.bounds.min p.bounds.max, ∀ y ∈ box p.bounds.min p.bounds.max,
        density p.bounds (p.proposalShape.Ns id) sigma x y =
          density p.bounds (p.proposalShape.Ns id) sigma y x := by
      intro x hx y hy
      obtain ⟨e, he⟩ := hbij x hx y hy
      exact density_of_bijection sigma e he
    exact ⟨hbij, hdensity, GaussianProposal.invariant_of_symmetric hlt
      (det_pos_of_lower hlower hpos) hs hdensity⟩

/-- Proposals in the unit square, with correlated components. -/
noncomputable def skewed : GaussianProposal ℝ 2 :=
  ⟨⟨fun _ => 0, fun _ => 1⟩, ⟨1, fun _ => 1, fun _ => ![![1, 0], ![-1 / 2, 1 / 4]],
    fun _ => ![![1, 0], ![-1 / 2, 1 / 4]]⟩⟩

theorem symmetric_iff_skewed : ¬ skewed.Symmetric 0 1 := by
  have hNs : skewed.proposalShape.Ns 0 = ![![1, 0], ![-1 / 2, 1 / 4]] := rfl
  have hiff := symmetric_iff skewed 0 one_pos (fun _ => one_pos)
    (by
      intro i j hij
      obtain ⟨rfl, rfl⟩ : i = 0 ∧ j = 1 := by omega
      rw [hNs]
      rfl)
    (by
      intro i
      rw [hNs]
      fin_cases i
      · norm_num
      · norm_num)
  rw [hiff]
  intro h
  have := h 1 0 (by decide)
  rw [hNs] at this
  norm_num at this

/-- The exponent of the proposals `skewed`. -/
theorem stepExponent_skewed (δ : Fin 2 → ℝ) :
    stepExponent (skewed.proposalShape.Ns 0) δ = δ 0 ^ 2 + (2 * δ 0 + 4 * δ 1) ^ 2 := by
  have hinv : (of (skewed.proposalShape.Ns 0))⁻¹ = of ![![1, 0], ![2, 4]] := by
    refine inv_eq_left_inv ?_
    ext i j
    fin_cases i <;> fin_cases j <;> norm_num [skewed, ProposalShaper.Ns, Matrix.mul_apply]
  unfold stepExponent
  rw [hinv, Fin.sum_univ_two]
  simp [mulVec, dotProduct, Fin.sum_univ_two]

/-- From `(1/4, 1/4)` the displacement `(-1/2, 1/4)` turns around at the lower wall of the
first component and ends at `(1/4, 1/2)`. None of the displacements back is as long. -/
theorem skewed_not_symmetric : ¬ ∃ e : displacements skewed.bounds ![1 / 4, 1 / 4] ![1 / 4, 1 / 2] ≃
      displacements skewed.bounds ![1 / 4, 1 / 2] ![1 / 4, 1 / 4],
    ∀ δ, stepExponent (skewed.proposalShape.Ns 0) (e δ) =
      stepExponent (skewed.proposalShape.Ns 0) δ := by
  rintro ⟨e, he⟩
  have hlt : ∀ i, skewed.bounds.min i < skewed.bounds.max i := fun _ => one_pos
  have hthere : ![-1 / 2, 1 / 4] ∈ displacements skewed.bounds ![1 / 4, 1 / 4] ![1 / 4, 1 / 2] := by
    refine bouncyBounds_eq_ok_iff.2 fun i => (bounce_eq_inside_iff (hlt i) ?_).2 ⟨![-1, 0] i, ?_, ?_⟩
    all_goals fin_cases i
    · constructor <;> norm_num [skewed]
    · constructor <;> norm_num [skewed]
    · norm_num
    · norm_num
    · norm_num [skewed, copy, show ¬ Even (-1 : ℤ) by decide]
    · norm_num [skewed, copy]
  obtain ⟨⟨δ, hδ⟩, hback⟩ : ∃ δ, e ⟨_, hthere⟩ = δ := ⟨_, rfl⟩
  have hexp := he ⟨_, hthere⟩
  rw [hback, stepExponent_skewed, stepExponent_skewed] at hexp
  have h0 := jump_cases (hlt 0) (by constructor <;> norm_num [skewed])
      (by constructor <;> norm_num [skewed])
    (bouncyBounds_eq_ok_iff.1 hδ 0)
  have h1 := jump_cases (hlt 1) (by constructor <;> norm_num [skewed])
      (by constructor <;> norm_num [skewed])
    (bouncyBounds_eq_ok_iff.1 hδ 1)
  norm_num [skewed] at hexp h0 h1
  have hsq0 : δ 0 ^ 2 ≤ 1 / 4 := by linarith [sq_nonneg (2 * δ 0 + 4 * δ 1)]
  rcases h0 with h0 | h0 | h0 | h0
  · -- the first component does not move
    have hsq1 : δ 1 ^ 2 = 1 / 64 := by
      rw [h0] at hexp
      linarith
    rcases h1 with h1 | h1 | h1 | h1
    · norm_num [h1] at hsq1
    · norm_num [h1] at hsq1
    · norm_num [h1] at hsq1
    · linarith [(one_le_sq_iff_one_le_abs _).2 h1]
  · norm_num [h0] at hsq0
  · -- it turns around, and the second one would have to move on
    have h1' : δ 1 = 1 / 4 := by
      rw [h0] at hexp
      have hzero : (4 * δ 1 - 1) ^ 2 = 0 := by linarith
      linarith [pow_eq_zero_iff two_ne_zero |>.1 hzero]
    norm_num [h1'] at h1
  · linarith [(one_le_sq_iff_one_le_abs _).2 h0]

end Stateline
