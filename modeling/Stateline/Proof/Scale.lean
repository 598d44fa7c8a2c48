import Stateline.Proof.Shape

/-!
# The scale of the shape

`ProposalShaper` keeps a normalised version of each factor. In exact arithmetic an update
scales it to the norm of the quarters of the widths and adds `minRank` to the diagonal; the
constructor scales it to the norm 1 and adds nothing.

* `normalised_update`: what an update makes of the normalised version.
* `one_normalisation_iff`: **the two agree for one width only**, and otherwise the scale
  of a chain changes with its first update.
-/

namespace Stateline

open Lib Matrix

namespace ProposalShaper

variable {d : ℕ}

/-! ## Norms -/

/-- The Frobenius norm. -/
noncomputable def frobenius (R : Fin d → Fin d → ℝ) : ℝ := √(∑ j, ∑ i, R i j ^ 2)

/-- The quarters of the widths of the box. -/
noncomputable def quarters (bounds : ProposalBounds ℝ d) (k : Fin d) : ℝ :=
  (bounds.max k - bounds.min k) / 4

theorem norm_eq (v : Fin d → ℝ) : norm v = √(∑ i, v i ^ 2) := by
  show √((List.finRange d).foldl (fun acc i => acc + v i * v i) 0.0) = _
  rw [foldl_finRange_add]
  simp only [sq]
  norm_num

theorem matrixNorm_eq (R : Fin d → Fin d → ℝ) : matrixNorm R = frobenius R := by
  show √((List.finRange d).foldl
    (fun acc j => (List.finRange d).foldl (fun acc i => acc + R i j * R i j) acc) 0.0) = _
  simp only [foldl_finRange_add]
  unfold frobenius
  simp only [sq]
  norm_num

theorem frobenius_smul (a : ℝ) (R : Fin d → Fin d → ℝ) :
    frobenius (fun i j => R i j * a) = frobenius R * |a| := by
  unfold frobenius
  simp only [mul_pow, ← Finset.sum_mul]
  rw [Real.sqrt_mul' _ (sq_nonneg a), Real.sqrt_sq_eq_abs]

theorem frobenius_diagonal (v : Fin d → ℝ) : frobenius (ProposalShaper.diagonal v) = norm v := by
  rw [norm_eq]
  unfold frobenius ProposalShaper.diagonal
  congr 1
  refine Finset.sum_congr rfl fun j _ => ?_
  rw [Finset.sum_eq_single j]
  · rw [if_pos rfl]
  · intro i _ hij
    rw [if_neg hij]
    norm_num
  · simp

/-- An entry is no larger than the norm. -/
theorem le_frobenius (R : Fin d → Fin d → ℝ) (i j : Fin d) : R i j ≤ frobenius R := by
  refine Real.le_sqrt_of_sq_le ?_
  calc R i j ^ 2 ≤ ∑ i, R i j ^ 2 :=
        Finset.single_le_sum (fun i _ => sq_nonneg (R i j)) (Finset.mem_univ i)
    _ ≤ ∑ j, ∑ i, R i j ^ 2 :=
        Finset.single_le_sum (f := fun j => ∑ i, R i j ^ 2)
          (fun j _ => Finset.sum_nonneg fun i _ => sq_nonneg (R i j)) (Finset.mem_univ j)

/-- **The normalisation**: the factor scaled to the norm `c`, with `minRank` on the diagonal. -/
def Normalised (c : ℝ) (sh : ProposalShaper ℝ d) (i : ℕ) : Prop :=
  ∃ a : ℝ, 0 ≤ a ∧ frobenius (fun j k => sh.L i j k * a) = c ∧
    ∀ j k, sh.N i j k = sh.L i j k * a + if j = k then minRank else 0

/-! ## An update -/

/-- A round of the outer loop of `update` changes one diagonal entry. -/
theorem column_diag (R : Fin d → Fin d → ℝ) (x : Fin d → ℝ) (k i : Fin d) :
    (column (R, x) k).1 i i =
      if i = k then √((eps ⊔ R k k) * (eps ⊔ R k k) + x k * x k) else R i i := by
  unfold column
  dsimp only
  rw [foldl_row _ _ _ ((List.nodup_finRange d).filter _)]
  simp only [set_apply, Double.max_eq]
  by_cases hi : i = k
  · subst hi
    simp [CMath.sqrt]
  · simp [hi]

/-- **The guard** keeps every diagonal entry away from zero. -/
theorem eps_le_diag (R : Fin d → Fin d → ℝ) (x : Fin d → ℝ) (k : Fin d) :
    eps ≤ ((List.finRange d).foldl column (R, x)).1 k k := by
  have hloop := foldl_finRange (f := column) (b := (R, x))
    (P := fun n p => ∀ k : Fin d, k < n → eps ≤ p.1 k k) ?_ ?_
  · exact hloop k k.isLt
  · rintro ⟨S, y⟩ k hS i hi
    rw [column_diag]
    split
    · refine Real.le_sqrt_of_sq_le ?_
      have heps : (0 : ℝ) ≤ eps := by unfold eps; norm_num
      have hsq : eps * eps ≤ (eps ⊔ S k k) * (eps ⊔ S k k) :=
        mul_le_mul le_sup_left le_sup_left heps (heps.trans le_sup_left)
      rw [sq]
      linarith [mul_self_nonneg (y k)]
    · rename_i hne
      have hlt : (i : ℕ) < k := lt_of_le_of_ne (Nat.le_of_lt_succ hi) fun h => hne (Fin.ext h)
      exact hS i hlt
  · intro k hk
    exact absurd hk (Nat.not_lt_zero _)

theorem update_N (sh : ProposalShaper ℝ d) (i : ℕ) (v : Fin d → ℝ) (j k : Fin d) :
    (sh.update i v).N i j k = (sh.update i v).L i j k *
      (sh.propNorm / (frobenius ((sh.update i v).L i) ⊔ eps)) + if j = k then minRank else 0 := by
  rw [← matrixNorm_eq, ← Double.max_eq]
  unfold update
  simp only [Function.update_self]
  split
  · rfl
  · rw [add_zero]

/-- The norm of the factor is not below the guard after an update. -/
theorem eps_le_frobenius (sh : ProposalShaper ℝ d) (hd : 0 < d) (i : ℕ) (v : Fin d → ℝ) :
    eps ≤ frobenius ((sh.update i v).L i) := by
  obtain ⟨R, x, hL⟩ : ∃ R x, (sh.update i v).L i = ((List.finRange d).foldl column (R, x)).1 :=
    ⟨_, _, Function.update_self i _ sh.L⟩
  rw [hL]
  exact (eps_le_diag R x ⟨0, hd⟩).trans (le_frobenius _ _ _)

/-- **What an update makes of the normalised version**: the factor, scaled to `propNorm`. -/
theorem normalised_update {sh : ProposalShaper ℝ d} (hnorm : 0 ≤ sh.propNorm)
    (hempty : d = 0 → sh.propNorm = 0) (i : ℕ) (v : Fin d → ℝ) :
    Normalised sh.propNorm (sh.update i v) i := by
  have heps : (0 : ℝ) < eps := by unfold eps; norm_num
  have hscale : 0 ≤ sh.propNorm / (frobenius ((sh.update i v).L i) ⊔ eps) :=
    div_nonneg hnorm (heps.le.trans le_sup_right)
  refine ⟨_, hscale, ?_, update_N sh i v⟩
  rw [frobenius_smul, abs_of_nonneg hscale]
  rcases Nat.eq_zero_or_pos d with h0 | hpos
  · rw [hempty h0, zero_div, mul_zero]
  · have hge := eps_le_frobenius sh hpos i v
    rw [sup_eq_left.2 hge, mul_div_cancel₀ _ (heps.trans_le hge).ne']

/-! ## The constructor -/

variable {bounds : ProposalBounds ℝ d} {n₀ : ℕ} {us : List (ℕ × (Fin d → ℝ))} {sh : ProposalShaper ℝ d}
  {i : ℕ}

theorem quarters_eq (bounds : ProposalBounds ℝ d) :
    (fun k => (bounds.max k - bounds.min k) / 4.0) = quarters bounds := by
  funext k
  unfold quarters
  norm_num

theorem propNorm_init : (init bounds n₀).propNorm = norm (quarters bounds) := by
  rw [← quarters_eq]
  rfl

theorem L_init : (init bounds n₀).L i = ProposalShaper.diagonal (quarters bounds) := by
  rw [← quarters_eq]
  rfl

theorem N_init : (init bounds n₀).N i =
    ProposalShaper.diagonal fun k => quarters bounds k / norm (quarters bounds) := by
  rw [← quarters_eq]
  rfl

theorem norm_const {r : ℝ} (hr : 0 ≤ r) : norm (fun _ : Fin d => r) = √d * r := by
  rw [norm_eq, Fin.sum_const, nsmul_eq_mul, Real.sqrt_mul (Nat.cast_nonneg d), Real.sqrt_sq hr]

theorem norm_nonneg (v : Fin d → ℝ) : 0 ≤ norm v := by
  rw [norm_eq]
  exact Real.sqrt_nonneg _

theorem norm_pos {v : Fin d → ℝ} {k : Fin d} (hk : 0 < v k) : 0 < norm v := by
  rw [norm_eq]
  refine Real.sqrt_pos.2 ((pow_pos hk 2).trans_le ?_)
  exact Finset.single_le_sum (fun i _ => sq_nonneg (v i)) (Finset.mem_univ k)

/-- **The constructor** normalises as an update does for one width only. -/
theorem normalised_init_iff (hb : ∀ k, 0 < quarters bounds k) :
    Normalised (norm (quarters bounds)) (init bounds n₀) i ↔
      ∀ k, quarters bounds k = 1 / √d - minRank := by
  have hrank : (0 : ℝ) < minRank := by unfold minRank; norm_num
  constructor
  · rintro ⟨a, ha, hscale, hN⟩ k
    have hpos : 0 < norm (quarters bounds) := norm_pos (hb k)
    -- the factor is not scaled at all
    rw [frobenius_smul, L_init, frobenius_diagonal, abs_of_nonneg ha] at hscale
    have ha : a = 1 := mul_left_cancel₀ hpos.ne' (hscale.trans (mul_one _).symm)
    have hentry : ∀ k, quarters bounds k / norm (quarters bounds) = quarters bounds k + minRank := by
      intro k
      have hk := hN k k
      rw [N_init, L_init, ha, mul_one, if_pos rfl] at hk
      unfold ProposalShaper.diagonal at hk
      rwa [if_pos rfl, if_pos rfl] at hk
    -- so all quarters are the same
    have hsame : ∀ l, quarters bounds l = quarters bounds k := by
      intro l
      have hfactor : (norm (quarters bounds))⁻¹ - 1 ≠ 0 := by
        intro h0
        have hk := hentry k
        rw [div_eq_mul_inv, sub_eq_zero.1 h0, mul_one] at hk
        linarith
      refine mul_right_cancel₀ hfactor ?_
      have hl := hentry l
      have hk := hentry k
      rw [div_eq_mul_inv] at hl hk
      linarith
    have hnorm : norm (quarters bounds) = √d * quarters bounds k := by
      rw [← norm_const (hb k).le, ← funext hsame]
    have hk := hentry k
    rw [hnorm, div_mul_cancel_right₀ (hb k).ne'] at hk
    rw [one_div]
    linarith
  · intro hall
    refine ⟨1, one_pos.le, ?_, ?_⟩
    · simp only [mul_one]
      rw [L_init, frobenius_diagonal]
    · intro j k
      rw [N_init, L_init, mul_one]
      unfold ProposalShaper.diagonal
      by_cases hjk : j = k
      · subst hjk
        rw [if_pos rfl, if_pos rfl, if_pos rfl]
        have hnorm : norm (quarters bounds) = √d * quarters bounds j := by
          rw [← norm_const (hb j).le]
          congr 1
          funext l
          rw [hall l, hall j]
        dsimp only
        rw [hnorm, div_mul_cancel_right₀ (hb j).ne', hall j, ← one_div, sub_add_cancel]
      · rw [if_neg hjk, if_neg hjk, if_neg hjk, add_zero]

/-! ## Runs -/

/-- **The normalisation in a run**: that of `update` once the chain was updated, and that of the
constructor before. -/
theorem normalised_run (h : Reach step (fun _ _ => True) (init bounds n₀) us sh) (i : ℕ) :
    sh.propNorm = norm (quarters bounds) ∧
      (stepsOf i us ≠ [] → Normalised (norm (quarters bounds)) sh i) ∧
      (stepsOf i us = [] → sh.L i = (init bounds n₀).L i ∧ sh.N i = (init bounds n₀).N i) := by
  refine h.invariant (P := fun us sh => sh.propNorm = norm (quarters bounds) ∧
    (stepsOf i us ≠ [] → Normalised (norm (quarters bounds)) sh i) ∧
      (stepsOf i us = [] → sh.L i = (init bounds n₀).L i ∧ sh.N i = (init bounds n₀).N i)) ?_ ?_
  · exact ⟨propNorm_init, fun hne => absurd rfl hne, fun _ => ⟨rfl, rfl⟩⟩
  · rintro us sh ⟨i', v⟩ sh' - ⟨hnorm, hsome, hnone⟩ - hs
    injection hs with hs
    subst hs
    refine ⟨hnorm, ?_⟩
    rw [stepsOf_append]
    dsimp only
    by_cases hi : i' = i
    · subst hi
      rw [if_pos rfl]
      refine ⟨fun _ => ?_, fun hnil => absurd hnil (List.append_ne_nil_of_right_ne_nil _
        (List.cons_ne_nil _ _))⟩
      rw [← hnorm]
      refine normalised_update (hnorm ▸ norm_nonneg _) ?_ i' v
      rintro rfl
      rw [hnorm, norm_eq, Fin.sum_univ_zero, Real.sqrt_zero]
    · rw [if_neg hi, List.append_nil]
      have hL : (sh.update i' v).L i = sh.L i := Function.update_of_ne (Ne.symm hi) _ _
      have hN : (sh.update i' v).N i = sh.N i := Function.update_of_ne (Ne.symm hi) _ _
      unfold Normalised
      rw [hL, hN]
      exact ⟨hsome, hnone⟩

/-- A normalisation of all states is that of `update`, and the constructor's as well. -/
theorem normalised_init (hn : n₀ + 1 < 2 ^ 32) {c : ℝ}
    (h : ∀ us sh, Reach step (fun _ _ => True) (init bounds n₀) us sh →
      ∀ i, n₀ + (stepsOf i us).length < 2 ^ 32 → Normalised c sh i) :
    Normalised (norm (quarters bounds)) (init bounds n₀) 0 := by
  have hrun : Reach step (fun _ _ => True) (init bounds n₀) [(0, 0)] ((init bounds n₀).update 0 0) :=
    .next .start trivial rfl
  obtain ⟨a, -, hscale, hN⟩ := h _ _ hrun 0 hn
  obtain ⟨a', -, hscale', hN'⟩ := (normalised_run hrun 0).2.1 (List.cons_ne_nil _ _)
  have hsame : (fun j k => ((init bounds n₀).update 0 0).L 0 j k * a) =
      fun j k => ((init bounds n₀).update 0 0).L 0 j k * a' := by
    funext j k
    have hjk := hN j k
    rw [hN' j k] at hjk
    linarith
  rw [← hscale', ← hsame, hscale]
  exact h _ _ .start 0 (Nat.lt_of_succ_lt hn)

/-- **One normalisation of all states** there is for one width only, the same in all dimensions.
For any other, the chains that were updated are normalised differently from those that were not. It
is so until the count of a chain is no longer a `uint`. -/
theorem one_normalisation_iff (hb : ∀ k, bounds.min k < bounds.max k) (hn : n₀ + 1 < 2 ^ 32) :
    ((∃ c, ∀ us sh, Reach step (fun _ _ => True) (init bounds n₀) us sh →
        ∀ i, n₀ + (stepsOf i us).length < 2 ^ 32 → Normalised c sh i) ↔
      ∀ k, quarters bounds k = 1 / √d - minRank) ∧
    ∀ us sh, Reach step (fun _ _ => True) (init bounds n₀) us sh →
      ∀ i, n₀ + (stepsOf i us).length < 2 ^ 32 → (Normalised (norm (quarters bounds)) sh i ↔
        stepsOf i us ≠ [] ∨ ∀ k, quarters bounds k = 1 / √d - minRank) := by
  have hq : ∀ k, 0 < quarters bounds k := fun k => div_pos (sub_pos.2 (hb k)) four_pos
  have hrun : ∀ us sh, Reach step (fun _ _ => True) (init bounds n₀) us sh →
      ∀ i, n₀ + (stepsOf i us).length < 2 ^ 32 → (Normalised (norm (quarters bounds)) sh i ↔
        stepsOf i us ≠ [] ∨ ∀ k, quarters bounds k = 1 / √d - minRank) := by
    intro us sh h i _
    obtain ⟨-, hsome, hnone⟩ := normalised_run h i
    by_cases hnil : stepsOf i us = []
    · obtain ⟨hL, hN⟩ := hnone hnil
      have hinit : Normalised (norm (quarters bounds)) (init bounds n₀) i ↔
          ∀ k, quarters bounds k = 1 / √d - minRank := normalised_init_iff hq
      rw [← hinit, or_iff_right (not_not.2 hnil)]
      unfold Normalised
      rw [hL, hN]
    · exact iff_of_true (hsome hnil) (.inl hnil)
  refine ⟨⟨?_, ?_⟩, hrun⟩
  · rintro ⟨c, hc⟩
    exact (normalised_init_iff hq).1 (normalised_init hn hc)
  · intro hall
    exact ⟨norm (quarters bounds), fun us sh h i hi => (hrun us sh h i hi).2 (.inr hall)⟩

/-- One dimension between 0 and 8. -/
def eightBounds : ProposalBounds ℝ 1 := ⟨fun _ => 0, fun _ => 8⟩

theorem one_normalisation_iff_eight :
    Normalised (norm (quarters eightBounds)) ((init eightBounds 1000).update 0 0) 0 :=
  ((one_normalisation_iff (fun _ => by norm_num [eightBounds]) (by norm_num)).2 [(0, 0)] _
    (.next .start trivial rfl) 0 (by decide)).2 (.inl (List.cons_ne_nil _ _))

/-- With the width 8 the proposals have the norm 1 up to the first accepted step, and 2 after it. -/
theorem scale_jumps : ¬ ∃ c, ∀ us sh, Reach step (fun _ _ => True) (init eightBounds 1000) us sh →
    ∀ i, 1000 + (stepsOf i us).length < 2 ^ 32 → Normalised c sh i := by
  rintro ⟨c, hc⟩
  have h0 := (normalised_init_iff (fun _ => by norm_num [quarters, eightBounds])).1
    (normalised_init (by norm_num) hc) 0
  norm_num [quarters, eightBounds, minRank] at h0

end ProposalShaper

end Stateline
