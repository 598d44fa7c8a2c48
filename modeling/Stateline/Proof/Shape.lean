import Stateline.Infer.ProposalShaper
import Stateline.Lib.Cholesky
import Stateline.Lib.Run

/-!
# The factor of the step covariance

The two loops of `ProposalShaper::update` as the rank-one update of `Lib.Cholesky`,
one column after the other, in exact arithmetic.

* `column_eq`: the inner loop is the next column.
* `factor_update`: what an update makes of the factor.
* `shape_covariance`: **the factor is that of the weighted covariance** of the steps of its
  chain, in every run whose diagonal entries stay above the guard.
-/

namespace Stateline

open Lib Matrix

namespace ProposalShaper

variable {d : ℕ}

/-! ## The loops -/

theorem set_apply (R : Fin d → Fin d → ℝ) (j k : Fin d) (v : ℝ) (i l : Fin d) :
    set R j k v i l = if l = k ∧ i = j then v else R i l := by
  unfold set
  by_cases hi : i = j
  · subst hi
    by_cases hl : l = k
    · subst hl
      simp
    · simp [hl]
  · simp [hi]

/-- The inner loop changes one entry of the column and of the vector in each round. -/
theorem foldl_row (k : Fin d) (c s : ℝ) {js : List (Fin d)} (hnd : js.Nodup)
    (R : Fin d → Fin d → ℝ) (x : Fin d → ℝ) :
    js.foldl (row k c s) (R, x) =
      (fun i l => if l = k ∧ i ∈ js then (R i k + s * x i) / c else R i l,
        fun i => if i ∈ js then c * x i - s * ((R i k + s * x i) / c) else x i) := by
  induction js generalizing R x with
  | nil => simp
  | cons j js ih =>
    obtain ⟨hj, hnd⟩ := List.nodup_cons.1 hnd
    rw [List.foldl_cons, row, ih hnd]
    refine Prod.ext ?_ ?_
    · funext i l
      dsimp only
      simp only [set_apply, List.mem_cons]
      by_cases hi : i = j
      · subst hi
        simp [hj]
      · simp [hi]
    · funext i
      dsimp only
      simp only [set_apply, List.mem_cons]
      by_cases hi : i = j
      · subst hi
        simp [hj]
      · simp [hi]

/-- **The inner loop is the next column**, unless the diagonal entry is below the guard. -/
theorem column_eq (R : Fin d → Fin d → ℝ) (x : Fin d → ℝ) {k : Fin d} (hV : eps ≤ R k k) :
    column (R, x) k =
      (updateCol (of R) k (Cholesky.columnOf (of R) x k √(R k k * R k k + x k * x k)),
        Cholesky.vectorOf (of R) x k √(R k k * R k k + x k * x k)) := by
  have hmax : Double.max eps (R k k) = R k k := by rw [Double.max_eq, max_eq_right hV]
  unfold column
  simp only [hmax]
  rw [foldl_row _ _ _ ((List.nodup_finRange d).filter _)]
  have hmem : ∀ i, i ∈ (List.finRange d).filter (k < ·) ↔ k < i := by simp
  have hbelow : ∀ i, k < i → i ≠ k := fun i hi => hi.ne'
  refine Prod.ext ?_ ?_
  · funext i l
    simp only [hmem, set_apply]
    rw [updateCol_apply]
    by_cases hl : l = k
    · subst hl
      unfold Cholesky.columnOf
      rcases lt_trichotomy i l with hlt | rfl | hgt
      · simp [hlt.ne, hlt.not_gt]
      · simp [CMath.sqrt]
      · simp [hgt, hgt.ne', CMath.sqrt]
    · simp [hl]
  · funext i
    simp only [hmem, set_apply]
    unfold Cholesky.vectorOf Cholesky.columnOf
    by_cases hi : k < i
    · simp [hi, hi.ne', CMath.sqrt]
    · simp [hi]

/-- **The outer loop** makes of a factor one of the sum with the product of the vector, when
the diagonal entries are not below the guard. -/
theorem foldl_column {R : Fin d → Fin d → ℝ} (x : Fin d → ℝ) (hlower : ∀ i j, i < j → R i j = 0)
    (hV : ∀ k, eps ≤ R k k) :
    Cholesky.Partly (of R * (of R)ᵀ + vecMulVec x x) d (of ((List.finRange d).foldl column (R, x)).1)
      ((List.finRange d).foldl column (R, x)).2 := by
  have hpos : ∀ k, 0 < R k k := fun k => lt_of_lt_of_le (by unfold eps; norm_num) (hV k)
  have hloop := foldl_finRange (f := column) (b := (R, x))
    (P := fun k p => Cholesky.Partly (of R * (of R)ᵀ + vecMulVec x x) k (of p.1) p.2 ∧
      ∀ i : Fin d, k ≤ i → p.1 i i = R i i)
    ?_ ⟨Cholesky.Partly.start hlower hpos x, fun _ _ => rfl⟩
  · exact hloop.1
  · rintro ⟨S, y⟩ k ⟨hpartly, hdiag⟩
    have hS : S k k = R k k := hdiag k le_rfl
    rw [column_eq S y (by rw [hS]; exact hV k)]
    have hpos' : 0 < S k k * S k k + y k * y k := by
      rw [hS]
      exact add_pos_of_pos_of_nonneg (mul_pos (hpos k) (hpos k)) (mul_self_nonneg _)
    refine ⟨hpartly.column (Real.sqrt_pos.2 hpos') (Real.mul_self_sqrt hpos'.le), ?_⟩
    intro i hi
    show updateCol (of S) k _ i i = R i i
    rw [updateCol_apply, if_neg (by rintro rfl; omega)]
    exact hdiag i (by omega)

/-! ## An update -/

/-- The number of samples after an update, as the code divides by it. -/
noncomputable def samples (sh : ProposalShaper ℝ d) (i : ℕ) : ℝ := ((sh.count i + 1) % 2 ^ 32 : ℕ)

/-- No diagonal entry is below the guard when it is read. -/
def Guarded (sh : ProposalShaper ℝ d) (i : ℕ) : Prop :=
  ∀ k, eps ≤ sh.L i k k * √((sh.samples i - 1) / sh.samples i)

/-- **What an update makes of the factor.** -/
theorem factor_update {sh : ProposalShaper ℝ d} {i n : ℕ} (hlower : ∀ j k, j < k → sh.L i j k = 0)
    (hg : sh.Guarded i) (hcount : sh.count i = n) (hlt : n + 1 < 2 ^ 32) (v : Fin d → ℝ) :
    (∀ j k, j < k → (sh.update i v).L i j k = 0) ∧ (∀ k, 0 < (sh.update i v).L i k k) ∧
      ((n : ℝ) + 1) • (of ((sh.update i v).L i) * (of ((sh.update i v).L i))ᵀ) =
        (n : ℝ) • (of (sh.L i) * (of (sh.L i))ᵀ) + vecMulVec v v := by
  have hn : sh.samples i = n + 1 := by
    unfold samples
    rw [hcount, Nat.mod_eq_of_lt hlt]
    push_cast
    ring
  have hpos : (0 : ℝ) < n + 1 := by positivity
  set R : Fin d → Fin d → ℝ := fun j k => sh.L i j k * √((sh.samples i - 1) / sh.samples i) with hR
  set x : Fin d → ℝ := fun j => v j / √(sh.samples i) with hx
  have hL : (sh.update i v).L i = ((List.finRange d).foldl column (R, x)).1 := by
    have hone : (sh.samples i - 1.0) / sh.samples i = (sh.samples i - 1) / sh.samples i := by norm_num
    rw [hR, ← hone]
    exact Function.update_self i _ sh.L
  have hloop := foldl_column (R := R) x (fun j k hjk => by rw [hR]; simp [hlower j k hjk]) hg
  rw [← hL] at hloop
  refine ⟨hloop.lower, hloop.pos, ?_⟩
  -- the scaling of the factor and of the vector
  have hfactor : of R * (of R)ᵀ = ((n : ℝ) / (n + 1)) • (of (sh.L i) * (of (sh.L i))ᵀ) := by
    have hscaled : of R = √((n : ℝ) / (n + 1)) • of (sh.L i) := by
      ext j k
      rw [hR, hn, add_sub_cancel_right]
      exact mul_comm _ _
    rw [hscaled, transpose_smul, smul_mul_smul_comm, Real.mul_self_sqrt (by positivity)]
  have hvector : vecMulVec x x = ((1 : ℝ) / (n + 1)) • vecMulVec v v := by
    ext j k
    rw [Matrix.smul_apply, vecMulVec_apply, vecMulVec_apply, hx, hn, smul_eq_mul]
    dsimp only
    rw [div_mul_div_comm, Real.mul_self_sqrt hpos.le]
    ring
  rw [hloop.factor, hfactor, hvector, smul_add, smul_smul, smul_smul, mul_div_cancel₀ _ hpos.ne',
    mul_one_div_cancel hpos.ne', one_smul]

/-! ## Runs -/

variable {i : ℕ}

/-- An update of a chain with a step, as a step of a run. -/
noncomputable def step (sh : ProposalShaper ℝ d) (u : ℕ × (Fin d → ℝ)) :
    Option (ProposalShaper ℝ d) := some (sh.update u.1 u.2)

/-- The steps of a chain. -/
def stepsOf (i : ℕ) (us : List (ℕ × (Fin d → ℝ))) : List (Fin d → ℝ) :=
  (us.filter fun u => u.1 = i).map Prod.snd

/-- The sum of the products of the steps. -/
def scatter (steps : List (Fin d → ℝ)) : Matrix (Fin d) (Fin d) ℝ :=
  (steps.map fun s => vecMulVec s s).sum

variable {bounds : ProposalBounds ℝ d} {n₀ : ℕ} {us : List (ℕ × (Fin d → ℝ))} {sh : ProposalShaper ℝ d}

/-- What is kept of the chain `i`. -/
structure Kept (bounds : ProposalBounds ℝ d) (n₀ : ℕ) (us : List (ℕ × (Fin d → ℝ)))
    (sh : ProposalShaper ℝ d) (i : ℕ) :
    Prop where
  count : sh.count i = n₀ + (stepsOf i us).length
  lower : ∀ j k, j < k → sh.L i j k = 0
  pos : ∀ k, 0 < sh.L i k k
  covariance : ((n₀ : ℝ) + (stepsOf i us).length) • (of (sh.L i) * (of (sh.L i))ᵀ) =
    (n₀ : ℝ) • Matrix.diagonal (fun k => ((bounds.max k - bounds.min k) / 4) ^ 2) + scatter
    (stepsOf i us)

theorem stepsOf_append (i : ℕ) (us : List (ℕ × (Fin d → ℝ))) (u : ℕ × (Fin d → ℝ)) :
    stepsOf i (us ++ [u]) = stepsOf i us ++ if u.1 = i then [u.2] else [] := by
  unfold stepsOf
  rw [List.filter_append, List.map_append]
  by_cases hu : u.1 = i
  · simp [hu]
  · simp [hu]

theorem kept_init (hb : ∀ k, bounds.min k < bounds.max k) (i : ℕ) :
    Kept bounds n₀ [] (init bounds n₀) i := by
  have hL : of ((init bounds n₀).L i) = Matrix.diagonal fun k => (bounds.max k - bounds.min k) / 4 := by
    ext j k
    show ProposalShaper.diagonal (fun k => (bounds.max k - bounds.min k) / 4.0) j k = _
    rw [ProposalShaper.diagonal, Matrix.diagonal_apply]
    norm_num
  have hL' : ∀ j k, (init bounds n₀).L i j k =
      Matrix.diagonal (fun k => (bounds.max k - bounds.min k) / 4) j k :=
    fun j k => congrFun (congrFun hL j) k
  refine ⟨rfl, ?_, ?_, ?_⟩
  · intro j k hjk
    rw [hL', diagonal_apply_ne _ hjk.ne]
  · intro k
    rw [hL', diagonal_apply_eq]
    have := hb k
    linarith
  · rw [hL, diagonal_transpose, diagonal_mul_diagonal]
    simp [stepsOf, scatter, sq]

theorem Kept.update (hk : Kept bounds n₀ us sh i) (hg : sh.Guarded i) (v : Fin d → ℝ)
    (hlt : n₀ + (stepsOf i us).length + 1 < 2 ^ 32) :
      Kept bounds n₀ (us ++ [(i, v)]) (sh.update i v) i := by
  obtain ⟨hlower, hpos, hcov⟩ := factor_update hk.lower hg hk.count hlt v
  have hsteps : stepsOf i (us ++ [(i, v)]) = stepsOf i us ++ [v] := by rw [stepsOf_append, if_pos rfl]
  refine ⟨?_, hlower, hpos, ?_⟩
  · rw [hsteps, List.length_append]
    show Function.update sh.count i ((sh.count i + 1) % 2 ^ 32) i = _
    rw [Function.update_self, hk.count, Nat.mod_eq_of_lt hlt]
    rfl
  · have hlen : (n₀ : ℝ) + ((stepsOf i us ++ [v]).length : ℕ) =
        ((n₀ + (stepsOf i us).length : ℕ) : ℝ) + 1 := by
      rw [List.length_append]
      push_cast
      simp
      ring
    rw [hsteps, hlen, hcov]
    push_cast
    rw [hk.covariance, scatter, scatter, List.map_append, List.sum_append]
    simp [add_assoc]

/-- An update of another chain. -/
theorem Kept.other (hk : Kept bounds n₀ us sh i) {i' : ℕ} (hi : i' ≠ i) (v : Fin d → ℝ) :
    Kept bounds n₀ (us ++ [(i', v)]) (sh.update i' v) i := by
  have hL : (sh.update i' v).L i = sh.L i := Function.update_of_ne hi.symm _ _
  have hcount : (sh.update i' v).count i = sh.count i := Function.update_of_ne hi.symm _ _
  have hsteps : stepsOf i (us ++ [(i', v)]) = stepsOf i us := by
    rw [stepsOf_append, if_neg hi, List.append_nil]
  refine ⟨?_, ?_, ?_, ?_⟩
  · rw [hcount, hsteps, hk.count]
  · rw [hL]
    exact hk.lower
  · rw [hL]
    exact hk.pos
  · rw [hL, hsteps]
    exact hk.covariance

/-- **The factor is that of the weighted covariance** of the steps of its chain, from any
number of chains updated in any order, while no diagonal entry is below the guard. A chain
without steps is left alone. -/
theorem shape_covariance (hb : ∀ k, bounds.min k < bounds.max k) (hn₀ : 1 ≤ n₀)
    (h : Reach step (fun sh u => sh.Guarded u.1) (init bounds n₀) us sh) (i : ℕ) :
    (n₀ + (stepsOf i us).length < 2 ^ 32 →
      (∀ j k, j < k → sh.L i j k = 0) ∧ (∀ k, 0 < sh.L i k k) ∧
      of (sh.L i) * (of (sh.L i))ᵀ = ((n₀ : ℝ) + (stepsOf i us).length)⁻¹ •
        ((n₀ : ℝ) • Matrix.diagonal (fun k => ((bounds.max k - bounds.min k) / 4) ^ 2) +
          scatter (stepsOf i us))) ∧
    (stepsOf i us = [] → sh.L i = (init bounds n₀).L i ∧ sh.N i = (init bounds n₀).N i) := by
  have hrun := h.invariant
    (P := fun us sh => (n₀ + (stepsOf i us).length < 2 ^ 32 → Kept bounds n₀ us sh i) ∧
    (stepsOf i us = [] → sh.L i = (init bounds n₀).L i ∧ sh.N i = (init bounds n₀).N i))
    ⟨fun _ => kept_init hb i, fun _ => ⟨rfl, rfl⟩⟩ ?_
  · refine ⟨?_, hrun.2⟩
    intro hlt
    have hk := hrun.1 hlt
    refine ⟨hk.lower, hk.pos, ?_⟩
    have hpos : (n₀ : ℝ) + (stepsOf i us).length ≠ 0 := by positivity
    rw [← hk.covariance, smul_smul, inv_mul_cancel₀ hpos, one_smul]
  · rintro us sh ⟨i', v⟩ sh' - ⟨hkept, hsame⟩ hg hs
    injection hs with hs
    subst hs
    by_cases hi : i' = i
    · subst hi
      rw [stepsOf_append, if_pos rfl, List.length_append]
      refine ⟨?_, fun hnil => absurd hnil (List.append_ne_nil_of_right_ne_nil _ (List.cons_ne_nil _ _))⟩
      intro hlt
      rw [List.length_singleton] at hlt
      exact (hkept (by omega)).update hg v (by omega)
    · rw [stepsOf_append, if_neg hi, List.append_nil]
      refine ⟨fun hlt => (hkept hlt).other hi v, ?_⟩
      intro hnil
      have hL : (sh.update i' v).L i = sh.L i := Function.update_of_ne (Ne.symm hi) _ _
      have hN : (sh.update i' v).N i = sh.N i := Function.update_of_ne (Ne.symm hi) _ _
      rw [hL, hN]
      exact hsame hnil

/-- Two dimensions between 0 and 4. -/
def fourBounds : ProposalBounds ℝ 2 := ⟨fun _ => 0, fun _ => 4⟩

theorem guarded_fourBounds : (init fourBounds 1).Guarded 0 := by
  intro k
  have hL : (init fourBounds 1).L 0 k k = 1 := by
    show ProposalShaper.diagonal (fun k => (fourBounds.max k - fourBounds.min k) / 4.0) k k = 1
    rw [ProposalShaper.diagonal, if_pos rfl]
    norm_num [fourBounds]
  have hsamples : (init fourBounds 1).samples 0 = 2 := by
    show (((1 + 1) % 2 ^ 32 : ℕ) : ℝ) = 2
    norm_num
  rw [hL, hsamples, one_mul]
  refine Real.le_sqrt_of_sq_le ?_
  unfold eps
  norm_num

theorem shape_covariance_fourBounds :
    ∃ sh, Reach step (fun sh u => sh.Guarded u.1) (init fourBounds 1) [(0, ![1, 2])] sh ∧
    of (sh.L 0) * (of (sh.L 0))ᵀ =
      ((1 : ℕ) + (1 : ℕ) : ℝ)⁻¹ • (((1 : ℕ) : ℝ) • Matrix.diagonal (fun _ => ((4 - 0) / 4) ^ 2) +
        scatter [![1, 2]]) := by
  have h : Reach step (fun sh u => sh.Guarded u.1) (init fourBounds 1) [(0, ![1, 2])] _ :=
    .next .start guarded_fourBounds rfl
  exact ⟨_, h, ((shape_covariance (fun _ => by norm_num [fourBounds]) le_rfl h 0).1 (by decide)).2.2⟩

end ProposalShaper

end Stateline
