import Stateline.Infer.Adaptive
import Stateline.Lib.LeastSquares

/-!
# The regression of the adapters

A `RegressionAdapter` in exact arithmetic. The chains of one tier, of all stacks, report to
the same model: its running means are those of the reports of that tier, together with
those of the constructor, which count as ten (`Fitted`).

* `Fitted.update`: what one report does. `fitted_run`: a run.
* `regression_exact`: **the model is the least squares problem of its history**, and is always solvable.
-/

namespace Stateline.RegressionAdapter

open Lib LeastSquares Matrix

/-- A call that reports to the adapter. -/
inductive Call
  | update (chainID : ℕ) (logval sideData : ℝ) (acc : Bool)
  | betaUpdate (chainID : ℕ) (bl bh : ℝ) (acc : Bool)

/-- The adapter after a call. -/
noncomputable def call (a : RegressionAdapter ℝ) : Call → RegressionAdapter ℝ
  | .update chainID logval sideData acc => a.update chainID logval sideData acc
  | .betaUpdate chainID bl bh acc => a.betaUpdate chainID bl bh acc

/-- A data point and whether it was accepted. -/
structure Observation where
  x : Fin 3 → ℝ
  y : ℝ

/-- The clamped data point of a report. -/
noncomputable def observation (minCap maxCap logval sideData : ℝ) (acc : Bool) : Observation :=
  ⟨![-min (max logval minCap) maxCap, sideData, 1], if acc then 1 else 0⟩

namespace Call

def chainID : Call → ℕ
  | .update chainID _ _ _ => chainID
  | .betaUpdate chainID _ _ _ => chainID

noncomputable def observation (minCap maxCap : ℝ) : Call → Observation
  | .update _ logval sideData acc => RegressionAdapter.observation minCap maxCap logval sideData acc
  | .betaUpdate _ bl bh acc =>
    RegressionAdapter.observation minCap maxCap (Real.log bl - Real.log bh) (Real.log bl) acc

end Call

/-- What the chains of the tier `t` reported. -/
noncomputable def observations (nTemps : ℕ) (minCap maxCap : ℝ) (t : ℕ) (calls : List Call) :
    List Observation :=
  (calls.filter (·.chainID % nTemps = t)).map (·.observation minCap maxCap)

/-! ## Running means -/

variable {a₀ a : RegressionAdapter ℝ} {t : ℕ} {obs : List Observation}

/-- **The means of the tier `t`** are those of the start, ten times, and of the observations. -/
structure Fitted (a₀ a : RegressionAdapter ℝ) (t : ℕ) (obs : List Observation) : Prop where
  nTemps : a.nTemps = a₀.nTemps
  minCap : a.minCap = a₀.minCap
  maxCap : a.maxCap = a₀.maxCap
  count : a.count t = 10 + obs.length
  muXX : ∀ i j, a.muXX t i j * (10 + obs.length) =
    10 * a₀.muXX t i j + (obs.map fun o => o.x i * o.x j).sum
  muXY : ∀ i, a.muXY t i * (10 + obs.length) = 10 * a₀.muXY t i + (obs.map fun o => o.x i * o.y).sum
  weight : a.weight t = if obs = [] then a₀.weight t else Double.solve (a.muXX t) (a.muXY t)

theorem fitted_init (nStacks nTemps : ℕ) (optimalRate minCap maxCap : ℝ) (t : ℕ) :
    Fitted (init nStacks nTemps optimalRate minCap maxCap)
      (init nStacks nTemps optimalRate minCap maxCap) t [] := by
  refine ⟨rfl, rfl, rfl, ?_, fun i j => ?_, fun i => ?_, ?_⟩
  · show (10.0 : ℝ) = 10 + (([] : List Observation).length : ℝ)
    norm_num
  · simp only [List.length_nil, Nat.cast_zero, add_zero, List.map_nil, List.sum_nil, mul_comm]
  · simp only [List.length_nil, Nat.cast_zero, add_zero, List.map_nil, List.sum_nil, mul_comm]
  · rw [if_pos rfl]

/-- A report to another tier. -/
theorem Fitted.other (h : Fitted a₀ a t obs) {chainID : ℕ} (ht : chainID % a₀.nTemps ≠ t)
    (logval sideData : ℝ) (acc : Bool) :
    Fitted a₀ (a.update chainID logval sideData acc) t obs := by
  have hne : t ≠ chainID % a.nTemps := by
    rw [h.nTemps]
    exact ht.symm
  refine ⟨h.nTemps, h.minCap, h.maxCap, ?_, ?_, ?_, ?_⟩
  · simpa only [RegressionAdapter.update, Function.update_of_ne hne] using h.count
  · simpa only [RegressionAdapter.update, Function.update_of_ne hne] using h.muXX
  · simpa only [RegressionAdapter.update, Function.update_of_ne hne] using h.muXY
  · simpa only [RegressionAdapter.update, Function.update_of_ne hne] using h.weight

/-- **A report to the tier.** -/
theorem Fitted.update (h : Fitted a₀ a t obs) {chainID : ℕ} (ht : chainID % a₀.nTemps = t)
    (logval sideData : ℝ) (acc : Bool) :
    Fitted a₀ (a.update chainID logval sideData acc) t
      (obs ++ [observation a₀.minCap a₀.maxCap logval sideData acc]) := by
  have htier : chainID % a.nTemps = t := by rw [h.nTemps, ht]
  have hpos : (10 : ℝ) + obs.length + 1 ≠ 0 := by positivity
  have hlen : (10 : ℝ) + (obs ++ [observation a₀.minCap a₀.maxCap logval sideData acc]).length =
      10 + obs.length + 1 := by
    rw [List.length_append, List.length_singleton, Nat.cast_add, Nat.cast_one, add_assoc]
  refine ⟨h.nTemps, h.minCap, h.maxCap, ?_, ?_, ?_, ?_⟩
  · rw [hlen]
    simp only [RegressionAdapter.update, htier, Function.update_self, h.count, Double.one_eq]
  · intro i j
    rw [hlen, List.map_append, List.sum_append, ← add_assoc, ← h.muXX]
    simp only [RegressionAdapter.update, htier, Function.update_self, h.count, Double.one_eq,
      Double.max_eq, Double.min_eq, h.minCap, h.maxCap]
    rw [running_mean hpos, List.map_singleton, List.sum_singleton]
    rfl
  · intro i
    rw [hlen, List.map_append, List.sum_append, ← add_assoc, ← h.muXY]
    simp only [RegressionAdapter.update, htier, Function.update_self, h.count, Double.one_eq,
      Double.zero_eq, Double.max_eq, Double.min_eq, h.minCap, h.maxCap]
    rw [running_mean hpos, List.map_singleton, List.sum_singleton]
    rfl
  · rw [if_neg (by simp)]
    simp only [RegressionAdapter.update, htier, Function.update_self]

theorem Fitted.call (h : Fitted a₀ a t obs) (c : Call) : Fitted a₀ (a.call c) t
    (obs ++ observations a₀.nTemps a₀.minCap a₀.maxCap t [c]) := by
  unfold observations
  by_cases ht : c.chainID % a₀.nTemps = t
  · rw [List.filter_singleton, decide_eq_true ht, cond_true, List.map_singleton]
    cases c with
    | update chainID logval sideData acc => exact h.update ht logval sideData acc
    | betaUpdate chainID bl bh acc => exact h.update ht (Real.log bl - Real.log bh) (Real.log bl) acc
  · rw [List.filter_singleton, decide_eq_false ht, cond_false, List.map_nil, List.append_nil]
    cases c with
    | update chainID logval sideData acc => exact h.other ht logval sideData acc
    | betaUpdate chainID bl bh acc => exact h.other ht (Real.log bl - Real.log bh) (Real.log bl) acc

/-- **After any run**, the means are those of the observations of the tier. -/
theorem Fitted.run (h : Fitted a₀ a t obs) (calls : List Call) :
    Fitted a₀ (calls.foldl RegressionAdapter.call a) t
    (obs ++ observations a₀.nTemps a₀.minCap a₀.maxCap t calls) := by
  induction calls generalizing a obs with
  | nil => simpa [observations] using h
  | cons c calls ih =>
    have hsplit : observations a₀.nTemps a₀.minCap a₀.maxCap t (c :: calls) =
        observations a₀.nTemps a₀.minCap a₀.maxCap t [c] ++
          observations a₀.nTemps a₀.minCap a₀.maxCap t calls := by
      unfold observations
      rw [← List.map_append, ← List.filter_append, List.singleton_append]
    rw [hsplit, ← List.append_assoc]
    exact ih (h.call c)

/-! ## The normal equations -/

/-- The start of the second moments is positive definite. -/
theorem init_posDef (nStacks nTemps : ℕ) (optimalRate : ℝ) {minCap maxCap : ℝ}
    (hcap : minCap < maxCap) (t : ℕ) :
    (of ((init nStacks nTemps optimalRate minCap maxCap).muXX t)).PosDef := by
  have hmat : of ((init nStacks nTemps optimalRate minCap maxCap).muXX t) =
      !![(minCap * minCap + maxCap * maxCap) / 2, 0, (minCap + maxCap) / 2; 0, 10,
        0; (minCap + maxCap) / 2, 0, 1] := by
    ext i j
    fin_cases i <;> fin_cases j <;> norm_num [init, tempVariance] <;> ring
  have hsquares :
      ∀ v : Fin 3 → ℝ, v ⬝ᵥ (of ((init nStacks nTemps optimalRate minCap maxCap).muXX t) *ᵥ v) =
      (minCap * v 0 + v 2) ^ 2 / 2 + (maxCap * v 0 + v 2) ^ 2 / 2 + 10 * v 1 ^ 2 := by
    intro v
    rw [hmat]
    simp [dotProduct, mulVec, Fin.sum_univ_three]
    ring
  refine .of_dotProduct_mulVec_pos ?_ fun v hv => ?_
  · rw [hmat]
    ext i j
    fin_cases i <;> fin_cases j <;> rfl
  · rw [star_trivial, hsquares]
    by_contra hle
    have hrej := sq_nonneg (minCap * v 0 + v 2)
    have hacc := sq_nonneg (maxCap * v 0 + v 2)
    have hside := sq_nonneg (v 1)
    have h1 : v 1 = 0 := (pow_eq_zero_iff two_ne_zero).1 (by linarith)
    have hmin : minCap * v 0 + v 2 = 0 := (pow_eq_zero_iff two_ne_zero).1 (by linarith)
    have hmax : maxCap * v 0 + v 2 = 0 := (pow_eq_zero_iff two_ne_zero).1 (by linarith)
    have h0 : v 0 = 0 :=
      (mul_eq_zero.1 (show (maxCap - minCap) * v 0 = 0 by linarith)).resolve_left (sub_pos.2 hcap).ne'
    have h2 : v 2 = 0 := by simpa [h0] using hmin
    refine hv (funext fun i => ?_)
    fin_cases i
    · exact h0
    · exact h1
    · exact h2

/-- **The second moments stay positive definite.** -/
theorem Fitted.posDef (h : Fitted a₀ a t obs) (h₀ : (of (a₀.muXX t)).PosDef) :
    (of (a.muXX t)).PosDef := by
  have hpos : (0 : ℝ) < 10 + obs.length := by positivity
  have hmoments :
      of (a.muXX t) = (10 + obs.length : ℝ)⁻¹ • moments 10 (of (a₀.muXX t)) (obs.map (·.x)) := by
    ext i j
    rw [Matrix.smul_apply, smul_eq_mul, inv_mul_eq_div, eq_div_iff hpos.ne']
    simp only [moments, of_apply, List.map_map, h.muXX]
    rfl
  rw [hmoments]
  exact (moments_posDef h₀ (by norm_num) _).smul (inv_pos.2 hpos)

/-- **The weights are the solution.** -/
theorem Fitted.weight_iff (h : Fitted a₀ a t obs) (h₀ : (of (a₀.muXX t)).PosDef) (hobs : obs ≠ [])
    (w : Fin 3 → ℝ) :
    of (a.muXX t) *ᵥ w = a.muXY t ↔ w = a.weight t := by
  rw [solution_iff (h.posDef h₀), h.weight, if_neg hobs]
  rfl

/-- The order of the observations does not matter. -/
theorem Fitted.perm {a' : RegressionAdapter ℝ} {obs' : List Observation} (h : Fitted a₀ a t obs)
    (h' : Fitted a₀ a' t obs') (hperm : obs'.Perm obs) : a'.weight t = a.weight t := by
  have hpos : (10 : ℝ) + obs.length ≠ 0 := by positivity
  have hXX : a'.muXX t = a.muXX t := by
    funext i j
    refine mul_right_cancel₀ hpos ?_
    rw [h.muXX, ← hperm.length_eq, h'.muXX, (hperm.map _).sum_eq]
  have hXY : a'.muXY t = a.muXY t := by
    funext i
    refine mul_right_cancel₀ hpos ?_
    rw [h.muXY, ← hperm.length_eq, h'.muXY, (hperm.map _).sum_eq]
  have hnil : obs' = [] ↔ obs = [] := by
    rw [← List.length_eq_zero_iff, hperm.length_eq, List.length_eq_zero_iff]
  rw [h.weight, h'.weight, hXX, hXY]
  simp only [hnil]

/-- **The model of a tier is the least squares problem of its history**, and is always solvable. -/
theorem regression_exact (nStacks nTemps : ℕ) (optimalRate : ℝ) {minCap maxCap : ℝ}
    (hcap : minCap < maxCap) (calls : List Call) (t : ℕ) :
    let a₀ := init nStacks nTemps optimalRate minCap maxCap
    let a := calls.foldl RegressionAdapter.call a₀
    let obs := observations nTemps minCap maxCap t calls
    a.count t = 10 + obs.length ∧
      (∀ i j, a.muXX t i j =
        (10 * a₀.muXX t i j + (obs.map fun o => o.x i * o.x j).sum) / (10 + obs.length)) ∧
      (∀ i, a.muXY t i = (10 * a₀.muXY t i + (obs.map fun o => o.x i * o.y).sum) / (10 + obs.length)) ∧
      (of (a.muXX t)).IsSymm ∧ (of (a.muXX t)).PosDef ∧
      (obs ≠ [] → ∀ w, of (a.muXX t) *ᵥ w = a.muXY t ↔ w = a.weight t) ∧
      ∀ calls', (observations nTemps minCap maxCap t calls').Perm obs →
        (calls'.foldl RegressionAdapter.call a₀).weight t = a.weight t := by
  intro a₀ a obs
  have hpos : (10 : ℝ) + obs.length ≠ 0 := by positivity
  have hfit := (fitted_init nStacks nTemps optimalRate minCap maxCap t).run
  have hrun : Fitted a₀ a t obs := hfit calls
  have h₀ : (of (a₀.muXX t)).PosDef := init_posDef nStacks nTemps optimalRate hcap t
  refine ⟨hrun.count, fun i j => ?_, fun i => ?_, ?_, hrun.posDef h₀,
    fun hobs => hrun.weight_iff h₀ hobs, ?_⟩
  · rw [eq_div_iff hpos, hrun.muXX]
  · rw [eq_div_iff hpos, hrun.muXY]
  · exact (conjTranspose_eq_transpose_of_trivial _).symm.trans (hrun.posDef h₀).isHermitian
  · intro calls' hperm
    exact hrun.perm (hfit calls') hperm

/-- Two stacks that report to the coldest tier, in either order. -/
theorem regression_exact_twoStacks :
    ([.update 0 (1 / 2) 0 true, .update 2 (1 / 4) 0 false].foldl RegressionAdapter.call
      (init 2 2 (1 / 2) 0 1)).weight 0 =
      ([.update 2 (1 / 4) 0 false, .update 0 (1 / 2) 0 true].foldl RegressionAdapter.call
        (init 2 2 (1 / 2) 0 1)).weight 0 :=
  (regression_exact 2 2 (1 / 2) one_pos
    [.update 2 (1 / 4) 0 false, .update 0 (1 / 2) 0 true] 0).2.2.2.2.2.2 _
    (((List.Perm.swap _ _ _).filter _).map _)

end Stateline.RegressionAdapter
