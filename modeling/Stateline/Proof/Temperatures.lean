import Stateline.Proof.Isolated
import Stateline.Spec.Ladder

/-!
# The temperature ladder

`computeBetaStack` predicts a whole ladder at the end of a cascade, but the chains
take its rungs one at a time during the next one. A rung of the new ladder may so
come to stand between two rungs of the old one that it does not fit (`Fits`). Here
arithmetic is exact, and what the regression has learnt is anything before each
step (`refit`), so that its predictions are any values within the clamp.

* `ladder_ordered_iff`: **the temperatures of every stack are ordered after a step
  if and only if the rung that it sets fits between its neighbours.**
* `ladder_broken`: a run in which one does not fit.
-/

namespace Stateline

open Lib

variable {P V : Type}

/-- What a regression has learnt. -/
structure Regression (F : Type) where
  muXY : ℕ → Fin 3 → F
  muXX : ℕ → Fin 3 → Fin 3 → F
  weight : ℕ → Fin 3 → F
  count : ℕ → F

namespace RegressionAdapter

def refit {F : Type} (a : RegressionAdapter F) (g : Regression F) : RegressionAdapter F :=
  { a with muXY := g.muXY, muXX := g.muXX, weight := g.weight, count := g.count }

def regression {F : Type} (a : RegressionAdapter F) : Regression F :=
  ⟨a.muXY, a.muXX, a.weight, a.count⟩

variable {a : RegressionAdapter ℝ}

/-- The gradient that is divided by. -/
theorem gradient_pos (w : ℝ) : 0 < (1e-3 : ℝ) ⊔ w := lt_sup_of_lt_left (by norm_num)

theorem minCap_le_predict (n : ℕ) (x : ℝ) : a.minCap ≤ a.predict n x := by
  unfold predict
  simp only [Double.max_eq]
  rw [le_div_iff₀ (gradient_pos _), mul_comm]
  exact le_sup_right

theorem predict_le_maxCap (h : a.minCap ≤ a.maxCap) (n : ℕ) (x : ℝ) : a.predict n x ≤ a.maxCap := by
  unfold predict
  simp only [Double.max_eq, Double.min_eq]
  rw [div_le_iff₀ (gradient_pos _), mul_comm a.maxCap]
  exact sup_le inf_le_right (mul_le_mul_of_nonneg_left h (gradient_pos _).le)

/-- Temperatures increase, as the log ratios are not negative. -/
theorem predict_nonneg (hmin : a.minCap = 0) (n : ℕ) (x : ℝ) : 0 ≤ a.predict n x :=
  hmin ▸ a.minCap_le_predict n x

/-- A prediction within the clamp. -/
theorem predict_eq {n : ℕ} {x : ℝ} {W : Fin 3 → ℝ} (hW : a.weight (n % a.nTemps) = W)
    (hmin : a.minCap = 0) (h0 : 1e-3 < W 0) (hlo : 0 ≤ W 1 * x + W 2 - a.optimalRate)
    (hhi : W 1 * x + W 2 - a.optimalRate ≤ W 0 * a.maxCap) :
    a.predict n x = (W 1 * x + W 2 - a.optimalRate) / W 0 := by
  have hneg : -(a.optimalRate - W 1 * x - W 2) = W 1 * x + W 2 - a.optimalRate := by ring
  have hdenom : Double.max (1e-3 : ℝ) (W 0) = W 0 := if_pos (decide_eq_true h0)
  have hnumer : Double.min (W 1 * x + W 2 - a.optimalRate) (W 0 * a.maxCap) =
      W 1 * x + W 2 - a.optimalRate :=
    if_neg (Bool.not_eq_true _ ▸ decide_eq_false (not_lt.2 hhi))
  have hclamp : Double.max (W 1 * x + W 2 - a.optimalRate) (W 0 * 0) = W 1 * x + W 2 - a.optimalRate :=
    if_neg (Bool.not_eq_true _ ▸ decide_eq_false (not_lt.2 (by rw [mul_zero]; exact hlo)))
  unfold predict
  dsimp only
  rw [hW, hdenom, hneg, hnumer, hmin, hclamp]

theorem logBetas_succ_le (hmin : a.minCap = 0) (n : ℕ) : a.logBetas (n + 1) ≤ a.logBetas n :=
  sub_le_self _ (predict_nonneg hmin n _)

/-- The predicted temperatures are a ladder. -/
theorem ladder_ladder (hmin : a.minCap = 0) {T S : ℕ} (hT : 0 < T)
    (hone : ∀ k < S, a.values (k * T) = 1) :
    Ladder T S (a.ladder T (S * T)).values := by
  have hrung : ∀ k < S, ∀ j < T, (a.ladder T (S * T)).values (k * T + j) = Real.exp (a.logBetas j) := by
    intro k hk j hj
    have hlt : k * T < S * T := Nat.mul_lt_mul_of_pos_right hk hT
    simp only [ladder, Cascade.level_mod k hj, Cascade.level_div k hj, hlt, and_true]
    split
    · rfl
    · rename_i h0
      rw [not_not] at h0
      subst h0
      rw [Nat.add_zero, hone k hk, logBetas]
      norm_num
  refine ⟨?_, ?_, ?_⟩
  · intro k hk
    calc (a.ladder T (S * T)).values (k * T) = Real.exp (a.logBetas 0) := hrung k hk 0 hT
      _ = 1 := by
        rw [logBetas]
        norm_num
  · intro k hk j hj
    rw [hrung k hk _ hj, hrung k hk j (by omega)]
    exact Real.exp_le_exp.2 (logBetas_succ_le hmin j)
  · intro k hk j hj
    rw [hrung k hk j hj]
    exact Real.exp_pos _

end RegressionAdapter

namespace Sampler

section Any

variable {F : Type} [Double F]

/-- The regression of the temperatures learns something else. -/
def refit (s : Sampler P V F) (g : Regression F) : Sampler P V F :=
  { s with betaAdapter := s.betaAdapter.refit g }

/-- A step with what the regression has learnt by then. -/
def nextFit [Sub V] [Proposal P V F] (s : Sampler P V F) (p : Regression F × Input F) :
    Option (Sampler P V F) :=
  (s.refit p.1).next p.2

/-- The log ratio that is predicted for the coldest pair of a stack after its swap. -/
def predicted (s : Sampler P V F) (id : ℕ) (accepted : Bool) : F :=
  (s.betaAdapter.betaUpdate id (s.chains.beta id) (s.chains.beta (id + 1)) accepted).predict 0 0.0

/-- The outcome of the swap of a locked chain with the chain above. -/
def swapped (s : Sampler P V F) (id : ℕ) (i : Input F) (last high : State V F) : Bool :=
  acceptSwap high (s.judged id i last) (s.chains.beta (id + 1)) (s.chains.beta id) i.swapRand

theorem refit_inv {s : Sampler P V F} {T S : ℕ} {tuned : Prop} (h : Inv tuned T S s)
    (g : Regression F) :
    Inv tuned T S (s.refit g) :=
  ⟨⟨h.good.congr s.chains.beta _ s.locked s.numOutstandingJobs s.haveFlushed, h.ntemps, h.total,
    h.interval, h.jobs⟩,
    h.cascade⟩

/-- The value that the chain above takes. -/
theorem rungs_values {s : Sampler P V F} {id : ℕ} (hT : 1 < s.betaAdapter.nTemps) (accepted : Bool) :
    (s.rungs id accepted).values (id + 1) =
      if id % s.chains.ntemps = 0 then Double.exp (0.0 - s.predicted id accepted)
      else s.betaAdapter.values (id + 1) := by
  rw [rungs]
  split
  · rw [RegressionAdapter.computeBetaStack_eq]
    have hin : id < id + 1 ∧ id + 1 < id +
        (s.betaAdapter.betaUpdate id (s.chains.beta id) (s.chains.beta (id + 1))
        accepted).nTemps := by
      rw [RegressionAdapter.betaUpdate_nTemps]
      omega
    simp only [hin, and_self, if_true, Nat.add_sub_cancel_left]
    rfl
  · rfl

end Any

/-- The new temperature of the chain above `id` is between those of its neighbours: what the adapter has
stored for it or, above the coldest chain, what is predicted after the swap. -/
def RungFits (s : Sampler P V ℝ) (id : ℕ) (accepted : Bool) : Prop :=
  if id % s.chains.ntemps = 0 then 2 < s.chains.ntemps →
    s.chains.beta (id + 2) ≤ Real.exp (-s.predicted id accepted)
  else
    s.betaAdapter.values (id + 1) ≤ s.chains.beta id ∧
      ((id + 2) % s.chains.ntemps ≠ 0 → s.chains.beta (id + 2) ≤ s.betaAdapter.values (id + 1))

/-- **The rung fits** that a step sets, which is the case unless it answers a locked chain. -/
def Fits (s : Sampler P V ℝ) (i : Input ℝ) : Prop :=
  ∀ q last high, s.requester[i.index]? = some q → s.locked q.id = true →
    s.chains.lastState q.id = .ok last →
    s.chains.lastState (q.id + 1) = .ok high → s.RungFits q.id (s.swapped q.id i last high)

/-- What the ladder rests on between steps. -/
structure Tempered (T S : ℕ) (s : Sampler P V ℝ) : Prop where
  nTemps : s.betaAdapter.nTemps = T
  minCap : s.betaAdapter.minCap = 0
  values : ∀ j, 0 < s.betaAdapter.values j
  ladder : Ladder T S s.chains.beta

variable {s s' : Sampler P V ℝ} {i : Input ℝ} {r : Report V ℝ} {T S : ℕ} {tuned : Prop}

theorem Tempered.predicted_nonneg (ht : Tempered T S s) (id : ℕ) (accepted : Bool) :
    0 ≤ s.predicted id accepted :=
  RegressionAdapter.predict_nonneg
    (show (s.betaAdapter.betaUpdate id (s.chains.beta id)
      (s.chains.beta (id + 1)) accepted).minCap = 0 from ht.minCap) 0 _

/-- A step keeps the clamp of the adapter, and its values positive. -/
theorem Effect.adapter (h : Effect s i s' r) (ht : Tempered T S s) :
    s'.betaAdapter.minCap = 0 ∧ ∀ j, 0 < s'.betaAdapter.values j := by
  by_cases hmove : r.move = .swap
  · obtain ⟨last, high, -, -, hrungs⟩ := h.outcome hmove
    rw [hrungs, rungs]
    split
    · rw [RegressionAdapter.computeBetaStack_eq]
      refine ⟨ht.minCap, ?_⟩
      intro j
      dsimp only
      split
      · exact Real.exp_pos _
      · exact ht.values j
    · exact ⟨ht.minCap, ht.values⟩
  · rw [h.beta hmove]
    exact ⟨ht.minCap, ht.values⟩

theorem fits_iff {q : SampleRequest V} {last high : State V ℝ} (hq : s.requester[i.index]? = some q)
    (hl : s.locked q.id = true) (hlast : s.chains.lastState q.id = .ok last)
    (hhigh : s.chains.lastState (q.id + 1) = .ok high) :
      Fits s i ↔ s.RungFits q.id (s.swapped q.id i last high) := by
  constructor
  · intro h
    exact h q last high hq hl hlast hhigh
  · intro h q' last' high' hq' _ hlast' hhigh'
    rw [hq] at hq'
    cases hq'
    rw [hlast] at hlast'
    cases hlast'
    rw [hhigh] at hhigh'
    cases hhigh'
    exact h

/-- What the chain above takes is between its neighbours. -/
theorem rungFits_iff {id : ℕ} {accepted : Bool} (hT : s.chains.ntemps = T) (ht : Tempered T S s)
    (hid : id < T * S) (hup : id % T + 1 < T) :
    s.RungFits id accepted ↔
      (s.rungs id accepted).values (id + 1) ≤ s.chains.beta (id / T * T + id % T) ∧
        (id % T + 2 < T → s.chains.beta (id / T * T + (id % T + 2)) ≤
          (s.rungs id accepted).values (id + 1)) := by
  have hself : id / T * T + id % T = id := Nat.div_add_mod' id T
  have htwo : id / T * T + (id % T + 2) = id + 2 := by omega
  rw [rungs_values (by rw [ht.nTemps]; omega), RungFits, hT, hself, htwo]
  by_cases hcold : id % T = 0
  · rw [if_pos hcold, if_pos hcold, hcold, Nat.zero_add]
    -- above the coldest chain the upper bound holds as it is 1
    have hone : s.chains.beta id = 1 := by
      rw [hcold, Nat.add_zero] at hself
      rw [← hself]
      exact ht.ladder.coldest _ (Nat.div_lt_of_lt_mul hid)
    have hneg : (0.0 : ℝ) - s.predicted id accepted = -s.predicted id accepted := by norm_num
    have hle : Real.exp (-s.predicted id accepted) ≤ 1 :=
      Real.exp_le_one_iff.2 (neg_nonpos.2 (ht.predicted_nonneg ..))
    rw [hneg, hone]
    exact (and_iff_right hle).symm
  · rw [if_neg hcold, if_neg hcold]
    -- there is a chain two above unless the one above is the hottest
    have hhot : (id + 2) % T ≠ 0 ↔ id % T + 2 < T := by
      rcases Nat.lt_or_ge (id % T + 2) T with hlt | hge
      · rw [← htwo, Cascade.level_mod _ hlt]
        omega
      · have hlast : id / T * T + (id % T + 2) = (id / T + 1) * T := by
          rw [Nat.add_mul, Nat.one_mul]
          omega
        rw [← htwo, hlast, Nat.mul_mod_left]
        omega
    rw [hhot]

/-- **A step keeps the ladder** if and only if the rung that it sets fits. -/
theorem Effect.ladder_iff (h : Effect s i s' r) (hinv : Inv tuned T S s) (ht : Tempered T S s) :
    Ladder T S s'.chains.beta ↔ Fits s i := by
  obtain ⟨q, hq, hqid⟩ := h.request
  by_cases hmove : r.move = .swap
  · obtain ⟨last, high, hlast, hhigh, hrungs⟩ := h.outcome hmove
    -- the one rung that changes is above a locked chain
    obtain ⟨hup, hmod, -⟩ := h.above hinv.cascade hmove
    have hl : s.locked r.id = true := h.swaps.1 hmove
    have hT : 0 < T := Nat.pos_of_mul_pos_right (Nat.zero_lt_of_lt hup)
    have hj : r.id % T + 1 < T := hmod ▸ Nat.mod_lt _ hT
    have hsplit : r.id = r.id / T * T + r.id % T := (Nat.div_add_mod' r.id T).symm
    rw [← hqid] at hlast hhigh hl hrungs
    have hpos : 0 < s'.betaAdapter.values (r.id + 1) := (h.adapter ht).2 _
    have hone : r.id + 1 = r.id / T * T + (r.id % T + 1) := by omega
    rw [fits_iff hq hl hlast hhigh,
      rungFits_iff hinv.ntemps ht (by rw [hqid]; omega) (by rw [hqid]; exact hj), swapped,
      ← hrungs, hqid, h.betas, if_pos hmove]
    rw [hone] at hpos ⊢
    exact ht.ladder.update_iff (Nat.div_lt_of_lt_mul (by omega)) hj hpos
  -- without a swap no temperature changes, and there is nothing to fit
  · rw [h.betas, if_neg hmove]
    refine iff_of_true ht.ladder ?_
    intro q' last high hq' hl
    rw [hq] at hq'
    cases hq'
    rw [hqid] at hl
    exact (hmove (h.swaps.2 hl)).elim

theorem Effect.tempered (h : Effect s i s' r) (hinv : Inv tuned T S s) (ht : Tempered T S s)
    (hf : Fits s i) :
    Tempered T S s' :=
  ⟨(h.betaAdapter hinv.ntemps ht.nTemps).1, (h.adapter ht).1, (h.adapter ht).2,
    (h.ladder_iff hinv ht).2 hf⟩

/-- A swap is with a chain that is at least as hot. -/
theorem Tempered.hotter (ht : Tempered T S s) (hinv : Inv tuned T S s) {id : ℕ} (hid : id < T * S)
    (hl : s.locked id = true) :
    s.chains.beta (id + 1) ≤ s.chains.beta id ∧
      0 ≤ Real.log (s.chains.beta id) - Real.log (s.chains.beta (id + 1)) := by
  have hT : 0 < T := Nat.pos_of_mul_pos_right (Nat.zero_lt_of_lt hid)
  obtain ⟨-, -, hmod, -⟩ := Cascade.above_locked hinv.cascade.hottest hid hl
  have hj : id % T + 1 < T := hmod ▸ Nat.mod_lt _ hT
  have hk : id / T < S := Nat.div_lt_of_lt_mul hid
  have hle := ht.ladder.step _ hk _ hj
  have hpos := ht.ladder.pos _ hk _ hj
  have hself : id / T * T + id % T = id := Nat.div_add_mod' id T
  have hone : id / T * T + (id % T + 1) = id + 1 := by omega
  rw [hone] at hle hpos
  rw [hself] at hle
  exact ⟨hle, sub_nonneg.2 (Real.log_le_log hpos hle)⟩

theorem Tempered.refit (ht : Tempered T S s) (g : Regression ℝ) : Tempered T S (s.refit g) :=
  ⟨ht.nTemps, ht.minCap, ht.values, ht.ladder⟩

/-- A step, whatever the regression has learnt before it. -/
theorem nextFit_effect [Sub V] [Proposal P V ℝ] {p : Regression ℝ × Input ℝ} (hinv : Inv tuned T S s)
    (h : s.nextFit p = some s') : Inv tuned T S s' ∧ ∃ r, Effect (s.refit p.1) p.2 s' r := by
  have hinv₁ := refit_inv hinv p.1
  refine ⟨next_inv hinv₁ h, ?_⟩
  rw [nextFit, next_eq] at h
  cases hreport : (s.refit p.1).report p.2 with
  | error e =>
    rw [hreport] at h
    cases h
  | ok q =>
    rw [hreport] at h
    cases h
    exact ⟨q.2, report_effect hinv₁.interval hreport⟩

/-- The runs of the sampler are among these. -/
theorem run_refit [Sub V] [Proposal P V ℝ] {s₀ : Sampler P V ℝ} {is : List (Input ℝ)}
    (hrun : Reach next (fun s i => s.Fits i) s₀ is s) :
    ∃ ps, Reach nextFit (fun s p => (s.refit p.1).Fits p.2) s₀ ps s := by
  induction hrun with
  | start => exact ⟨[], .start⟩
  | @next is s s' i _ hok hs ih =>
    obtain ⟨ps, hps⟩ := ih
    exact ⟨ps ++ [(s.betaAdapter.regression, i)], .next hps hok hs⟩

end Sampler

section ThreeTemps

namespace RegressionAdapter

variable {a : RegressionAdapter ℝ}

/-- An adapter for three chains that learnt nothing yet of the coldest pair. -/
structure Fresh (a : RegressionAdapter ℝ) : Prop where
  nTemps : a.nTemps = 3
  minCap : a.minCap = 0
  maxCap : a.maxCap = 4
  optimalRate : a.optimalRate = 1 / 20
  muXX : a.muXX 0 = ![![8, 0, 2], ![0, 10, 0], ![2, 0, 1]]
  muXY : a.muXY 0 = ![2, 0, 1 / 2]
  count : a.count 0 = 10

/-- What it predicts for that pair after its first swap. -/
theorem Fresh.predict (ha : Fresh a) {bl bh : ℝ} (hl : Real.log bl = 0) (hh : Real.log bh = -(9 / 40)) :
    (a.betaUpdate 0 bl bh true).predict 0 0.0 = 647778125 / 988750000 := by
  have hlog : Double.log bl - Double.log bh = 9 / 40 := by
    show Real.log bl - Real.log bh = 9 / 40
    rw [hl, hh]
    norm_num
  have hside : Double.log bl = (0 : ℝ) := hl
  have hclamp : Double.min (Double.max (9 / 40 : ℝ) a.minCap) a.maxCap = 9 / 40 := by
    rw [ha.minCap, ha.maxCap]
    simp only [Double.min, Double.max, Double.lt]
    norm_num
  -- the weights solve the normal equations of the updated sums
  have hW : (a.betaUpdate 0 bl bh true).weight (0 % (a.betaUpdate 0 bl bh true).nTemps) =
      ![9887500 / 48950625, 0, 89253125 / 489506250] := by
    rw [betaUpdate_nTemps, ha.nTemps, betaUpdate, update, hlog, hside, hclamp]
    simp only [ha.nTemps, Nat.zero_mod, Function.update_self, ha.muXX, ha.muXY, ha.count]
    refine Double.solve_eq ?_ ?_
    · rw [Matrix.det_fin_three]
      simp
      norm_num
    · funext i
      fin_cases i <;> simp [Matrix.mulVec, dotProduct, Fin.sum_univ_three] <;> norm_num
  have hrate' : (a.betaUpdate 0 bl bh true).optimalRate = 1 / 20 := ha.optimalRate
  have hmax' : (a.betaUpdate 0 bl bh true).maxCap = 4 := ha.maxCap
  rw [predict_eq hW ha.minCap]
  · simp only [hrate', Matrix.cons_val]
    norm_num
  · simp only [Matrix.cons_val]
    norm_num
  · simp only [hrate', Matrix.cons_val]
    norm_num
  · simp only [hrate', hmax', Matrix.cons_val]
    norm_num

/-- The swap of another pair teaches it nothing of the coldest. -/
theorem Fresh.betaUpdate (ha : Fresh a) {id : ℕ} (hid : id % 3 ≠ 0) (bl bh : ℝ) (acc : Bool) :
    Fresh (a.betaUpdate id bl bh acc) := by
  have hne : 0 ≠ id % a.nTemps := by
    rw [ha.nTemps]
    exact hid.symm
  exact ⟨ha.nTemps, ha.minCap, ha.maxCap, ha.optimalRate, (Function.update_of_ne hne _ _).trans ha.muXX,
    (Function.update_of_ne hne _ _).trans ha.muXY, (Function.update_of_ne hne _ _).trans ha.count⟩

end RegressionAdapter

/-- One stack with three temperatures, that swap after every step. -/
noncomputable def threeTemps : StatelineSettings ℝ := ⟨1, 3, 1, 1, 0.234, 0.05⟩

/-- The oldest request is answered with energy zero, and every draw is zero. -/
noncomputable def oldest : Input ℝ := ⟨0, [0], 0, 0, 0⟩

theorem threeTemps_fresh : (RunSampler.betaAdapter threeTemps).Fresh where
  nTemps := rfl
  minCap := by
    exact Double.zero_eq
  maxCap := by
    show (4.0 : ℝ) = 4
    norm_num
  optimalRate := by
    show (0.05 : ℝ) = 1 / 20
    norm_num
  muXX := by
    funext i j
    fin_cases i <;> fin_cases j <;>
      simp [RunSampler.betaAdapter, RegressionAdapter.init, RunSampler.maxLogRatio,
        RegressionAdapter.tempVariance] <;>
      norm_num
  muXY := by
    funext i
    fin_cases i <;> simp [RunSampler.betaAdapter, RegressionAdapter.init,
      RunSampler.maxLogRatio] <;> norm_num
  count := by
    show (10.0 : ℝ) = 10
    norm_num

/-- The first ladder has equal ratios. -/
theorem threeTemps_predict (n : ℕ) (x : ℝ) :
    (RunSampler.betaAdapter threeTemps).predict n x = 9 / 40 := by
  have hW : (RunSampler.betaAdapter threeTemps).weight
      (n % (RunSampler.betaAdapter threeTemps).nTemps) =
      ![2, 0, 1 / 2] := by
    funext i
    fin_cases i <;> simp [RunSampler.betaAdapter, RegressionAdapter.init,
      RunSampler.maxLogRatio] <;> norm_num
  have ha := threeTemps_fresh
  rw [RegressionAdapter.predict_eq hW ha.minCap]
  · simp only [ha.optimalRate, Matrix.cons_val]
    norm_num
  · simp only [Matrix.cons_val]
    norm_num
  · simp only [ha.optimalRate, Matrix.cons_val]
    norm_num
  · simp only [ha.optimalRate, ha.maxCap, Matrix.cons_val]
    norm_num

theorem threeTemps_logBetas (n : ℕ) :
    (RunSampler.betaAdapter threeTemps).logBetas n = -(9 / 40) * n := by
  induction n with
  | zero =>
    rw [RegressionAdapter.logBetas]
    norm_num
  | succ n ih =>
    rw [RegressionAdapter.logBetas, threeTemps_predict, ih]
    push_cast
    ring

/-- The values that the first ladder has. -/
theorem threeTemps_values {j : ℕ} (hj : j < 3) :
    ((RunSampler.betaAdapter threeTemps).ladder 3 3).values j = Real.exp (-(9 / 40) * j) := by
  have hmod : j % 3 = j := Nat.mod_eq_of_lt hj
  have hstack : j / 3 * 3 < 3 := by omega
  rw [← threeTemps_logBetas, RegressionAdapter.ladder]
  dsimp only
  rw [hmod]
  by_cases h0 : j = 0
  · rw [if_neg (fun h => h.1 h0), h0, RegressionAdapter.logBetas]
    show (1.0 : ℝ) = Real.exp 0.0
    norm_num
  · rw [if_pos ⟨h0, hstack⟩]
    rfl

/-- The state after the first step, in which the hottest chain started a cascade. -/
structure Started (s₀ s : Sampler Unit ℝ ℝ) : Prop where
  start : RunSampler.runSampler threeTemps () (fun _ => (0, 0)) 0 = .ok s₀
  run : Reach Sampler.next (fun s i => s.Fits i) s₀ [oldest] s
  inv : Sampler.Inv False 3 1 s
  flight : s.cascade.flight = [1, 0]
  locked : s.locked 1 = true
  adapter : s.betaAdapter = (RunSampler.betaAdapter threeTemps).ladder 3 3
  beta : ∀ j < 3, s.chains.beta j = Real.exp (-(9 / 40) * j)

theorem threeTemps_started : ∃ s₀ s, Started s₀ s := by
  obtain ⟨s₀, h₀, hinv₀, hadapter₀, hbetas₀, -, hint₀, hlocked₀, -, hflight₀⟩ :=
    RunSampler.start_ok (show threeTemps.numChains = 3 * 1 from rfl)
      (show threeTemps.swapInterval ≠ 0 from Nat.one_ne_zero)
      (RunSampler.sigmaAdapter threeTemps)
      (show (RunSampler.betaAdapter threeTemps).nTemps = 3 from rfl) () (fun _ => ((0 : ℝ), (0 : ℝ))) 0
  have hflight₀ : s₀.cascade.flight = [2, 1, 0] := hflight₀
  obtain ⟨s, r, hn, hid, hinv, he⟩ := Sampler.next_effect (i := oldest) hinv₀ (by rw [hflight₀]; rfl)
  have hmove : r.move = .start := by
    refine he.starts.2 ⟨hlocked₀ _, ?_, ?_, ?_⟩
    · rw [hid, hinv₀.ntemps]
      rfl
    · rw [hinv₀.ntemps]
      exact Nat.one_lt_succ_succ 1
    · rw [hint₀]
      exact Nat.mod_one _
  have hnoSwap : r.move ≠ .swap := by
    rw [hmove]
    decide
  -- no chain is locked at first
  have hfits : s₀.Fits oldest := by
    intro q _ _ _ hl
    rw [hlocked₀] at hl
    cases hl
  refine ⟨s₀, s, h₀, Reach.start.next hfits hn, hinv, ?_, ?_, ?_, ?_⟩
  · rw [he.flight_next, hflight₀, Sampler.sends, hmove]
    rfl
  · have hl := he.locks_below (by rw [hmove]; decide)
        (by rw [hid, hinv₀.ntemps]; exact Nat.succ_ne_zero 1)
    rwa [hid] at hl
  · rw [he.beta hnoSwap, hadapter₀]
    rfl
  · intro j hj
    rw [he.betas, if_neg hnoSwap, hbetas₀ j hj, hadapter₀]
    exact threeTemps_values hj

/-- The state before the coldest chain swaps: its first ladder is in the chains, and the adapter has
learnt nothing of the coldest pair. -/
structure BeforeLast (s₀ s : Sampler Unit ℝ ℝ) : Prop where
  start : RunSampler.runSampler threeTemps () (fun _ => (0, 0)) 0 = .ok s₀
  run : Reach Sampler.next (fun s i => s.Fits i) s₀ [oldest, oldest] s
  inv : Sampler.Inv False 3 1 s
  flight : s.cascade.flight = [0, 2]
  locked : s.locked 0 = true
  fresh : s.betaAdapter.Fresh
  beta : ∀ j < 3, s.chains.beta j = Real.exp (-(9 / 40) * j)

/-- The chain below the hottest one swaps with it. -/
theorem threeTemps_beforeLast : ∃ s₀ s, BeforeLast s₀ s := by
  obtain ⟨s₀, s₁, h₁⟩ := threeTemps_started
  obtain ⟨s, r, hn, hid, hinv, he⟩ := Sampler.next_effect (i := oldest) h₁.inv (by rw [h₁.flight]; rfl)
  have hmove : r.move = .swap := he.swaps.2 (by rw [hid]; exact h₁.locked)
  have hcold : ¬ r.id % s₁.chains.ntemps = 0 := by
    rw [hid, h₁.inv.ntemps]
    exact Nat.succ_ne_zero 0
  obtain ⟨b, b', acc, hadapter⟩ : ∃ b b' acc, s.betaAdapter = s₁.betaAdapter.betaUpdate 1 b b' acc := by
    obtain ⟨last, high, -, -, hrungs⟩ := he.outcome hmove
    rw [Sampler.rungs, if_neg hcold, hid] at hrungs
    exact ⟨_, _, _, hrungs⟩
  -- the hottest chain is set to the temperature that it has
  have hvalue : s₁.betaAdapter.values 2 = Real.exp (-(9 / 40) * (2 : ℕ)) := by
    rw [h₁.adapter]
    exact threeTemps_values (by omega)
  have hbeta : s.chains.beta = Function.update s₁.chains.beta 2 (s₁.betaAdapter.values 2) := by
    rw [he.betas, if_pos hmove, hid, hadapter]
    rfl
  have hfits : s₁.Fits oldest := by
    intro q last high hq _ _ _
    obtain ⟨q', hq', hid'⟩ := he.request
    rw [hq] at hq'
    cases hq'
    rw [hid', Sampler.RungFits, if_neg hcold, hid, hvalue, h₁.beta 1 (by omega)]
    refine ⟨Real.exp_le_exp.2 (by norm_num), ?_⟩
    intro hhot
    rw [h₁.inv.ntemps] at hhot
    exact absurd rfl hhot
  refine ⟨s₀, s, h₁.start, h₁.run.next hfits hn, hinv, ?_, ?_, ?_, ?_⟩
  · rw [he.flight_next, h₁.flight, Sampler.sends, hmove]
    dsimp only
    rw [if_neg hcold, hid]
    rfl
  · have hl := he.locks_below (by rw [hmove]; decide) hcold
    rwa [hid] at hl
  · have ha := threeTemps_fresh
    have hladder : ((RunSampler.betaAdapter threeTemps).ladder 3 3).Fresh :=
      ⟨ha.nTemps, ha.minCap, ha.maxCap, ha.optimalRate, ha.muXX, ha.muXY, ha.count⟩
    rw [hadapter, h₁.adapter]
    exact hladder.betaUpdate (show 1 % 3 ≠ 0 by omega) _ _ _
  · intro j hj
    rw [hbeta]
    rcases eq_or_ne j 2 with rfl | hne
    · rw [Function.update_self, hvalue]
    · rw [Function.update_of_ne hne, h₁.beta j hj]

end ThreeTemps

section Run

variable [Sub V] [Inhabited V] [Proposal P V ℝ]

/-- **The ladder stays ordered** in a run in which every rung fits that a step sets, whatever the
regression has learnt before each step. Then every swap is with a chain at least as hot, and the next
step keeps the ladder if and only if its rung fits. -/
theorem ladder_ordered_iff (settings : StatelineSettings ℝ) (hT : 0 < settings.ntemps)
    (hsize : settings.nstacks * settings.ntemps < 2 ^ 32) (hint : 0 < settings.swapInterval)
    (maxCap : ℝ) (sigmaAdapter : RegressionAdapter ℝ)
    (g : Regression ℝ) (proposal : P) (samples : ℕ → V × ℝ) (now : ℤ) :
    ∃ s₀ : Sampler P V ℝ, RunSampler.start settings sigmaAdapter
        ((RegressionAdapter.init settings.nstacks settings.ntemps settings.optimalSwapRate 0.0
          maxCap).refit g) proposal
        samples now = .ok s₀ ∧
      ∀ ps s, Reach Sampler.nextFit (fun s p => (s.refit p.1).Fits p.2) s₀ ps s →
        Ladder settings.ntemps settings.nstacks s.chains.beta ∧
        (∀ id < settings.ntemps * settings.nstacks, s.locked id = true →
          s.chains.beta (id + 1) ≤ s.chains.beta id ∧
          0 ≤ Real.log (s.chains.beta id) - Real.log (s.chains.beta (id + 1))) ∧
        ∀ p s', s.nextFit p = some s' →
          (Ladder settings.ntemps settings.nstacks s'.chains.beta ↔ (s.refit p.1).Fits p.2) := by
  have hN := StatelineSettings.numChains_of_lt hsize
  obtain ⟨s₀, h₀, hinv₀, hbeta, hbetas, -⟩ := RunSampler.start_ok hN hint.ne' sigmaAdapter
    (show ((RegressionAdapter.init settings.nstacks settings.ntemps settings.optimalSwapRate 0.0
      maxCap).refit g).nTemps =
      settings.ntemps from rfl) proposal samples now
  refine ⟨s₀, h₀, ?_⟩
  intro ps s hrun
  -- the first ladder is a predicted one
  have ht₀ : Sampler.Tempered settings.ntemps settings.nstacks s₀ := by
    have hmin : ((RegressionAdapter.init settings.nstacks settings.ntemps settings.optimalSwapRate
        0.0 maxCap).refit
        g).minCap = 0 := by
      exact Double.zero_eq
    refine ⟨by rw [hbeta]; rfl, by rw [hbeta]; exact hmin, ?_, ?_⟩
    · intro j
      rw [hbeta]
      dsimp only [RegressionAdapter.ladder]
      split
      · exact Real.exp_pos _
      · show (0 : ℝ) < 1.0
        norm_num
    · refine (RegressionAdapter.ladder_ladder hmin hT ?_).congr hT
        fun j hj => by rw [hbetas j (hN ▸ hj), hbeta, hN, Nat.mul_comm]
      intro k hk
      exact Double.one_eq
  obtain ⟨hs, ht⟩ := hrun.invariant
    (P := fun _ s => Sampler.Inv False settings.ntemps settings.nstacks s ∧
      Sampler.Tempered settings.ntemps settings.nstacks s) ⟨hinv₀, ht₀⟩ (by
      rintro ps s p s' - ⟨hs, ht⟩ hfits hnext
      obtain ⟨hs', r, h⟩ := Sampler.nextFit_effect hs hnext
      exact ⟨hs', h.tempered (Sampler.refit_inv hs p.1) (ht.refit p.1) hfits⟩)
  refine ⟨ht.ladder, fun id hid hl => ht.hotter hs hid hl, ?_⟩
  intro p s' hnext
  obtain ⟨-, r, h⟩ := Sampler.nextFit_effect hs hnext
  exact h.ladder_iff (Sampler.refit_inv hs p.1) (ht.refit p.1)

end Run

/-- After the first swap, of the hottest pair, the ladder is as it was. -/
theorem ladder_ordered_threeTemps :
    ∃ s₀ s : Sampler Unit ℝ ℝ, RunSampler.runSampler threeTemps () (fun _ => (0, 0)) 0 = .ok s₀ ∧
      Reach Sampler.next (fun s i => s.Fits i) s₀ [oldest, oldest] s ∧ Ladder 3 1 s.chains.beta := by
  obtain ⟨s₀, h₀, h⟩ := ladder_ordered_iff (P := Unit)
    (V := ℝ) threeTemps (show 0 < 3 by omega) (show 1 * 3 < 2 ^ 32 by norm_num) (show 0 < 1 by omega)
    RunSampler.maxLogRatio (RunSampler.sigmaAdapter threeTemps)
      (RunSampler.betaAdapter threeTemps).regression ()
    (fun _ => (0, 0)) 0
  obtain ⟨s₁, s, hb⟩ := threeTemps_beforeLast
  obtain rfl : s₀ = s₁ := Except.ok.inj (h₀.symm.trans hb.start)
  obtain ⟨ps, hps⟩ := Sampler.run_refit hb.run
  exact ⟨s₀, s, hb.start, hb.run, (h ps s hps).1⟩

/-- **The ladder breaks.** After the first swap of the coldest chain, the chain above it is hotter than
the hottest one. -/
theorem ladder_broken :
    ∃ s₀ s : Sampler Unit ℝ ℝ, RunSampler.runSampler threeTemps () (fun _ => (0, 0)) 0 = .ok s₀ ∧
      Reach Sampler.next (fun _ _ => True) s₀ [oldest, oldest, oldest] s ∧
      s.chains.beta 1 < s.chains.beta 2 ∧ ¬ Ladder 3 1 s.chains.beta := by
  obtain ⟨s₀, s₂, hb⟩ := threeTemps_beforeLast
  -- the coldest chain swaps, and the ladder is computed anew
  obtain ⟨s₃, r₃, hn₃, hid₃, -, he₃⟩ :=
    Sampler.next_effect (i := oldest) hb.inv (by rw [hb.flight]; rfl)
  have hmove₃ : r₃.move = .swap := he₃.swaps.2 (by rw [hid₃]; exact hb.locked)
  have hadapter₃ : s₃.betaAdapter = s₂.rungs 0 true := by
    obtain ⟨last, high, -, -, hrungs⟩ := he₃.outcome hmove₃
    rw [hrungs, hid₃]
    congr 1
    exact decide_eq_true (Real.exp_pos _)
  have hbeta₃ : s₃.chains.beta =
      Function.update s₂.chains.beta 1 (Real.exp (0.0 - s₂.predicted 0 true)) := by
    have hvalues : (s₂.rungs 0 true).values 1 = _ :=
      Sampler.rungs_values (by rw [hb.fresh.nTemps]; exact Nat.one_lt_succ_succ 1) true
    rw [if_pos (Nat.zero_mod _)] at hvalues
    rw [he₃.betas, if_pos hmove₃, hid₃, hadapter₃, hvalues]
    rfl
  have hpredicted : s₂.predicted 0 true = 647778125 / 988750000 := by
    refine hb.fresh.predict ?_ ?_
    · rw [hb.beta 0 (by omega), Real.log_exp]
      norm_num
    · rw [hb.beta 1 (by omega), Real.log_exp]
      norm_num
  have hlt : s₃.chains.beta 1 < s₃.chains.beta 2 := by
    rw [hbeta₃, Function.update_self, Function.update_of_ne (by omega), hb.beta 2 (by omega),
      hpredicted, Real.exp_lt_exp]
    norm_num
  refine ⟨s₀, s₃, hb.start, (hb.run.mono fun _ _ _ => trivial).next trivial hn₃, hlt, ?_⟩
  intro h
  have hle := h.step 0 Nat.one_pos 1 (by omega)
  norm_num at hle
  exact absurd hle (not_le.2 hlt)

end Stateline
