import Stateline.Proof.Temperatures

/-!
# Computed ladders

The adapter of the temperatures is called in two ways: a swap reports to it (`betaUpdate`), and the
ladder of a stack is computed from its coldest chain (`computeBetaStack`). What the regression has
learnt may be anything at any time (`refit`).

* `Used.rooted`: the clamp and the values of the coldest chains stay as they were.
* `adapter_used`: the sampler uses its adapter in these ways.
* `ladder_bounded`: **a computed ladder is ordered and bounded**, and the weights determine it.
-/

namespace Stateline

open Lib

namespace RegressionAdapter

section Any

variable {F : Type} [Double F]

/-- A call on the adapter of the temperatures, or something else that was learnt. -/
inductive BetaCall (F : Type)
  | betaUpdate (chainID : ℕ) (bl bh : F) (acc : Bool)
  | computeBetaStack (chainID : ℕ)
  | refit (g : Regression F)

/-- The adapter after a call. -/
def betaCall (a : RegressionAdapter F) : BetaCall F → RegressionAdapter F
  | .betaUpdate chainID bl bh acc => a.betaUpdate chainID bl bh acc
  | .computeBetaStack chainID => a.computeBetaStack chainID
  | .refit g => a.refit g

/-- Ladders are computed from the coldest chain of a stack. -/
def BetaCall.Coldest (nTemps : ℕ) : BetaCall F → Prop
  | .computeBetaStack chainID => chainID % nTemps = 0
  | _ => True

/-- The calls lead from the adapter `a₀` to `a`. -/
abbrev Used (a₀ : RegressionAdapter F) : List (BetaCall F) → RegressionAdapter F → Prop :=
  Reach (fun a c => some (a.betaCall c)) (fun a c => c.Coldest a.nTemps) a₀

/-- What the calls keep. -/
structure Rooted (a₀ a : RegressionAdapter F) : Prop where
  nTemps : a.nTemps = a₀.nTemps
  minCap : a.minCap = a₀.minCap
  maxCap : a.maxCap = a₀.maxCap
  optimalRate : a.optimalRate = a₀.optimalRate
  coldest : ∀ c, c % a₀.nTemps = 0 → a.values c = a₀.values c

variable {a₀ a a' : RegressionAdapter F}

omit [Double F] in
theorem Rooted.refl (a : RegressionAdapter F) : Rooted a a := ⟨rfl, rfl, rfl, rfl, fun _ _ => rfl⟩

/-- A computed ladder leaves the other stacks and the coldest chain as they were. -/
theorem computeBetaStack_outside {c j : ℕ} (hc : c % a.nTemps = 0)
    (hj : j / a.nTemps ≠ c / a.nTemps ∨ j % a.nTemps = 0) :
    (a.computeBetaStack c).values j = a.values j := by
  refine a.computeBetaStack_values ?_
  rintro ⟨h1, h2⟩
  obtain ⟨hstack, hlevel⟩ := Cascade.above_coldest hc h1 h2
  rcases hj with hj | hj
  · exact hj hstack
  · exact hlevel hj

/-- **One call.** -/
theorem Rooted.call (h : Rooted a₀ a) {c : BetaCall F} (hc : c.Coldest a.nTemps) :
    Rooted a₀ (a.betaCall c) := by
  cases c with
  | betaUpdate chainID bl bh acc => exact ⟨h.nTemps, h.minCap, h.maxCap, h.optimalRate, h.coldest⟩
  | computeBetaStack chainID =>
    have hsame : ∀ j, j % a₀.nTemps = 0 → (a.computeBetaStack chainID).values j = a₀.values j := by
      intro j hj
      rw [computeBetaStack_outside hc (.inr (h.nTemps ▸ hj)), h.coldest j hj]
    rw [betaCall]
    rw [computeBetaStack_eq] at hsame ⊢
    exact ⟨h.nTemps, h.minCap, h.maxCap, h.optimalRate, hsame⟩
  | refit g => exact ⟨h.nTemps, h.minCap, h.maxCap, h.optimalRate, h.coldest⟩

/-- **Any calls.** -/
theorem Used.rooted {calls : List (BetaCall F)} (h : Used a₀ calls a) : Rooted a₀ a :=
  h.invariant (P := fun _ a => Rooted a₀ a) (.refl a₀) (by
    rintro _ a c a' - hr hc hstep
    cases hstep
    exact hr.call hc)

/-- The ladder depends on the weights, the clamp and the rate only. -/
theorem Rooted.logBetas_eq (h : Rooted a₀ a) (h' : Rooted a₀ a') (hw : a'.weight = a.weight) (n : ℕ) :
    a'.logBetas n = a.logBetas n := by
  have hpredict : ∀ n x, a'.predict n x = a.predict n x := by
    intro n x
    unfold predict
    rw [hw, h.nTemps, h'.nTemps, h.minCap, h'.minCap, h.maxCap, h'.maxCap, h.optimalRate, h'.optimalRate]
  induction n with
  | zero => rfl
  | succ n ih => rw [logBetas, logBetas, ih, hpredict]

/-- The ladders of the first chains are computed one by one. -/
theorem ladder_used {T : ℕ} (hT : a.nTemps = T) (hpos : 0 < T) (n : ℕ) :
    ∃ calls, Used a calls (a.ladder T n) ∧ ∀ g, .refit g ∉ calls := by
  induction n with
  | zero =>
    refine ⟨[], ?_, fun _ => List.not_mem_nil⟩
    have hstart : a.ladder T 0 = a := by
      unfold ladder
      simp only [Nat.not_lt_zero, and_false, if_false]
    rw [hstart]
    exact .start
  | succ n ih =>
    obtain ⟨calls, hcalls, hno⟩ := ih
    by_cases hcold : n % T = 0
    · refine ⟨calls ++ [.computeBetaStack n],
        hcalls.next (show n % a.nTemps = 0 from hT ▸ hcold)
          (congrArg some (a.ladder_stack hT hpos hcold)), ?_⟩
      intro g
      simp [hno g]
    · rw [a.ladder_same hcold]
      exact ⟨calls, hcalls, hno⟩

end Any

end RegressionAdapter

section Run

open RegressionAdapter

variable {P V F : Type} [Double F]

/-- A step reports to the adapter at a swap, and computes a ladder when the coldest chain swapped. -/
theorem Sampler.Effect.used {s s' : Sampler P V F} {i : Input F} {r : Report V F}
    {a₀ : RegressionAdapter F} {calls : List (BetaCall F)} (h : Sampler.Effect s i s' r)
    (hT : s.chains.ntemps = s.betaAdapter.nTemps) (hu : Used a₀ calls s.betaAdapter)
    (hno : ∀ g, .refit g ∉ calls) :
    ∃ calls', Used a₀ calls' s'.betaAdapter ∧ ∀ g, .refit g ∉ calls' := by
  by_cases hmove : r.move = .swap
  · obtain ⟨last, high, -, -, hrungs⟩ := h.outcome hmove
    rw [hrungs]
    generalize acceptSwap high _ _ _ _ = accepted
    have hreport : Used a₀ (calls ++ [.betaUpdate r.id (s.chains.beta r.id) (s.chains.beta (r.id + 1))
        accepted]) (s.betaAdapter.betaUpdate r.id _ _ accepted) :=
      hu.next trivial rfl
    rw [Sampler.rungs]
    split
    · rename_i hcold
      refine ⟨_ ++ [.computeBetaStack r.id],
        hreport.next (show r.id % s.betaAdapter.nTemps = 0 from hT ▸ hcold) rfl, ?_⟩
      intro g
      simp [hno g]
    · refine ⟨_, hreport, ?_⟩
      intro g
      simp [hno g]
  · rw [h.beta hmove]
    exact ⟨calls, hu, hno⟩

variable [Sub V] [Inhabited V] [Proposal P V F]

/-- **The adapter of the sampler** has been used in these ways only, in every state of a run, and has
learnt nothing else. -/
theorem adapter_used (settings : StatelineSettings F) (hT : 0 < settings.ntemps)
    (hwhole : settings.Whole) (hint : 0 < settings.swapInterval) (proposal : P)
    (samples : ℕ → V × F) (now : ℤ) :
    ∃ s₀ : Sampler P V F, RunSampler.runSampler settings proposal samples now = .ok s₀ ∧
      ∀ is s, Reach Sampler.next (fun _ _ => True) s₀ is s →
        ∃ calls, Used (RunSampler.betaAdapter settings) calls s.betaAdapter ∧ ∀ g, .refit g ∉ calls := by
  obtain ⟨S, hS⟩ := hwhole
  obtain ⟨s₀, h₀, hinv₀, hbeta, -⟩ := RunSampler.start_ok hS hint.ne' (RunSampler.sigmaAdapter settings)
    (show (RunSampler.betaAdapter settings).nTemps = settings.ntemps from rfl) proposal samples now
  refine ⟨s₀, h₀, ?_⟩
  intro is s hrun
  obtain ⟨-, -, hused⟩ := Logged.invariant
    (Q := fun _ s => ∃ calls, Used (RunSampler.betaAdapter settings) calls s.betaAdapter ∧
      ∀ g, .refit g ∉ calls) hinv₀ (by
      rw [hbeta]
      exact ladder_used rfl hT _) (by
      rintro _ s i s' r hinv h ⟨calls, hu, hno⟩
      exact h.used (hinv.ntemps.trans hu.rooted.nTemps.symm) hu hno) hrun
  exact hused

end Run

namespace RegressionAdapter

variable {a : RegressionAdapter ℝ}

/-- A rung of the ladder that is computed, over a coldest chain at inverse temperature 1. -/
theorem computeBetaStack_rung {c i : ℕ} (hone : a.values c = 1) (hi : i < a.nTemps) :
    (a.computeBetaStack c).values (c + i) = Real.exp (a.logBetas i) := by
  rcases Nat.eq_zero_or_pos i with rfl | hpos
  · rw [a.computeBetaStack_values (by omega), logBetas, Nat.add_zero, hone]
    norm_num
  · rw [computeBetaStack_eq]
    dsimp only
    rw [if_pos ⟨by omega, by omega⟩, Nat.add_sub_cancel_left]
    rfl

/-- **A computed ladder is ordered and bounded.** Whatever was reported to the adapter and whatever it
has learnt, it predicts values within the clamp. The ladder that it computes for a stack starts with 1
and descends, in logarithms, by steps within the clamp; the other stacks keep theirs, and equal
weights give equal ladders. -/
theorem ladder_bounded (nStacks nTemps : ℕ) (optimalRate : ℝ) {maxCap : ℝ} (hcap : 0 ≤ maxCap)
    {calls : List (BetaCall ℝ)} (h : Used (init nStacks nTemps optimalRate 0 maxCap) calls a) {c : ℕ}
    (hc : c % nTemps = 0) :
    (∀ n x, a.predict n x ∈ Set.Icc 0 maxCap) ∧
      (a.computeBetaStack c).values c = 1 ∧
      (∀ j, j / nTemps ≠ c / nTemps → (a.computeBetaStack c).values j = a.values j) ∧
      (∀ i, 1 ≤ i → i < nTemps → 0 < (a.computeBetaStack c).values (c + i) ∧
        Real.log ((a.computeBetaStack c).values (c + i - 1)) -
          Real.log ((a.computeBetaStack c).values (c + i)) ∈ Set.Icc 0 maxCap) ∧
      ∀ calls' a' c', Used (init nStacks nTemps optimalRate 0 maxCap) calls' a' →
        a'.weight = a.weight → c' % nTemps = 0 → ∀ i < nTemps,
          (a'.computeBetaStack c').values (c' + i) = (a.computeBetaStack c).values (c + i) := by
  have hinit : ∀ j, (init nStacks nTemps optimalRate 0 maxCap).values j = 1 := by
    intro j
    exact Double.one_eq
  -- every stack holds the exponentials of the predicted ladder
  have hrung : ∀ {calls a c}, Used (init nStacks nTemps optimalRate 0 maxCap) calls a →
      c % nTemps = 0 → ∀ i < nTemps,
        (a.computeBetaStack c).values (c + i) = Real.exp (a.logBetas i) := by
    intro calls a c h hc i hi
    have hr := h.rooted
    exact computeBetaStack_rung ((hr.coldest c hc).trans (hinit c)) (by rw [hr.nTemps]; exact hi)
  have hr := h.rooted
  have hT : a.nTemps = nTemps := hr.nTemps
  have hmin : a.minCap = 0 := hr.minCap
  have hmax : a.maxCap = maxCap := hr.maxCap
  have hpredict : ∀ n x, a.predict n x ∈ Set.Icc 0 maxCap := by
    intro n x
    refine ⟨predict_nonneg hmin n x, ?_⟩
    rw [← hmax]
    exact predict_le_maxCap (by rw [hmin, hmax]; exact hcap) n x
  refine ⟨hpredict, ?_, ?_, ?_, ?_⟩
  · rw [computeBetaStack_outside (by rw [hT]; exact hc) (.inr (by rw [hT]; exact hc)),
      hr.coldest c hc, hinit]
  · intro j hj
    exact computeBetaStack_outside (by rw [hT]; exact hc) (.inl (by rw [hT]; exact hj))
  · intro i h1 hi
    obtain ⟨i, rfl⟩ := Nat.exists_eq_add_of_le' h1
    have hstep : a.logBetas i - a.logBetas (i + 1) = a.predict i (a.logBetas i) := sub_sub_cancel _ _
    rw [hrung h hc (i + 1) hi, show c + (i + 1) - 1 = c + i from rfl, hrung h hc i (by omega),
      Real.log_exp, Real.log_exp, hstep]
    exact ⟨Real.exp_pos _, hpredict i _⟩
  · intro calls' a' c' h' hw hc' i hi
    rw [hrung h' hc' i hi, hrung h hc i hi, hr.logBetas_eq h'.rooted hw]

/-- Two stacks of three chains. After a swap the first ladder is computed, and then the second. -/
theorem ladder_bounded_twoStacks :
    let a := ((init 2 3 (1 / 20) 0 4).betaUpdate 0 1 (1 / 2) true).computeBetaStack 0
    (a.computeBetaStack 3).values 3 = 1 ∧
      Real.log ((a.computeBetaStack 3).values 4) - Real.log ((a.computeBetaStack 3).values 5) ∈
        Set.Icc 0 4 ∧
      (a.computeBetaStack 3).values 5 = (a.computeBetaStack 0).values 2 := by
  intro a
  have h : Used (init 2 3 (1 / 20) 0 4) [.betaUpdate 0 1 (1 / 2) true, .computeBetaStack 0] a :=
    (Reach.start.next trivial rfl).next (Nat.zero_mod 3) rfl
  obtain ⟨-, hone, -, hsteps, hequal⟩ :=
    ladder_bounded 2 3 (1 / 20) (show (0 : ℝ) ≤ 4 by norm_num) h (show 3 % 3 = 0 from rfl)
  exact ⟨hone, (hsteps 2 (by omega) (by omega)).2, (hequal _ a 0 h rfl rfl 2 (by omega)).symm⟩

end RegressionAdapter

end Stateline
