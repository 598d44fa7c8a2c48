import Stateline.Proof.Step

/-!
# Runs of the sampler

What holds after the constructor and any number of steps, whichever requests are
answered, in whatever order, and whatever the draws are.

The number of chains is a `uint`, so that the theorems ask that it is below 2^32.

* `cascade_invariant`: **locks and jobs.** A chain has one request outstanding, or
  none while the chain below is locked; no step faults and no stack stops.
* `markov_steps`: **an appended sample was drawn from the state it is judged
  against**, and its energy is that of its own request.
* `record_in_force_iff`: **a recorded state carries the step size and temperature
  in force** if and only if the proposal is accepted or nothing changed.
-/

namespace Stateline

open Lib

variable {P V F : Type} [Double F]

section Witness

/-- A walk that always moves by the step size. -/
noncomputable instance : Proposal Unit ℝ ℝ :=
  ⟨fun p _ sample sigma => (sample + sigma, p), fun p _ _ => p⟩

/-- One stack with two temperatures, as `runSampler` initialises it. -/
noncomputable def twoChains : ChainArray ℝ ℝ :=
  ⟨fun _ => [], 1, 2, fun _ => 0, fun _ => 1.0, fun _ => 1.0,
    fun _ => [⟨0.5, 2.0, 1.0, 1.0, true, .noAttempt⟩], 0⟩

theorem twoChains_size : twoChains.ntemps * twoChains.nstacks < 2 ^ 32 :=
  show 2 * 1 < 2 ^ 32 by norm_num

theorem twoChains_last : ∀ i < twoChains.numTotalChains, ∃ state, twoChains.lastState i = .ok state :=
  fun _ hi => ⟨_, ChainArray.lastState_eq_ok.2 ⟨hi, rfl⟩⟩

end Witness

section Cascade

variable [Sub V] [Inhabited V] [Proposal P V F]

/-- **The lock discipline.** After the constructor and after every step, a chain has one outstanding
request if it is the coldest of its stack or the chain below is not locked, and none otherwise. -/
theorem cascade_invariant (jobTypes : List ℕ) {chains : ChainArray V F} (proposal : P)
    (sigmaAdapter betaAdapter : RegressionAdapter F) {swapInterval : ℕ} (hT : 0 < chains.ntemps)
    (hsize : chains.ntemps * chains.nstacks < 2 ^ 32) (hint : 0 < swapInterval)
    (hlast : ∀ i < chains.numTotalChains, ∃ state, chains.lastState i = .ok state) :
    ∃ s₀, Sampler.init jobTypes chains proposal sigmaAdapter betaAdapter swapInterval = .ok s₀ ∧
      ∀ is s, Reach Sampler.next (fun _ _ => True) s₀ is s →
        s.chains.ntemps = chains.ntemps ∧ s.chains.nstacks = chains.nstacks ∧
        (∀ c < s.chains.numTotalChains, (s.requester.map (·.id)).count c =
          if s.chains.isColdestInStack c ∨ s.locked (c - 1) = false then 1 else 0) ∧
        (∀ c < s.chains.numTotalChains, s.chains.isHottestInStack c → s.locked c = false) ∧
        s.numOutstandingJobs = s.requester.length ∧
        (∀ id jobTypes sample t,
          Call.submit id jobTypes sample :: t <:+ s.calls → Call.outstanding id t = 0) ∧
        (∀ k < s.chains.numStacks, ∃ r ∈ s.requester, s.chains.stackIndex r.id = k) ∧
        ∀ i : Input F, i.index < s.requester.length → ∃ s', s.next i = some s' := by
  obtain ⟨s₀, h₀, hinv₀⟩ :=
    Sampler.init_ok False jobTypes proposal sigmaAdapter betaAdapter hint.ne'
      (ChainArray.numTotalChains_of_lt hsize) hlast fun h => h.elim
  refine ⟨s₀, h₀, ?_⟩
  intro is s hrun
  have h := Sampler.run_inv hinv₀ hrun
  have hN := h.total
  have hnstacks : s.chains.nstacks = chains.nstacks := by
    rw [Sampler.run_nstacks hinv₀ hrun, (Sampler.init_effect h₀).1]
  refine ⟨h.ntemps, hnstacks, ?_, ?_, h.jobs, ?_, ?_, ?_⟩
  · intro c hc
    have hcount := h.cascade.count c (hN ▸ hc)
    rw [Sampler.cascade] at hcount
    simpa only [ChainArray.isColdestInStack, ChainArray.chainIndex, ChainArray.numTemps_eq, h.ntemps,
      decide_eq_true_eq] using hcount
  · intro c hc hhot
    refine h.cascade.hottest c (hN ▸ hc) ?_
    simpa only [ChainArray.isHottestInStack, ChainArray.chainIndex, ChainArray.numTemps_eq, h.ntemps,
      decide_eq_true_eq] using hhot
  · intro id jobTypes sample t ht
    exact h.good.calls.sound ht
  · intro k hk
    have hmem := h.cascade.coldest hT (j := k) (hnstacks ▸ hk)
    obtain ⟨r, hr, he⟩ := List.mem_map.1 hmem
    refine ⟨r, hr, ?_⟩
    rw [ChainArray.stackIndex, ChainArray.numTemps_eq, h.ntemps, he, Nat.mul_div_cancel k hT]
  · intro i hi
    obtain ⟨s', out, hs', -⟩ := Sampler.step_ok h i hi
    exact ⟨s', by rw [Sampler.next, hs']; rfl⟩

theorem cascade_invariant_twoChains :
    ∃ s₀, Sampler.init [0] twoChains () (.init 1 2 0.5 0.0 1.0) (.init 1 2 0.5 0.0 1.0) 10 = .ok s₀ ∧
      ∀ is s, Reach Sampler.next (fun _ _ => True) s₀ is s →
        s.chains.ntemps = 2 ∧ s.numOutstandingJobs = s.requester.length := by
  obtain ⟨s₀, h₀, h⟩ := cascade_invariant [0] () (.init 1 2 0.5 0.0 1.0) (.init 1 2 0.5 0.0 1.0)
    (show 0 < twoChains.ntemps from Nat.two_pos) twoChains_size (show 0 < 10 by omega) twoChains_last
  exact ⟨s₀, h₀, fun is s hrun => ⟨(h is s hrun).1, (h is s hrun).2.2.2.2.1⟩⟩

end Cascade

section Markov

/-- Every appended sample is that of the request answered just before, whose results sum up to the
energy, and the last proposal for the chain was that sample, drawn from what is still its last state
with what is still its step size. -/
def MarkovSteps (calls : List (Call V F)) : Prop :=
  ∀ id sample energy rand last sigma beta t, Call.append id sample energy rand last sigma beta ::
    t <:+ calls →
    ∃ request results t', t = .retrieve request results ::
      t' ∧ request.id = id ∧ request.data = sample ∧
      energy = Sampler.energyOf results ∧ Call.submitted id t' = some sample ∧
      Call.proposed id t' = some (last, sigma, sample)

theorem Call.AllSound.markovSteps {calls : List (Call V F)} (h : Call.AllSound True calls) :
    MarkovSteps calls := by
  intro id sample energy rand last sigma beta t ht
  obtain ⟨request, results, t', ht', hid, hdata, henergy, hsub, width, hprop, hwidth⟩ := h.sound ht
  exact ⟨request, results, t', ht', hid, hdata, henergy, hsub, hwidth trivial ▸ hprop⟩

variable [Sub V] [Inhabited V] [Proposal P V F]

/-- **Every Markov step is valid**, in steps and in the final `flush`. -/
theorem markov_steps (jobTypes : List ℕ) {chains : ChainArray V F} (proposal : P)
    {sigmaAdapter : RegressionAdapter F} (betaAdapter : RegressionAdapter F) {swapInterval : ℕ}
    (hsize : chains.ntemps * chains.nstacks < 2 ^ 32) (hint : 0 < swapInterval)
    (hlast : ∀ i < chains.numTotalChains, ∃ state, chains.lastState i = .ok state)
    (hsigma : ∀ i < chains.numTotalChains, chains.sigma i = sigmaAdapter.values i) :
    ∃ s₀, Sampler.init jobTypes chains proposal sigmaAdapter betaAdapter swapInterval = .ok s₀ ∧
      ∀ is s, Reach Sampler.next (fun _ _ => True) s₀ is s →
        MarkovSteps s.calls ∧ ∀ fs s', s.flush fs = .ok s' → MarkovSteps s'.calls := by
  obtain ⟨s₀, h₀, hinv₀⟩ :=
    Sampler.init_ok True jobTypes proposal sigmaAdapter betaAdapter hint.ne'
      (ChainArray.numTotalChains_of_lt hsize) hlast fun _ => hsigma
  refine ⟨s₀, h₀, ?_⟩
  intro is s hrun
  have h := Sampler.run_inv hinv₀ hrun
  exact ⟨h.good.calls.markovSteps, fun fs s' hs' => (Sampler.flush_sound h hs').markovSteps⟩

theorem markov_steps_twoChains :
    ∃ s₀, Sampler.init [0] twoChains () (.init 1 2 0.5 0.0 1.0) (.init 1 2 0.5 0.0 1.0) 10 = .ok s₀ ∧
      ∀ is s, Reach Sampler.next (fun _ _ => True) s₀ is s →
        MarkovSteps s.calls ∧ ∀ fs s', s.flush fs = .ok s' → MarkovSteps s'.calls :=
  markov_steps [0] () (.init 1 2 0.5 0.0 1.0) twoChains_size (show 0 < 10 by omega) twoChains_last
    fun _ _ => rfl

end Markov

section Record

/-- A proposal that is accepted, or is judged against a state with its step size and temperature. -/
def InForce (proposed last : State V F) (rand : F) : Prop :=
  acceptProposal proposed last proposed.beta rand = true ∨
    (last.sigma = proposed.sigma ∧ last.beta = proposed.beta)

variable [Sub V] [Inhabited V] [Proposal P V F]

/-- **What is recorded is in force** if and only if the proposal is accepted or the last state has the
step size and temperature of the chain. Then the adapter of the step sizes is given those of the
proposal. -/
theorem record_in_force_iff (jobTypes : List ℕ) {chains : ChainArray V F} (proposal : P)
    {sigmaAdapter : RegressionAdapter F} (betaAdapter : RegressionAdapter F) {swapInterval : ℕ}
    (hsize : chains.ntemps * chains.nstacks < 2 ^ 32) (hint : 0 < swapInterval)
    (hlast : ∀ i < chains.numTotalChains, ∃ state, chains.lastState i = .ok state)
    (hsigma : ∀ i < chains.numTotalChains, chains.sigma i = sigmaAdapter.values i) :
    (∀ (c : ChainArray V F) id sample energy rand now c' accepted last,
      c.append id sample energy rand now = .ok (c', accepted) → c.lastState id = .ok last →
      ∃ state, c'.lastState id = .ok state ∧
        (state.sigma = c.sigma id ∧ state.beta = c.beta id ↔
          InForce ⟨sample, energy, c.sigma id, c.beta id, false, .noAttempt⟩ last rand)) ∧
    ∃ s₀, Sampler.init jobTypes chains proposal sigmaAdapter betaAdapter swapInterval = .ok s₀ ∧
      ∀ is s, Reach Sampler.next (fun _ _ => True) s₀ is s →
        ∀ id logval sideData accepted t, Call.update id logval sideData accepted :: t <:+ s.calls →
          ∃ sample energy rand last sigma beta t',
            t = .append id sample energy rand last sigma beta :: t' ∧
            Call.proposed id t' = some (last, sigma, sample) ∧
            (InForce ⟨sample, energy, sigma, beta, false, .noAttempt⟩ last rand →
              logval = Double.log sigma ∧ sideData = -Double.log beta) := by
  refine ⟨?_, ?_⟩
  · intro c id sample energy rand now c' accepted last happ hc
    obtain ⟨c'', accepted', happ', hacc, -, -, -, -, hself, -⟩ :=
      ChainArray.append_ok hc sample energy rand now
    rw [happ] at happ'
    cases happ'
    refine ⟨_, hself, (ChainArray.recorded_iff _ last accepted).trans ?_⟩
    rw [hacc]
    rfl
  · obtain ⟨s₀, h₀, hinv₀⟩ :=
      Sampler.init_ok True jobTypes proposal sigmaAdapter betaAdapter hint.ne'
        (ChainArray.numTotalChains_of_lt hsize) hlast fun _ => hsigma
    refine ⟨s₀, h₀, ?_⟩
    intro is s hrun id logval sideData accepted t ht
    have hcalls := (Sampler.run_inv hinv₀ hrun).good.calls
    obtain ⟨sample, energy, rand, last, sigma, beta, t', rfl, hacc, hlog, hside⟩ := hcalls.sound ht
    -- before the append there is a retrieve, and before it the proposal
    obtain ⟨request, results, t'', rfl, -, -, -, -, width, hprop, hwidth⟩ :=
      hcalls.sound ((List.suffix_cons _ _).trans ht)
    refine ⟨sample, energy, rand, last, sigma, beta, _, rfl, hwidth trivial ▸ hprop, ?_⟩
    intro hforce
    obtain ⟨h1, h2⟩ :=
      (ChainArray.recorded_iff ⟨sample, energy, sigma, beta, false, .noAttempt⟩ last accepted).2
      (hacc ▸ hforce)
    rw [hlog, hside, h1, h2]
    exact ⟨rfl, rfl⟩

theorem record_in_force_twoChains :
    ∃ s₀, Sampler.init [0] twoChains () (.init 1 2 0.5 0.0 1.0) (.init 1 2 0.5 0.0 1.0) 10 = .ok s₀ ∧
      ∀ is s, Reach Sampler.next (fun _ _ => True) s₀ is s →
        ∀ id logval sideData accepted t, Call.update id logval sideData accepted :: t <:+ s.calls →
          ∃ sample energy rand last sigma beta t',
            t = .append id sample energy rand last sigma beta :: t' ∧
            Call.proposed id t' = some (last, sigma, sample) ∧
            (InForce ⟨sample, energy, sigma, beta, false, .noAttempt⟩ last rand →
              logval = Double.log sigma ∧ sideData = -Double.log beta) :=
  (record_in_force_iff [0] () (.init 1 2 0.5 0.0 1.0) twoChains_size (show 0 < 10 by omega)
    twoChains_last fun _ _ => rfl).2

/-- A proposal with step size 2 is rejected, and the state that is recorded says that it was 1. -/
theorem rejection_records_old_sigma :
    ∃ (c c' : ChainArray ℝ ℝ) (accepted : Bool) (state : State ℝ ℝ),
      [ChainArray.Op.initialise 0 0 0 1 1, .setSigma 0 2].foldlM ChainArray.apply
      (ChainArray.init 1 1 0) = .ok c ∧
      c.append 0 1 1 0.9 0 = .ok (c', accepted) ∧ c'.lastState 0 = .ok state ∧
      accepted = false ∧ state.sigma = 1 ∧ c.sigma 0 = 2 := by
  have hexp : Real.exp (-1) < 0.9 := by
    rw [Real.exp_neg]
    have h : (Real.exp 1)⁻¹ < 2⁻¹ := inv_strictAnti₀ two_pos (by linarith [Real.exp_one_gt_d9])
    linarith
  obtain ⟨c, hc, hlast, hsigma, hbeta⟩ : ∃ c : ChainArray ℝ ℝ,
      [ChainArray.Op.initialise 0 0 0 1 1,
        .setSigma 0 2].foldlM ChainArray.apply (ChainArray.init 1 1 0) = .ok c ∧
      c.lastState 0 = .ok ⟨0, 0, 1, 1, true, .noAttempt⟩ ∧ c.sigma 0 = 2 ∧ c.beta 0 = 1 :=
        ⟨_, rfl, rfl, rfl, rfl⟩
  obtain ⟨c', accepted, happ, hacc, -, -, -, -, hself, -⟩ := ChainArray.append_ok hlast 1 1 0.9 0
  have hrejected : accepted = false := by
    rw [hacc, hbeta]
    have hprob : (-(1.0 : ℝ) * 1 * (1 - 0)) = -1 := by norm_num
    simp only [acceptProposal, Double.isInf, Double.lt, Double.exp, Bool.false_eq_true, if_false, hprob,
      decide_eq_false_iff_not, not_lt]
    exact hexp.le
  refine ⟨c, c', accepted, _, hc, happ, hself, hrejected, ?_, hsigma⟩
  rw [hrejected]
  rfl

end Record

end Stateline
