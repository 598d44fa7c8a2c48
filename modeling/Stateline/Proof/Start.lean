import Stateline.App.RunSampler
import Stateline.Proof.Step

/-!
# The start of a run

What `runSampler` hands to its main loop: every chain has its initial state, and
the temperatures of each stack are the ladder that the adapter predicts.

* `RunSampler.start_ok`: **the start returns**, in the invariant of the sampler, when the chains are
  whole stacks (`Whole`). They always are, unless their number does not fit a `uint`.
* `RunSampler.whole_of_start`: otherwise it does not return.
-/

namespace Stateline

open Lib

variable {P V F : Type} [Double F]

namespace RegressionAdapter

variable (a : RegressionAdapter F)

/-- The adapter once the temperatures of all stacks that begin below `n` are computed. -/
def ladder (T n : ℕ) : RegressionAdapter F :=
  { a with
    values := fun j =>
      if j % T ≠ 0 ∧ j / T * T < n then Double.exp (a.logBetas (j % T)) else a.values j }

/-- The predictions do not depend on the values. -/
theorem logBetas_values (values : ℕ → F) (n : ℕ) :
    ({ a with values } : RegressionAdapter F).logBetas n = a.logBetas n := by
  induction n with
  | zero => rfl
  | succ n ih =>
    rw [logBetas, logBetas, ih]
    rfl

/-- The next stack. -/
theorem ladder_stack {T n : ℕ} (hT : a.nTemps = T) (hpos : 0 < T) (hn : n % T = 0) :
    (a.ladder T n).computeBetaStack n = a.ladder T (n + 1) := by
  have hnT : n / T * T = n := Nat.div_mul_cancel (Nat.dvd_of_mod_eq_zero hn)
  rw [computeBetaStack_eq]
  unfold ladder
  simp only [logBetas_values]
  congr 1
  funext j
  have hj := Nat.div_add_mod j T
  rw [Nat.mul_comm] at hj
  have hlt := Nat.mod_lt j hpos
  by_cases hstack : j / T = n / T
  · rw [hstack, hnT] at hj ⊢
    -- a chain of the new stack
    have hiff : (n < j ∧ j < n + a.nTemps) ↔ j % T ≠ 0 := by
      rw [hT]
      omega
    have hsub : j - n = j % T := by omega
    simp only [hiff, hsub, Nat.lt_irrefl, and_false, if_false, Nat.lt_succ_self, and_true]
  -- a chain of another stack keeps its value
  · have hne : j / T * T ≠ n := by
      intro he
      exact hstack (by rw [← he, Nat.mul_div_cancel _ hpos])
    have hout : ¬ (n < j ∧ j < n + a.nTemps) := by
      rw [hT]
      rintro ⟨h1, h2⟩
      exact hstack (Cascade.above_coldest hn h1 h2).1
    have hiff : j / T * T < n + 1 ↔ j / T * T < n := by omega
    simp only [hout, if_false, hiff]

/-- A chain that is not the coldest adds nothing. -/
theorem ladder_same {T n : ℕ} (hn : n % T ≠ 0) : a.ladder T (n + 1) = a.ladder T n := by
  unfold ladder
  congr 1
  funext j
  have hne : j / T * T ≠ n := by
    rintro rfl
    rw [Nat.mul_mod_left] at hn
    exact hn rfl
  have hiff : j / T * T < n + 1 ↔ j / T * T < n := by omega
  simp only [hiff]

/-- The value of a chain is final once its stack was begun. -/
theorem ladder_values {T n m j : ℕ} (hj : j < n) (hnm : n ≤ m) :
    (a.ladder T m).values j = (a.ladder T n).values j := by
  have hle := Nat.div_mul_le_self j T
  have h1 : j / T * T < m ↔ j / T * T < n := by omega
  simp only [ladder, h1]

end RegressionAdapter

/-- The number of chains, a `uint`, is that of a number of whole stacks. -/
def StatelineSettings.Whole {F : Type} (s : StatelineSettings F) : Prop := s.ntemps ∣ s.numChains

theorem StatelineSettings.numChains_of_lt {F : Type} {s : StatelineSettings F}
    (h : s.nstacks * s.ntemps < 2 ^ 32) : s.numChains = s.ntemps * s.nstacks :=
  (Nat.mod_eq_of_lt h).trans (Nat.mul_comm _ _)

theorem StatelineSettings.whole_of_lt {F : Type} {s : StatelineSettings F}
    (h : s.nstacks * s.ntemps < 2 ^ 32) : s.Whole :=
  ⟨s.nstacks, numChains_of_lt h⟩

namespace RunSampler

variable {settings : StatelineSettings F} {betaAdapter : RegressionAdapter F} {S : ℕ}

/-- The temperatures of a whole stack are all values of chains. -/
theorem initBetas_ok (hwhole : settings.Whole) {i : ℕ} (hi : i < settings.numChains) :
    initBetas settings betaAdapter i = .ok
      (if i % settings.ntemps = 0 then betaAdapter.computeBetaStack i else betaAdapter) := by
  unfold initBetas
  split
  · rename_i hcold
    have hdvd := Nat.dvd_of_mod_eq_zero hcold
    rw [if_pos (Nat.le_of_lt_add_of_dvd (Nat.add_lt_add_right hi _) (hdvd.add dvd_rfl) hwhole)]
  · rfl

/-- The first `n` chains have their initial states and temperatures. -/
structure Begun (settings : StatelineSettings F) (n : ℕ) (c : ChainArray V F)
    (betaAdapter : RegressionAdapter F) :
    Prop where
  ntemps : c.ntemps = settings.ntemps
  nstacks : c.nstacks = settings.nstacks
  last : ∀ j < n, ∃ state, (c.cache j).getLast? = some state
  beta : ∀ j < n, c.beta j = betaAdapter.values j
  refines : ∃ a, Refines c a

omit [Double F] in
theorem Begun.total {n : ℕ} {c : ChainArray V F} (hb : Begun settings n c betaAdapter) :
    c.numTotalChains = settings.numChains := by
  rw [ChainArray.numTotalChains_eq, hb.ntemps, hb.nstacks, Nat.mul_comm]
  rfl

/-- The loop over the chains, after `n` rounds. -/
theorem initialise_loop (hwhole : settings.Whole) (hT : betaAdapter.nTemps = settings.ntemps)
    (samples : ℕ → V × F) (sigmaAdapter : RegressionAdapter F) (now : ℤ) {n : ℕ}
    (hn : n ≤ settings.numChains) :
    ∃ c, (List.range n).foldlM (initialise settings samples sigmaAdapter)
        (ChainArray.init settings.nstacks settings.ntemps now, betaAdapter) =
        .ok (c, betaAdapter.ladder settings.ntemps n) ∧
      Begun settings n c (betaAdapter.ladder settings.ntemps n) := by
  induction n with
  | zero =>
    refine ⟨.init settings.nstacks settings.ntemps now, ?_, rfl, rfl,
      fun j hj => (Nat.not_lt_zero j hj).elim,
      fun j hj => (Nat.not_lt_zero j hj).elim, _, ChainArray.refines_init _ _ _⟩
    simp only [List.range_zero, List.foldlM_nil, RegressionAdapter.ladder, Nat.not_lt_zero,
      and_false, if_false]
    rfl
  | succ n ih =>
    obtain ⟨c, hc, hb⟩ := ih (by omega)
    have hpos : 0 < settings.ntemps := by
      rw [Nat.pos_iff_ne_zero]
      intro h0
      rw [StatelineSettings.numChains, h0, Nat.mul_zero, Nat.zero_mod] at hn
      exact Nat.not_succ_le_zero n hn
    -- the first `n` chains have all the temperatures they will have
    have hladder :
        (if n % settings.ntemps = 0 then (betaAdapter.ladder settings.ntemps n).computeBetaStack n
        else betaAdapter.ladder settings.ntemps n) = betaAdapter.ladder settings.ntemps (n + 1) := by
      split
      · rename_i hcold
        exact betaAdapter.ladder_stack hT hpos hcold
      · rename_i hcold
        exact (betaAdapter.ladder_same hcold).symm
    -- the index is checked against the number of chains
    have hcheck : c.check n = .ok () := by
      refine if_pos ?_
      rw [hb.total]
      exact hn
    rw [List.range_succ, List.foldlM_append, hc, ok_bind, List.foldlM_cons, initialise]
    dsimp only
    rw [initBetas_ok hwhole hn, ok_bind, hladder, ChainArray.initialise_eq, hcheck]
    refine ⟨_, rfl, hb.ntemps, hb.nstacks, ?_, ?_, ?_⟩
    · intro j hj
      rcases eq_or_ne j n with rfl | hne
      · simp only [Function.update_self, List.getLast?_concat]
        exact ⟨_, rfl⟩
      · simp only [Function.update_of_ne hne]
        exact hb.last j (by omega)
    · intro j hj
      rcases eq_or_ne j n with rfl | hne
      · simp only [Function.update_self]
      · simp only [Function.update_of_ne hne]
        rw [hb.beta j (by omega), betaAdapter.ladder_values (n := n) (by omega) (Nat.le_succ n)]
    · obtain ⟨a, ha⟩ := hb.refines
      have hop := ChainArray.initialise_eq c n (samples n).1 (samples n).2 (sigmaAdapter.values n)
        ((betaAdapter.ladder settings.ntemps (n + 1)).values n)
      rw [hcheck, ok_bind] at hop
      obtain ⟨a', -, ha'⟩ := ChainArray.refines_step ha
        (show c.apply (.initialise n (samples n).1 (samples n).2 (sigmaAdapter.values n) _) = .ok _
          from hop)
      exact ⟨a', ha'⟩

variable [Inhabited V] [Proposal P V F]

/-- **The start returns**, with the temperatures of the adapter, when the chains are `S` stacks. -/
theorem start_ok (hS : settings.numChains = settings.ntemps * S) (hint : settings.swapInterval ≠ 0)
    (sigmaAdapter : RegressionAdapter F)
    {betaAdapter : RegressionAdapter F} (hT : betaAdapter.nTemps = settings.ntemps) (proposal : P)
    (samples : ℕ → V × F) (now : ℤ) :
    ∃ s₀ : Sampler P V F, start settings sigmaAdapter betaAdapter proposal samples now = .ok s₀ ∧
      Sampler.Inv False settings.ntemps S s₀ ∧
      s₀.betaAdapter = betaAdapter.ladder settings.ntemps settings.numChains ∧
      (∀ j < settings.numChains, s₀.chains.beta j = s₀.betaAdapter.values j) ∧
      (∃ a, Refines s₀.chains a) ∧ s₀.swapInterval = settings.swapInterval ∧
        (∀ j, s₀.locked j = false) ∧ s₀.chains.nstacks = settings.nstacks ∧
      s₀.cascade.flight = (List.range settings.numChains).map (settings.numChains - · - 1) := by
  obtain ⟨c, hc, hb⟩ := initialise_loop ⟨S, hS⟩ hT samples sigmaAdapter now le_rfl
  have hN := hb.total
  obtain ⟨s₀, h₀, hinv⟩ := Sampler.init_ok False (List.range settings.nJobTypes) proposal sigmaAdapter
    (betaAdapter.ladder settings.ntemps settings.numChains) hint
    (show c.numTotalChains = c.ntemps * S by rw [hN, hb.ntemps, hS])
    (fun j hj => by
      obtain ⟨state, hstate⟩ := hb.last j (hN ▸ hj)
      exact ⟨state, ChainArray.lastState_eq_ok.2 ⟨hj, hstate⟩⟩)
    fun h => h.elim
  obtain ⟨hchains, -, hbeta, hinterval, hlocked⟩ := Sampler.init_effect h₀
  rw [hb.ntemps] at hinv
  refine ⟨s₀, ?_, hinv, hbeta, ?_, by rw [hchains]; exact hb.refines, hinterval, hlocked,
    by rw [hchains, hb.nstacks], by rw [Sampler.init_flight h₀, hN]⟩
  · rw [start]
    dsimp only
    rw [hc, ok_bind]
    exact h₀
  · intro j hj
    rw [hchains, hbeta]
    exact hb.beta j hj

/-- **The start of chains that are not whole stacks does not return**: the temperatures of the last
stack are more than there are chains. -/
theorem whole_of_start {sigmaAdapter betaAdapter : RegressionAdapter F} {proposal : P}
    {samples : ℕ → V × F} {now : ℤ} {s₀ : Sampler P V F}
    (h : start settings sigmaAdapter betaAdapter proposal samples now = .ok s₀) : settings.Whole := by
  obtain ⟨⟨c, b⟩, hloop, -⟩ := bind_eq_ok h
  rcases Nat.eq_zero_or_pos settings.ntemps with h0 | hpos
  · -- without temperatures there are no chains
    refine ⟨0, ?_⟩
    rw [StatelineSettings.numChains, h0, Nat.mul_zero, Nat.zero_mod, Nat.mul_zero]
  · by_contra hno
    have hmod : 0 < settings.numChains % settings.ntemps :=
      Nat.pos_of_ne_zero fun h0 => hno (Nat.dvd_of_mod_eq_zero h0)
    have hdiv := Nat.div_add_mod settings.numChains settings.ntemps
    -- the coldest chain of the last stack
    obtain ⟨⟨c₁, b₁⟩, p, hround⟩ := foldlM_mem hloop
      (a := settings.ntemps * (settings.numChains / settings.ntemps)) (List.mem_range.2 (by omega))
    obtain ⟨b₂, hbetas, -⟩ := bind_eq_ok hround
    have hlt := Nat.mod_lt settings.numChains hpos
    unfold initBetas at hbetas
    rw [if_pos (Nat.mul_mod_right _ _), if_neg (by omega)] at hbetas
    cases hbetas

end RunSampler

end Stateline
