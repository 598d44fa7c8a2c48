import Stateline.App.Settings
import Stateline.Proof.Fold
import Stateline.Proof.Outstanding
import Stateline.Proof.Start
import Stateline.Proof.Stride
import Stateline.Proof.Temperatures
import Stateline.Proof.Within

/-!
# Defined arithmetic

Which of the configurations that `fromJSON` accepts run without undefined arithmetic, in exact
arithmetic. All that is compared there is the dimension of the bounds.

* `MainLoop.init_returns_iff`: **when the start returns** (`Startable`). The chains have to be whole
  stacks, which they need not be when their number does not fit a `uint`.
* `MainLoop.defined_iff`: **a run with small draws is defined** when it starts and has a swap interval,
  and any run is when the points that it draws can also be folded (`Foldable`).
* `MainLoop.undefined_runs`: accepted configurations with the interval zero, and with too many chains.
-/

namespace Stateline

open Lib

/-! ## The start -/

theorem Drawn.propose_snd {d : ℕ} (p : Drawn ℝ d) (id : ℕ) (x : Fin d → ℝ) (sigma : ℝ) :
    (Proposal.propose p id x sigma).2 = p.drawn (p.point id x sigma) := by
  dsimp only [Proposal.propose]
  split <;> rfl

/-- **The constructor returns** when some width is not zero. -/
theorem Drawn.init_returns_iff {d : ℕ} {bounds : ProposalBounds ℝ d} {initLength : ℕ}
    {draws : ℕ → Fin d → ℝ} : (∃ p, Drawn.init bounds initLength draws = .ok p) ↔
      d = 0 ∨ ∃ k, bounds.min k ≠ bounds.max k := by
  have hnorm : ProposalShaper.norm (ProposalShaper.quarters bounds) = 0 ↔
      ∀ k, bounds.min k = bounds.max k := by
    rw [ProposalShaper.norm_eq, Real.sqrt_eq_zero (Finset.sum_nonneg fun k _ => sq_nonneg _),
      Finset.sum_eq_zero_iff_of_nonneg fun k _ => sq_nonneg _]
    simp only [Finset.mem_univ, true_imp_iff, ProposalShaper.quarters, sq_eq_zero_iff, div_eq_zero_iff,
      OfNat.ofNat_ne_zero, or_false, sub_eq_zero]
    exact forall_congr' fun k => eq_comm
  unfold Drawn.init
  dsimp only
  rw [ProposalShaper.quarters_eq]
  simp only [isZero_iff, hnorm]
  split
  · rename_i h
    exact iff_of_false (by rintro ⟨_, hp⟩; cases hp) (by simpa [not_or] using h)
  · rename_i h
    exact iff_of_true ⟨_, rfl⟩ (by simpa [or_iff_not_imp_left] using h)

/-- The dimension of the bounds is the one thing that is compared. -/
theorem proposalBoundsFromJSON_dims {F : Type} {j : Json F} {p : (ndims : ℕ) × ProposalBounds F ndims}
    (h : proposalBoundsFromJSON j = some p) :
    ∃ vmin vmax, j.min = some vmin ∧ j.max = some vmax ∧ vmin.length = p.1 ∧ vmax.length = p.1 := by
  obtain ⟨vmin, hmin, h⟩ := Option.bind_eq_some_iff.1 h
  obtain ⟨vmax, hmax, h⟩ := Option.bind_eq_some_iff.1 h
  split at h
  · rename_i hlen
    cases h
    exact ⟨vmin, vmax, hmin, hmax, hlen, rfl⟩
  · cases h

theorem fromJSON_dims {F : Type} {j : Json F} {s : Settings F} (h : fromJSON j = some s) :
    ∃ vmin vmax, j.min = some vmin ∧ j.max = some vmax ∧
      vmin.length = s.ndims ∧ vmax.length = s.ndims := by
  simp only [fromJSON, Option.bind_eq_bind, Option.bind_eq_some_iff] at h
  obtain ⟨_, -, _, -, _, -, _, -, _, -, _, -, _, -, _, -, _, -, useInitial, -, h⟩ := h
  -- the initial point is read, or there is none
  have hbounds : ∃ p, proposalBoundsFromJSON j = some p ∧ p.1 = s.ndims := by
    split at h
    all_goals
      obtain ⟨initial, -, h⟩ := Option.bind_eq_some_iff.1 h
      obtain ⟨p, hp, h⟩ := Option.bind_eq_some_iff.1 h
      cases h
      exact ⟨p, hp, rfl⟩
  obtain ⟨p, hp, hdims⟩ := hbounds
  rw [← hdims]
  exact proposalBoundsFromJSON_dims hp

namespace Settings

variable {s : Settings ℝ} {random : Fin s.ndims → ℝ}

/-- A configuration that can be started: the chains are whole stacks, some width is not zero, and the
initial points of the chains have the dimension of the bounds and can be folded. -/
structure Startable (s : Settings ℝ) (c : Chance ℝ s.ndims) : Prop where
  whole : s.Whole
  widths : s.ndims = 0 ∨ ∃ k, s.proposalBounds.min k ≠ s.proposalBounds.max k
  initial : 0 < s.numChains → s.useInitial = true →
    ∃ h : s.initial.length = s.ndims, ∀ k,
      Foldable (s.initial.get (k.cast h.symm)) (s.proposalBounds.min k) (s.proposalBounds.max k)
  random : s.useInitial = false → ∀ n < s.numChains, ∀ k,
    Foldable (c.random n k) (s.proposalBounds.min k) (s.proposalBounds.max k)

theorem generateInitialSample_returns_iff : (∃ v, s.generateInitialSample random = .ok v) ↔
    (s.useInitial = true → ∃ h : s.initial.length = s.ndims, ∀ k,
      Foldable (s.initial.get (k.cast h.symm)) (s.proposalBounds.min k) (s.proposalBounds.max k)) ∧
    (s.useInitial = false → ∀ k,
      Foldable (random k) (s.proposalBounds.min k) (s.proposalBounds.max k)) := by
  unfold generateInitialSample initialPoint
  by_cases huse : s.useInitial = true
  · by_cases hlen : s.initial.length = s.ndims
    · simp only [huse, hlen, if_true, dif_pos, ok_bind, foldBounds_returns_iff]
      simp
    · simp only [huse, hlen, if_true, dif_neg, not_false_eq_true, error_bind]
      simp
  · rw [Bool.not_eq_true] at huse
    simp only [huse, Bool.false_eq_true, if_false, ok_bind, foldBounds_returns_iff]
    simp

/-- **The initial samples** are all there, or none. -/
theorem initialSamples_returns_iff {random : ℕ → Fin s.ndims → ℝ} :
    (∃ v, s.initialSamples random = .ok v) ↔
      ∀ n < s.numChains, ∃ v, s.generateInitialSample (random n) = .ok v := by
  unfold initialSamples
  simp only [foldlM_update_eq_ok List.nodup_range, List.mem_range]
  constructor
  · rintro ⟨v, hv, -⟩ n hn
    exact ⟨v n, hv n hn⟩
  · intro h
    choose v hv using h
    refine ⟨fun n => if hn : n < s.numChains then v n hn else fun _ => 0.0, ?_, ?_⟩
    · intro n hn
      dsimp only
      rw [dif_pos hn]
      exact hv n hn
    · intro n hn
      exact dif_neg hn

end Settings

section Start

variable {P V F : Type} [Double F] [Inhabited V] [Proposal P V F]

omit [Double F] in
/-- The constructor of the sampler returns, whatever the interval is. -/
theorem Sampler.init_returns (jobTypes : List ℕ) {chains : ChainArray V F} (proposal : P)
    (sigmaAdapter betaAdapter : RegressionAdapter F) (swapInterval : ℕ)
    (hlast : ∀ i < chains.numTotalChains, ∃ state, chains.lastState i = .ok state) :
    ∃ s, Sampler.init jobTypes chains proposal sigmaAdapter betaAdapter swapInterval = .ok s := by
  refine (foldlM_ok (P := fun s : Sampler P V F => s.chains = chains) ?_ rfl).imp fun s hs => hs.1
  intro s hs i hi
  rw [List.mem_range] at hi
  obtain ⟨state, hstate⟩ := hlast (chains.numTotalChains - i - 1) (by omega)
  unfold propose
  rw [hs, hstate]
  exact ⟨_, rfl, rfl⟩

/-- The sampler at its start: nothing is locked, and every chain has a request, the hottest first. -/
structure RunSampler.Started (settings : StatelineSettings F) (s₀ : Sampler P V F) : Prop where
  ready : s₀.Ready
  ntemps : s₀.chains.ntemps = settings.ntemps
  interval : s₀.swapInterval = settings.swapInterval
  locked : ∀ j, s₀.locked j = false
  flight : s₀.cascade.flight = (List.range settings.numChains).map (settings.numChains - · - 1)

/-- **`runSampler` returns**, whatever the interval is, when the chains are whole stacks. -/
theorem RunSampler.runSampler_returns {settings : StatelineSettings F} (hwhole : settings.Whole)
    (proposal : P) (samples : ℕ → V × F) (now : ℤ) :
    ∃ s₀ : Sampler P V F, runSampler settings proposal samples now = .ok s₀ ∧ Started settings s₀ := by
  have hT : (betaAdapter settings).nTemps = settings.ntemps := rfl
  obtain ⟨c, hc, hb⟩ := initialise_loop hwhole hT samples (sigmaAdapter settings) now le_rfl
  have hN := hb.total
  obtain ⟨s₀, h₀⟩ := Sampler.init_returns (List.range settings.nJobTypes) proposal
    (sigmaAdapter settings)
    ((betaAdapter settings).ladder settings.ntemps settings.numChains)
    settings.swapInterval fun j hj => by
      obtain ⟨state, hstate⟩ := hb.last j (hN ▸ hj)
      exact ⟨state, ChainArray.lastState_eq_ok.2 ⟨hj, hstate⟩⟩
  obtain ⟨hchains, -, -, hinterval, hlocked⟩ := Sampler.init_effect h₀
  refine ⟨s₀, ?_, Sampler.init_ready h₀, by rw [hchains, hb.ntemps], hinterval, hlocked, ?_⟩
  · rw [runSampler, start]
    dsimp only
    rw [hc, ok_bind]
    exact h₀
  · rw [Sampler.init_flight h₀, hN]

end Start

/-! ## Steps -/

namespace Sampler

variable {P V F : Type} [Double F] [Proposal P V F] {s : Sampler P V F} {i : Input F}

/-- The result of an outstanding request is recorded. -/
theorem answer_returns [Sub V] (h : Ready s) {r : SampleRequest V}
    (hr : s.requester[i.index]? = some r) : ∃ s', s.answer i = .ok (s', r.id) := by
  obtain ⟨last, hlast⟩ := h.last r (List.mem_of_getElem? hr)
  obtain ⟨c', accepted, happ, -, hst, htm, -, -, hself, -⟩ :=
    ChainArray.append_ok hlast (s.propStates r.id) (energyOf i.results) i.acceptRand i.now
  have hcheck : c'.check r.id = .ok () := if_pos (ChainArray.lastState_eq_ok.1 hself).1
  unfold answer retrieve
  rw [hr]
  simp only [ok_bind, hlast, append, happ, pure_bind, hself, adapt, ChainArray.setSigma, hcheck]
  exact ⟨_, rfl⟩

/-- A step waits for a result that never comes. -/
theorem step_none [Sub V] (hr : s.requester[i.index]? = none) : s.step i = .error .blocked := by
  unfold step retrieve
  rw [hr]
  rfl

/-- **The remainder of the division by zero**, at the result of a chain that is the hottest and waits
for no swap. -/
theorem step_zero [Sub V] (h : Ready s) {r : SampleRequest V} (hr : s.requester[i.index]? = some r)
    (hlocked : s.locked r.id = false) (hhot : r.id % s.chains.ntemps = s.chains.ntemps - 1)
    (hint : s.swapInterval = 0) : s.step i = .error .undefined := by
  obtain ⟨s₁, h₁⟩ := answer_returns h hr
  have ha := answer_effect h₁
  have hhot₁ : s₁.chains.isHottestInStack r.id = true := by
    refine decide_eq_true ?_
    rw [ChainArray.chainIndex, ChainArray.numTemps_eq, ha.ntemps, hhot]
  have hproceed : s₁.proceed r.id i = .error .undefined := by
    unfold proceed
    rw [ha.locked, hlocked, if_neg Bool.false_ne_true, hhot₁, if_pos rfl, ha.interval, if_pos hint]
  rw [step_eq, report, h₁, ok_bind]
  dsimp only
  rw [hproceed]
  rfl

omit [Proposal P V F] in
/-- `flush` waits for ever, or returns. -/
theorem flush_defined (h : Ready s) (is : List (Input F)) : s.flush is ≠ .error .undefined := by
  unfold flush
  dsimp only
  split
  · simp
  · rcases collect_loop (s := { s with haveFlushed := true }) h.last is with hblocked | ⟨s', hs', -⟩
    · rw [hblocked]
      exact nofun
    · rw [hs']
      exact nofun

end Sampler

namespace MainLoop

variable {s : Settings ℝ} {c : Chance ℝ s.ndims} {m₀ m m' : MainLoop ℝ s.ndims}

/-- What the main loop starts with. -/
theorem init_eq_ok (h : MainLoop.init s c = .ok m₀) : m₀.nsamples = 0 ∧ ∃ p samples,
    Drawn.init s.proposalBounds 1000 c.draws = .ok p ∧ s.initialSamples c.random = .ok samples ∧
      RunSampler.runSampler s.toStatelineSettings p (fun i => (samples i, c.energies i)) c.now =
        .ok m₀.sampler := by
  obtain ⟨p, hp, h⟩ := bind_eq_ok h
  obtain ⟨samples, hsamples, h⟩ := bind_eq_ok h
  obtain ⟨s₀, h₀, h⟩ := bind_eq_ok h
  cases h
  exact ⟨rfl, p, samples, hp, hsamples, h₀⟩

/-- A run that starts has whole stacks. -/
theorem init_whole (h : MainLoop.init s c = .ok m₀) : s.Whole := by
  obtain ⟨-, p, samples, -, -, h₀⟩ := init_eq_ok h
  exact RunSampler.whole_of_start h₀

/-- The sampler of the main loop at its start. -/
theorem init_started (h : MainLoop.init s c = .ok m₀) :
    RunSampler.Started s.toStatelineSettings m₀.sampler := by
  obtain ⟨-, p, samples, -, -, h₀⟩ := init_eq_ok h
  obtain ⟨s₀, h₁, hstarted⟩ := RunSampler.runSampler_returns (init_whole h) p
    (fun i => (samples i, c.energies i)) c.now
  rw [h₁] at h₀
  cases h₀
  exact hstarted

/-- **When the start returns.** -/
theorem init_returns_iff : (∃ m₀, MainLoop.init s c = .ok m₀) ↔ s.Startable c := by
  constructor
  · rintro ⟨m₀, h⟩
    obtain ⟨-, p, samples, hp, hsamples, -⟩ := init_eq_ok h
    have hall := Settings.initialSamples_returns_iff.1 ⟨samples, hsamples⟩
    refine ⟨init_whole h, Drawn.init_returns_iff.1 ⟨p, hp⟩, ?_, ?_⟩
    · intro hpos huse
      exact (Settings.generateInitialSample_returns_iff.1 (hall 0 hpos)).1 huse
    · intro huse n hn
      exact (Settings.generateInitialSample_returns_iff.1 (hall n hn)).2 huse
  · intro h
    obtain ⟨p, hp⟩ := Drawn.init_returns_iff.2 h.widths
    obtain ⟨samples, hsamples⟩ := Settings.initialSamples_returns_iff.2 fun n hn =>
      Settings.generateInitialSample_returns_iff.2
        ⟨h.initial (Nat.zero_lt_of_lt hn), fun huse => h.random huse n hn⟩
    obtain ⟨s₀, h₀, -⟩ := RunSampler.runSampler_returns h.whole p
      (fun i => (samples i, c.energies i)) c.now
    refine ⟨⟨s₀, 0⟩, ?_⟩
    unfold MainLoop.init
    rw [hp, ok_bind, hsamples, ok_bind, h₀]
    rfl

/-! ## Runs -/

/-- **Nothing undefined happened or comes next**: `bouncyBounds` could fold each point, neither a step
nor the flush at the end is undefined, and the chain of an answer is not divided by zero. -/
structure WellDefined (s : Settings ℝ) (m : MainLoop ℝ s.ndims) : Prop where
  folded : ∀ v ∈ m.sampler.proposal.points, ∃ r, foldBounds v m.sampler.proposal.gaussian.bounds.min
    m.sampler.proposal.gaussian.bounds.max = .ok r
  step : m.nsamples < s.nsamples → ∀ i, m.sampler.step i ≠ .error .undefined
  divisor : m.nsamples < s.nsamples → ∀ i out, m.sampler.step i = .ok out → s.ntemps ≠ 0
  flush : ∀ is, m.sampler.flush is ≠ .error .undefined

/-- The states of a run of `runSampler` whose steps get the inputs `is`. -/
def Visits (s : Settings ℝ) (c : Chance ℝ s.ndims) (is : List (Input ℝ))
    (m : MainLoop ℝ s.ndims) : Prop :=
  ∃ m₀ js, MainLoop.init s c = .ok m₀ ∧ js <+: is ∧ Reach (next s) (fun _ _ => True) m₀ js m

/-- **A run without undefined arithmetic**: it starts, and all its states are well defined. -/
def Defined (s : Settings ℝ) (c : Chance ℝ s.ndims) (is : List (Input ℝ)) : Prop :=
  (∃ m₀, MainLoop.init s c = .ok m₀) ∧ ∀ m, Visits s c is m → WellDefined s m

variable {i : Input ℝ} {is js : List (Input ℝ)}

/-- A round of the main loop is a step. -/
theorem next_step (h : next s m i = some m') :
    m.nsamples < s.nsamples ∧ m.sampler.next i = some m'.sampler := by
  unfold next at h
  split at h
  · rename_i hlt
    refine ⟨hlt, ?_⟩
    unfold Sampler.next
    cases hstep : m.sampler.step i with
    | error f =>
      rw [hstep] at h
      cases h
    | ok out =>
      rw [hstep] at h
      cases h
      rfl
  · cases h

/-- The steps of a run of the main loop are a run of the sampler. -/
theorem reach_sampler (h : Reach (next s) (fun _ _ => True) m₀ js m) :
    Reach Sampler.next (fun _ _ => True) m₀.sampler js m.sampler := by
  induction h with
  | start => exact .start
  | next _ _ hs ih => exact .next ih trivial (next_step hs).2

/-- What the calls of a run keep, and the start has, holds in the run. -/
theorem reach_within {Q : Drawn ℝ s.ndims → Prop} {X : (Fin s.ndims → ℝ) → Prop}
    {A : RegressionAdapter ℝ → Prop} (hc : Sampler.Closed Q X A) (h₀ : MainLoop.init s c = .ok m₀)
    (hQ : ∀ p, Drawn.init s.proposalBounds 1000 c.draws = .ok p → Q p)
    (hA : A (RunSampler.sigmaAdapter s.toStatelineSettings))
    (hX : ∀ n < s.numChains, ∀ v, s.generateInitialSample (c.random n) = .ok v → X v)
    (h : Reach (next s) (fun _ _ => True) m₀ js m) : Sampler.Within Q X A m.sampler := by
  obtain ⟨-, p, samples, hp, hsamples, hstart⟩ := init_eq_ok h₀
  have hsample := ((foldlM_update_eq_ok List.nodup_range).1 hsamples).1
  have hw₀ : Sampler.Within Q X A m₀.sampler := RunSampler.start_within hc (hQ p hp) hA
    (fun n hn => hX n hn _ (hsample n (List.mem_range.2 hn))) hstart
  exact (reach_sampler h).invariant (P := fun _ s => Sampler.Within Q X A s) hw₀
    fun _ _ _ _ _ hw _ hs => Sampler.within_next hc hw hs

/-- The bounds are the same in the whole run. -/
theorem bounds_of_reach (h₀ : MainLoop.init s c = .ok m₀)
    (h : Reach (next s) (fun _ _ => True) m₀ js m) :
    m.sampler.proposal.gaussian.bounds = s.proposalBounds := by
  have hc : Sampler.Closed (V := Fin s.ndims → ℝ) (F := ℝ)
      (fun p : Drawn ℝ s.ndims => p.gaussian.bounds = s.proposalBounds) (fun _ => True)
      fun _ => True := by
    refine ⟨fun id j hQ _ _ => ⟨trivial, ?_⟩, fun _ _ hQ => hQ, fun _ _ _ _ _ => trivial,
      fun _ _ _ => trivial⟩
    rw [Drawn.propose_snd]
    exact hQ
  refine (reach_within hc h₀ ?_ trivial (fun _ _ _ _ => trivial) h).proposal
  intro p hp
  unfold Drawn.init at hp
  dsimp only at hp
  split at hp
  · cases hp
  · cases hp
    rfl

theorem ready_of_reach (h₀ : MainLoop.init s c = .ok m₀)
    (h : Reach (next s) (fun _ _ => True) m₀ js m) : m.sampler.Ready :=
  (reach_sampler h).invariant (P := fun _ s => s.Ready) (init_started h₀).ready
    fun _ _ _ _ _ hr _ hs => Sampler.next_ready hr hs

/-- The invariant of the sampler, with an interval. -/
theorem inv_of_reach (h₀ : MainLoop.init s c = .ok m₀) (hint : s.swapInterval ≠ 0)
    (h : Reach (next s) (fun _ _ => True) m₀ js m) :
    ∃ S, Sampler.Inv False s.ntemps S m.sampler := by
  obtain ⟨-, p, samples, -, -, hstart⟩ := init_eq_ok h₀
  obtain ⟨S, hS⟩ := init_whole h₀
  obtain ⟨s₀, hs₀, hinv, -⟩ := RunSampler.start_ok hS
    (show s.toStatelineSettings.swapInterval ≠ 0 from hint)
    (RunSampler.sigmaAdapter s.toStatelineSettings)
    (show (RunSampler.betaAdapter s.toStatelineSettings).nTemps = s.toStatelineSettings.ntemps
      from rfl) p
    (fun i => (samples i, c.energies i)) c.now
  rw [RunSampler.runSampler, hs₀] at hstart
  cases hstart
  exact ⟨S, Sampler.run_inv hinv (reach_sampler h)⟩

/-- Without chains there is never a request. -/
theorem requester_of_reach (h₀ : MainLoop.init s c = .ok m₀) (hnone : s.numChains = 0)
    (h : Reach (next s) (fun _ _ => True) m₀ js m) : m.sampler.requester = [] := by
  refine h.invariant (P := fun _ m => m.sampler.requester = []) ?_ ?_
  · have hflight := (init_started h₀).flight
    rw [hnone] at hflight
    exact List.map_eq_nil_iff.1 hflight
  · intro _ m i m' _ hm _ hs
    have hstep : m.sampler.step i = .error .blocked := Sampler.step_none (by rw [hm]; rfl)
    have hnext := (next_step hs).2
    rw [Sampler.next, hstep] at hnext
    cases hnext

/-- **The steps of a run are defined** when there is no chain, nothing to sample, or an interval. -/
theorem step_defined (h₀ : MainLoop.init s c = .ok m₀) (h : Reach (next s) (fun _ _ => True) m₀ js m)
    (hint : s.numChains = 0 ∨ s.nsamples = 0 ∨ s.swapInterval ≠ 0)
    (hlt : m.nsamples < s.nsamples) (i : Input ℝ) :
    m.sampler.step i = .error .blocked ∨ s.ntemps ≠ 0 ∧ ∃ out, m.sampler.step i = .ok out := by
  cases hr : m.sampler.requester[i.index]? with
  | none => exact .inl (Sampler.step_none hr)
  | some r =>
    rcases hint with hnone | hzero | hint
    · rw [requester_of_reach h₀ hnone h] at hr
      cases hr
    · omega
    · obtain ⟨S, hinv⟩ := inv_of_reach h₀ hint h
      obtain ⟨state, hlast⟩ := (ready_of_reach h₀ h).last r (List.mem_of_getElem? hr)
      have hid := (ChainArray.lastState_eq_ok.1 hlast).1
      rw [hinv.total] at hid
      obtain ⟨s', out, hstep, -⟩ := Sampler.step_ok hinv i (List.getElem?_eq_some_iff.1 hr).1
      exact .inr ⟨(Nat.pos_of_mul_pos_right (Nat.zero_lt_of_lt hid)).ne', _, hstep⟩

/-- **A state of a run is well defined** when the steps are and all points can be folded. -/
theorem wellDefined_of_foldable (h₀ : MainLoop.init s c = .ok m₀)
    (h : Reach (next s) (fun _ _ => True) m₀ js m)
    (hint : s.numChains = 0 ∨ s.nsamples = 0 ∨ s.swapInterval ≠ 0)
    (hfold : ∀ v ∈ m.sampler.proposal.points, ∀ k,
      Foldable (v k) (s.proposalBounds.min k) (s.proposalBounds.max k)) : WellDefined s m := by
  refine ⟨?_, ?_, ?_, Sampler.flush_defined (ready_of_reach h₀ h)⟩
  · rw [bounds_of_reach h₀ h]
    intro v hv
    exact foldBounds_returns_iff.2 (hfold v hv)
  · intro hlt i hundef
    rcases step_defined h₀ h hint hlt i with hblocked | ⟨-, out, hok⟩
    · rw [hblocked] at hundef
      cases hundef
    · rw [hok] at hundef
      cases hundef
  · intro hlt i out hok
    rcases step_defined h₀ h hint hlt i with hblocked | ⟨hT, -⟩
    · rw [hblocked] at hok
      cases hok
    · exact hT

/-- **The first result of the hottest chain** is divided by the interval. -/
theorem not_wellDefined_of_zero (h₀ : MainLoop.init s c = .ok m₀) (hchains : s.numChains ≠ 0)
    (hsamples : s.nsamples ≠ 0) (hint : s.swapInterval = 0) : ¬ WellDefined s m₀ := by
  obtain ⟨hready, hT, hinterval, hlocked, hflight⟩ := init_started h₀
  have hpos : 0 < s.numChains := Nat.pos_of_ne_zero hchains
  -- the first request is that of the last chain
  have hfirst : (m₀.sampler.requester.map (·.id))[0]? = some (s.numChains - 1) := by
    show m₀.sampler.cascade.flight[0]? = _
    rw [hflight, List.getElem?_map, List.getElem?_range hpos]
    rfl
  rw [List.getElem?_map] at hfirst
  obtain ⟨r, hr, hid⟩ := Option.map_eq_some_iff.1 hfirst
  have hhot : r.id % m₀.sampler.chains.ntemps = m₀.sampler.chains.ntemps - 1 := by
    rw [hid, hT]
    obtain ⟨_ | S, hS⟩ := init_whole h₀
    · exact absurd hS hchains
    have hntemps : 0 < s.ntemps := Nat.pos_of_mul_pos_right (hS ▸ hpos)
    have hlast : s.numChains - 1 = S * s.ntemps + (s.ntemps - 1) := by
      rw [hS, Nat.mul_succ, Nat.mul_comm]
      omega
    rw [hlast, Nat.mul_add_mod_self_right, Nat.mod_eq_of_lt (by omega)]
  intro hwell
  refine hwell.step ?_ ⟨0, [], 0, 0, 0⟩
    (Sampler.step_zero hready hr (hlocked _) hhot (hinterval.trans hint))
  rw [(init_eq_ok h₀).1]
  exact Nat.pos_of_ne_zero hsamples

end MainLoop

/-! ## Small draws -/

/-- The step sizes are at most the largest that the adapter predicts. -/
structure Scaled (a : RegressionAdapter ℝ) : Prop where
  minCap : a.minCap ≤ a.maxCap
  maxCap : a.maxCap = 4
  values : ∀ j, a.values j ∈ Set.Icc 0 (Real.exp 4)

/-- **Small draws**: times the stride and the largest step size, none is `2 ^ 31` widths. -/
def SmallDraws {d : ℕ} (bounds : ProposalBounds ℝ d) (draws : ℕ → Fin d → ℝ) : Prop :=
  ∀ n k, ProposalShaper.stride bounds * ProposalShaper.norm (draws n) * Real.exp 4 <
    2 ^ 31 * (bounds.max k - bounds.min k)

/-- A proposal with small draws, which has folded its points. -/
structure Tame {d : ℕ} (bounds : ProposalBounds ℝ d) (p : Drawn ℝ d) : Prop where
  same : p.gaussian.bounds = bounds
  propNorm : p.gaussian.proposalShape.propNorm = ProposalShaper.norm (ProposalShaper.quarters bounds)
  shape : p.gaussian.proposalShape.Bounded (ProposalShaper.stride bounds)
  draws : SmallDraws bounds p.draws
  points : ∀ v ∈ p.points, ∀ k, Foldable (v k) (bounds.min k) (bounds.max k)

/-- **A point with a small draw can be folded.** -/
theorem Tame.foldable {d : ℕ} {bounds : ProposalBounds ℝ d} {p : Drawn ℝ d} (h : Tame bounds p)
    (hb : ∀ k, bounds.min k < bounds.max k) {x : Fin d → ℝ}
    (hx : ∀ k, x k ∈ Set.Icc (bounds.min k) (bounds.max k)) {sigma : ℝ}
    (hsigma : sigma ∈ Set.Icc 0 (Real.exp 4)) (id : ℕ) (k : Fin d) :
    Foldable (p.point id x sigma k) (bounds.min k) (bounds.max k) := by
  have hpoint : p.point id x sigma k =
      x k + (∑ l, p.gaussian.proposalShape.N id k l * p.draws 0 l) * sigma := by
    show x k + (List.finRange d).foldl
      (fun acc l => acc + p.gaussian.proposalShape.N id k l * p.draws 0 l) 0.0 * sigma = _
    rw [foldl_finRange_add]
    norm_num
  rw [hpoint]
  refine foldable_of_step (hb k) (hx k) ?_
  calc |(∑ l, p.gaussian.proposalShape.N id k l * p.draws 0 l) * sigma| =
        |∑ l, p.gaussian.proposalShape.N id k l * p.draws 0 l| * sigma := by
        rw [abs_mul, abs_of_nonneg hsigma.1]
    _ ≤ ProposalShaper.stride bounds * ProposalShaper.norm (p.draws 0) * Real.exp 4 :=
        mul_le_mul (h.shape id k _) hsigma.2 hsigma.1 ((abs_nonneg _).trans (h.shape id k _))
    _ < 2 ^ 31 * (bounds.max k - bounds.min k) := h.draws 0 k

/-- **The calls of a run keep draws small**, samples in the box and step sizes bounded. -/
theorem tame_closed {d : ℕ} {bounds : ProposalBounds ℝ d} (hb : ∀ k, bounds.min k < bounds.max k) :
    Sampler.Closed (V := Fin d → ℝ) (F := ℝ) (Tame bounds)
      (fun x => ∀ k, x k ∈ Set.Icc (bounds.min k) (bounds.max k)) Scaled := by
  refine ⟨?_, ?_, ?_, ?_⟩
  · intro p a x id j hp ha hx
    have hfold := hp.foldable hb hx (ha.values j) id
    obtain ⟨r, hr⟩ := foldBounds_returns_iff.2 hfold
    refine ⟨?_, ?_⟩
    · dsimp only [Proposal.propose]
      rw [hp.same, hr]
      exact mem_of_foldBounds hb hr
    · rw [Drawn.propose_snd]
      refine ⟨hp.same, hp.propNorm, hp.shape, fun n => hp.draws (n + 1), ?_⟩
      intro v hv
      rcases List.mem_cons.1 hv with rfl | hv
      · exact hfold
      · exact hp.points v hv
  · intro p id stepv hp
    exact ⟨hp.same, hp.propNorm, ProposalShaper.bounded_update hp.shape hp.propNorm stepv, hp.draws,
      hp.points⟩
  · intro a id logval sideData acc ha
    exact ⟨ha.minCap, ha.maxCap, ha.values⟩
  · intro a id t ha
    refine ⟨ha.minCap, ha.maxCap, ?_⟩
    intro j
    rw [RegressionAdapter.computeSigma_values]
    rcases eq_or_ne j id with rfl | hne
    · rw [Function.update_self]
      refine ⟨(Real.exp_pos _).le, Real.exp_le_exp.2 ?_⟩
      exact (RegressionAdapter.predict_le_maxCap ha.minCap _ _).trans ha.maxCap.le
    · rw [Function.update_of_ne hne]
      exact ha.values j

namespace MainLoop

variable {s : Settings ℝ} {c : Chance ℝ s.ndims} {is : List (Input ℝ)} {m : MainLoop ℝ s.ndims}

/-- **With small draws all points can be folded**, in every run. -/
theorem foldable_of_small (hb : ∀ k, s.proposalBounds.min k < s.proposalBounds.max k)
    (hdraws : SmallDraws s.proposalBounds c.draws) (h : Visits s c is m) :
    ∀ v ∈ m.sampler.proposal.points, ∀ k,
      Foldable (v k) (s.proposalBounds.min k) (s.proposalBounds.max k) := by
  obtain ⟨m₀, js, h₀, -, hrun⟩ := h
  have hadapter : Scaled (RunSampler.sigmaAdapter s.toStatelineSettings) := by
    refine ⟨?_, ?_, ?_⟩
    · show (-8.0 : ℝ) ≤ 4.0
      norm_num
    · show (4.0 : ℝ) = 4
      norm_num
    · intro j
      show (1.0 : ℝ) ∈ Set.Icc 0 (Real.exp 4)
      refine ⟨by norm_num, ?_⟩
      calc (1.0 : ℝ) ≤ 4 + 1 := by norm_num
        _ ≤ Real.exp 4 := Real.add_one_le_exp 4
  refine (reach_within (tame_closed hb) h₀ ?_ hadapter ?_ hrun).proposal.points
  · intro p hp
    unfold Drawn.init at hp
    dsimp only at hp
    split at hp
    · cases hp
    · cases hp
      exact ⟨rfl, ProposalShaper.propNorm_init, ProposalShaper.bounded_init hb, hdraws,
        fun v hv => (List.not_mem_nil hv).elim⟩
  · intro n _ v hv
    obtain ⟨x, -, hv⟩ := bind_eq_ok hv
    exact mem_of_foldBounds hb hv

/-- **A run with small draws is defined** if and only if it starts and its interval is not zero, unless
there is no chain or nothing to sample, whatever the results are. In general each point that it draws
has to be one that can be folded, too: `fromJSON` makes sure of the dimension of the bounds, and of
nothing else. -/
theorem defined_iff {j : Json ℝ} (hj : fromJSON j = some s) (c : Chance ℝ s.ndims)
    (is : List (Input ℝ)) :
    (∃ vmin vmax, j.min = some vmin ∧ j.max = some vmax ∧
      vmin.length = s.ndims ∧ vmax.length = s.ndims) ∧
    ((∀ k, s.proposalBounds.min k < s.proposalBounds.max k) → SmallDraws s.proposalBounds c.draws →
      (Defined s c is ↔
        s.Startable c ∧ (s.numChains = 0 ∨ s.nsamples = 0 ∨ s.swapInterval ≠ 0))) ∧
    (Defined s c is ↔
      s.Startable c ∧ (s.numChains = 0 ∨ s.nsamples = 0 ∨ s.swapInterval ≠ 0) ∧
        ∀ m, Visits s c is m → ∀ v ∈ m.sampler.proposal.points, ∀ k,
          Foldable (v k) (s.proposalBounds.min k) (s.proposalBounds.max k)) := by
  have hiff : Defined s c is ↔
      s.Startable c ∧ (s.numChains = 0 ∨ s.nsamples = 0 ∨ s.swapInterval ≠ 0) ∧
        ∀ m, Visits s c is m → ∀ v ∈ m.sampler.proposal.points, ∀ k,
          Foldable (v k) (s.proposalBounds.min k) (s.proposalBounds.max k) := by
    constructor
    · rintro ⟨⟨m₀, h₀⟩, hwell⟩
      refine ⟨init_returns_iff.1 ⟨m₀, h₀⟩, ?_, ?_⟩
      · by_contra hno
        simp only [not_or, not_not] at hno
        exact not_wellDefined_of_zero h₀ hno.1 hno.2.1 hno.2.2
          (hwell m₀ ⟨m₀, [], h₀, List.nil_prefix, .start⟩)
      · intro m hm v hv
        obtain ⟨m₀, js, h₀, -, hrun⟩ := id hm
        rw [← bounds_of_reach h₀ hrun]
        exact foldBounds_returns_iff.1 ((hwell m hm).folded v hv)
    · rintro ⟨hstart, hint, hfold⟩
      refine ⟨init_returns_iff.2 hstart, ?_⟩
      intro m hm
      obtain ⟨m₀, js, h₀, -, hrun⟩ := id hm
      exact wellDefined_of_foldable h₀ hrun hint (hfold m hm)
  refine ⟨fromJSON_dims hj, ?_, hiff⟩
  intro hb hdraws
  rw [hiff]
  -- small draws can always be folded
  have hfold : ∀ m, Visits s c is m → ∀ v ∈ m.sampler.proposal.points, ∀ k,
      Foldable (v k) (s.proposalBounds.min k) (s.proposalBounds.max k) :=
    fun m hm => foldable_of_small hb hdraws hm
  exact ⟨fun h => ⟨h.1, h.2.1⟩, fun h => ⟨h.1, h.2, hfold⟩⟩

/-- Chains between 0 and 1, which start at 0. -/
noncomputable def box (nStacks nTemperatures swapInterval : ℕ) : Json ℝ where
  nStacks := some nStacks
  nTemperatures := some nTemperatures
  nSamplesTotal := some 10
  swapInterval := some swapInterval
  loggingRateSec := some 1
  nJobTypes := some 1
  outputPath := some []
  optimalAcceptRate := some 0.234
  optimalSwapRate := some 0.3
  useInitial := some true
  initial := some [0]
  min := some [0]
  max := some [1]

/-- What is read from it. -/
noncomputable def boxSettings (nStacks nTemperatures swapInterval : ℕ) : Settings ℝ where
  nstacks := nStacks % 2 ^ 32
  ntemps := nTemperatures % 2 ^ 32
  nJobTypes := 1
  swapInterval := swapInterval % 2 ^ 32
  optimalAcceptRate := 0.234
  optimalSwapRate := 0.3
  nsamples := 10
  useInitial := true
  initial := [0]
  ndims := 1
  proposalBounds := ⟨fun i => [0].get i, fun i => [1].get i⟩

variable (nStacks nTemperatures swapInterval : ℕ)

theorem fromJSON_box : fromJSON (box nStacks nTemperatures swapInterval) =
    some (boxSettings nStacks nTemperatures swapInterval) := rfl

/-- Nothing is random. -/
def still : Chance ℝ 1 := ⟨fun _ _ => 0, fun _ => 0, fun _ _ => 0, 0⟩

theorem box_bounds (k : Fin 1) :
    (boxSettings nStacks nTemperatures swapInterval).proposalBounds.min k = 0 ∧
      (boxSettings nStacks nTemperatures swapInterval).proposalBounds.max k = 1 := by
  rw [Fin.fin_one_eq_zero k]
  exact ⟨rfl, rfl⟩

theorem box_small : SmallDraws (boxSettings nStacks nTemperatures swapInterval).proposalBounds
    still.draws := by
  intro n k
  have hnorm : ProposalShaper.norm (still.draws n) = 0 := by
    rw [ProposalShaper.norm_eq]
    simp [still]
  rw [(box_bounds _ _ _ k).1, (box_bounds _ _ _ k).2]
  show _ * ProposalShaper.norm (still.draws n) * _ < _
  rw [hnorm]
  norm_num

/-- It can be started with whole stacks. -/
theorem box_startable (h : (boxSettings nStacks nTemperatures swapInterval).Whole) :
    (boxSettings nStacks nTemperatures swapInterval).Startable still := by
  refine ⟨h, .inr ⟨(0 : Fin 1), ?_⟩, fun _ _ => ⟨rfl, ?_⟩, ?_⟩
  · rw [(box_bounds _ _ _ 0).1, (box_bounds _ _ _ 0).2]
    norm_num
  · intro k
    rw [(box_bounds _ _ _ k).1, (box_bounds _ _ _ k).2]
    have hzero : (boxSettings nStacks nTemperatures swapInterval).initial.get k = 0 := by
      have hk : k = (0 : Fin 1) := Fin.fin_one_eq_zero k
      rw [hk]
      rfl
    show Foldable ((boxSettings nStacks nTemperatures swapInterval).initial.get k) 0 1
    rw [hzero]
    exact foldable_of_inRange one_pos ⟨by norm_num, by norm_num⟩
  · intro h
    cases h

theorem defined_iff_oneChain : Defined (boxSettings 1 1 10) still [⟨0, [1], 0, 0, 0⟩] := by
  refine ((defined_iff (fromJSON_box 1 1 10) still [⟨0, [1], 0, 0, 0⟩]).2.1 ?_ ?_).2
    ⟨box_startable _ _ _ (StatelineSettings.whole_of_lt (by decide)), .inr (.inr ?_)⟩
  · intro k
    rw [(box_bounds 1 1 10 k).1, (box_bounds 1 1 10 k).2]
    exact one_pos
  · exact box_small 1 1 10
  · show 10 % 2 ^ 32 ≠ 0
    norm_num

/-- **What is accepted, and not defined**: with the swap interval zero the run starts, and its first
result is divided by zero. 1000 stacks of 4294968 temperatures are 704 chains, and the temperatures
of the first stack are written beyond them. -/
theorem undefined_runs :
    (fromJSON (box 1 1 0) = some (boxSettings 1 1 0) ∧ (boxSettings 1 1 0).Startable still ∧
      ¬ Defined (boxSettings 1 1 0) still []) ∧
    fromJSON (box 1000 4294968 10) = some (boxSettings 1000 4294968 10) ∧
      (boxSettings 1000 4294968 10).numChains = 704 ∧
      ¬ Defined (boxSettings 1000 4294968 10) still [] := by
  refine ⟨⟨fromJSON_box 1 1 0, box_startable _ _ _ (StatelineSettings.whole_of_lt (by decide)), ?_⟩,
    fromJSON_box _ _ _, by decide, ?_⟩
  · rintro ⟨⟨m₀, h₀⟩, hwell⟩
    exact not_wellDefined_of_zero h₀ (by decide) (by decide) rfl
      (hwell m₀ ⟨m₀, [], h₀, List.nil_prefix, .start⟩)
  · rintro ⟨⟨m₀, h₀⟩, -⟩
    have hwhole : 4294968 ∣ 704 := init_whole h₀
    norm_num at hwhole

end MainLoop

end Stateline
