import Stateline.App.RunSampler
import Stateline.Proof.Step

/-!
# What a run stays within

A proposal, samples and step sizes with properties that each call keeps (`Closed`) have them
in every state of a run (`Within`): the samples of a run are initial samples and proposals, and
the step sizes are those that the adapter computes.

* `within_next`: **a step stays within**, and so does the start (`start_within`).
-/

namespace Stateline

open Lib

variable {P V F : Type}

/-! ## Last states -/

namespace ChainArray

variable {c c' : ChainArray V F} {state last : State V F} {id i : ℕ}

/-- The last state of a chain after one was replaced. -/
theorem lastState_setBack_eq_ok (h : (c.setBack id state).lastState i = .ok last) :
    last = state ∨ c.lastState i = .ok last := by
  rcases eq_or_ne i id with rfl | hi
  · left
    have hlast := (lastState_eq_ok.1 h).2
    simp only [setBack, Function.update_self, List.getLast?_concat, Option.some.injEq] at hlast
    exact hlast.symm
  · right
    rw [← h, lastState_setBack_of_ne state hi]

/-- The samples after a swap are those before it. -/
theorem swap_samples [Double F] {id1 id2 : ℕ} {rand : F} {swapType : SwapType}
    (h : c.swap id1 id2 rand = .ok (c', swapType)) (hi : c'.lastState i = .ok last) :
    ∃ j state, c.lastState j = .ok state ∧ last.sample = state.sample := by
  obtain ⟨high, hhigh, h⟩ := bind_eq_ok h
  obtain ⟨low, hlow, h⟩ := bind_eq_ok h
  dsimp only at h
  split at h
  · obtain ⟨rfl, -⟩ := ok_pair_inj h
    rcases lastState_setBack_eq_ok hi with rfl | hi
    · exact ⟨_, high, hhigh, rfl⟩
    · rcases lastState_setBack_eq_ok hi with rfl | hi
      · exact ⟨_, low, hlow, rfl⟩
      · exact ⟨i, last, hi, rfl⟩
  · obtain ⟨rfl, -⟩ := ok_pair_inj h
    rcases lastState_setBack_eq_ok hi with rfl | hi
    · exact ⟨_, low, hlow, rfl⟩
    · exact ⟨i, last, hi, rfl⟩

end ChainArray

/-! ## Steps -/

namespace Sampler

variable [Double F]

/-- Properties of the proposal, the samples and the adapter of the step sizes that the calls keep. -/
structure Closed [Proposal P V F] (Q : P → Prop) (X : V → Prop) (A : RegressionAdapter F → Prop) :
    Prop where
  propose : ∀ {p : P} {a : RegressionAdapter F} {x : V} (id j : ℕ), Q p → A a → X x →
    X (Proposal.propose p id x (a.values j)).1 ∧ Q (Proposal.propose p id x (a.values j)).2
  update : ∀ {p : P} (id : ℕ) (stepv : V), Q p → Q (Proposal.update F p id stepv)
  adapt : ∀ {a : RegressionAdapter F} (id : ℕ) (logval sideData : F) (acc : Bool), A a →
    A (a.update id logval sideData acc)
  compute : ∀ {a : RegressionAdapter F} (id : ℕ) (t : F), A a → A (a.computeSigma id t).1

/-- The properties in a state: of the last samples, and of the samples that are asked for. -/
structure Within (Q : P → Prop) (X : V → Prop) (A : RegressionAdapter F → Prop) (s : Sampler P V F) :
    Prop where
  proposal : Q s.proposal
  adapter : A s.sigmaAdapter
  last : ∀ id state, s.chains.lastState id = .ok state → X state.sample
  requested : ∀ r ∈ s.requester, X (s.propStates r.id)

variable {Q : P → Prop} {X : V → Prop} {A : RegressionAdapter F → Prop} {s s' : Sampler P V F} {id : ℕ}
    {i : Input F}

variable [Proposal P V F]

theorem propose_within (hc : Closed (F := F) Q X A) (h : Within Q X A s) (hp : s.propose id = .ok s') :
    Within Q X A s' := by
  obtain ⟨last, hlast, hp⟩ := bind_eq_ok hp
  cases hp
  obtain ⟨hsample, hproposal⟩ := hc.propose id id h.proposal h.adapter (h.last id last hlast)
  refine ⟨hproposal, h.adapter, h.last, ?_⟩
  intro r hr
  dsimp only
  rcases eq_or_ne r.id id with he | hne
  · rw [he, Function.update_self]
    exact hsample
  · rw [Function.update_of_ne hne]
    rcases List.mem_append.1 hr with hr | hr
    · exact h.requested r hr
    · rw [List.mem_singleton.1 hr] at hne
      exact absurd rfl hne

theorem unlock_within (hc : Closed (F := F) Q X A) (h : Within Q X A s) (hu : s.unlock id = .ok s') :
    Within Q X A s' := by
  obtain ⟨s₁, h₁, hu⟩ := bind_eq_ok hu
  have hw₁ : Within Q X A s₁ := propose_within hc
    (s := { s with locked := Function.update s.locked id false })
    ⟨h.proposal, h.adapter, h.last, h.requested⟩ h₁
  split at hu
  · cases hu
    exact ⟨hw₁.proposal, hw₁.adapter, hw₁.last, hw₁.requested⟩
  · exact propose_within hc hw₁ hu

theorem swap_within (hc : Closed (F := F) Q X A) (h : Within Q X A s) (hs : s.swap id i = .ok s') :
    Within Q X A s' := by
  obtain ⟨⟨c₁, swapType⟩, hswap, hs⟩ := bind_eq_ok hs
  obtain ⟨s₂, h₂, hs⟩ := bind_eq_ok hs
  obtain ⟨c₃, h₃, hs⟩ := bind_eq_ok hs
  cases hs
  have hw₂ : Within Q X A s₂ := unlock_within hc (s := { s with chains := c₁ })
    ⟨h.proposal, h.adapter, fun j state hj => by
      obtain ⟨j', state', hj', he⟩ := ChainArray.swap_samples hswap hj
      rw [he]
      exact h.last j' state' hj', h.requested⟩ h₂
  obtain ⟨-, -, h₃⟩ := bind_eq_ok h₃
  cases h₃
  exact ⟨hw₂.proposal, hw₂.adapter, hw₂.last, hw₂.requested⟩

theorem proceed_within (hc : Closed (F := F) Q X A) (h : Within Q X A s)
    (hp : s.proceed id i = .ok s') : Within Q X A s' := by
  unfold proceed at hp
  split at hp
  · exact swap_within hc h hp
  · split at hp
    · split at hp
      · cases hp
      · split at hp
        · cases hp
          exact ⟨h.proposal, h.adapter, h.last, h.requested⟩
        · exact propose_within hc h hp
    · exact propose_within hc h hp

theorem answer_within [Sub V] (hc : Closed (F := F) Q X A) (h : Within Q X A s)
    (ha : s.answer i = .ok (s', id)) : Within Q X A s' := by
  have hans := answer_effect ha
  have hlast : ∀ j state, s'.chains.lastState j = .ok state → X state.sample := by
    intro j state hj
    rcases eq_or_ne j id with rfl | hne
    · obtain ⟨r, hr, hid⟩ := hans.request
      obtain ⟨last, hlast, hjudged⟩ := hans.last
      rw [hj] at hjudged
      injection hjudged with hjudged
      rw [hjudged, judged, recorded]
      split
      · have hx := h.requested r (List.mem_of_getElem? hr)
        rwa [hid] at hx
      · exact h.last j last hlast
    · rw [hans.others j hne] at hj
      exact h.last j state hj
  have hrequested : ∀ r ∈ s'.requester, X (s'.propStates r.id) := by
    intro r hr
    rw [hans.requester] at hr
    rw [hans.samples]
    exact h.requested r (List.mem_of_mem_eraseIdx hr)
  -- the proposal and the adapter change in `adapt`
  obtain ⟨⟨r, s₁⟩, h₁, ha⟩ := bind_eq_ok ha
  obtain ⟨previous, -, ha⟩ := bind_eq_ok ha
  obtain ⟨s₃, h₃, ha⟩ := bind_eq_ok ha
  obtain ⟨state, -, ha⟩ := bind_eq_ok ha
  obtain ⟨s₅, h₅, ha⟩ := bind_eq_ok ha
  obtain ⟨rfl, rfl⟩ := ok_pair_inj ha
  obtain ⟨-, rfl⟩ := retrieve_effect h₁
  obtain ⟨last, c₃, accepted, calls₃, _, _, rfl⟩ := append_effect h₃
  unfold adapt at h₅
  dsimp only at h₅
  obtain ⟨c₅, -, h₅⟩ := bind_eq_ok h₅
  cases h₅
  refine ⟨?_, hc.compute _ _ (hc.adapt _ _ _ _ h.adapter), hlast, hrequested⟩
  dsimp only
  split
  · exact hc.update _ _ h.proposal
  · exact h.proposal

/-- **A step stays within.** -/
theorem within_next [Sub V] (hc : Closed (F := F) Q X A) (h : Within Q X A s)
    (hs : s.next i = some s') : Within Q X A s' := by
  unfold next at hs
  rw [step_eq] at hs
  cases hrep : s.report i with
  | error f =>
    rw [hrep] at hs
    cases hs
  | ok p =>
    rw [hrep] at hs
    cases hs
    obtain ⟨⟨s₁, id⟩, h₁, hrep⟩ := bind_eq_ok hrep
    obtain ⟨s₂, h₂, hrep⟩ := bind_eq_ok hrep
    obtain ⟨state, -, hrep⟩ := bind_eq_ok hrep
    cases hrep
    exact proceed_within hc (answer_within hc h h₁) h₂

end Sampler

/-! ## The start -/

namespace RunSampler

variable [Double F] {settings : StatelineSettings F} {Q : P → Prop} {X : V → Prop}
    {A : RegressionAdapter F → Prop} {sigmaAdapter betaAdapter : RegressionAdapter F}
    {samples : ℕ → V × F}

/-- The last states after some rounds of the loop over the chains. -/
theorem initialise_samples {l : List ℕ} {p q : ChainArray V F × RegressionAdapter F}
    (hX : ∀ n ∈ l, X (samples n).1)
    (h : l.foldlM (initialise settings samples sigmaAdapter) p = .ok q)
    (hp : ∀ j state, p.1.lastState j = .ok state → X state.sample) :
    ∀ j state, q.1.lastState j = .ok state → X state.sample := by
  induction l generalizing p with
  | nil =>
    cases h
    exact hp
  | cons n l ih =>
    rw [List.foldlM_cons] at h
    obtain ⟨p₁, h₁, h⟩ := bind_eq_ok h
    obtain ⟨b₁, -, h₁⟩ := bind_eq_ok h₁
    obtain ⟨c₁, hc₁, h₁⟩ := bind_eq_ok h₁
    cases h₁
    refine ih (fun m hm => hX m (List.mem_cons_of_mem _ hm)) h ?_
    rw [ChainArray.initialise_eq] at hc₁
    obtain ⟨-, -, hc₁⟩ := bind_eq_ok hc₁
    cases hc₁
    intro j state hj
    obtain ⟨hlt, hlast⟩ := ChainArray.lastState_eq_ok.1 hj
    dsimp only at hlast
    rcases eq_or_ne j n with rfl | hne
    · simp only [Function.update_self, List.getLast?_concat, Option.some.injEq] at hlast
      rw [← hlast]
      exact hX j List.mem_cons_self
    · rw [Function.update_of_ne hne] at hlast
      exact hp j state (ChainArray.lastState_eq_ok.2 ⟨hlt, hlast⟩)

variable [Inhabited V] [Proposal P V F]

/-- **The start stays within.** -/
theorem start_within (hc : Sampler.Closed (F := F) Q X A) {proposal : P} {now : ℤ} {s₀ : Sampler P V F}
    (hQ : Q proposal) (hA : A sigmaAdapter)
    (hX : ∀ n < settings.numChains, X (samples n).1)
    (h : start settings sigmaAdapter betaAdapter proposal samples now = .ok s₀) :
    Sampler.Within Q X A s₀ := by
  obtain ⟨⟨c, b⟩, hinit, h⟩ := bind_eq_ok h
  have hlast : ∀ j state, c.lastState j = .ok state → X state.sample := by
    refine initialise_samples (fun n hn => hX n (List.mem_range.1 hn)) hinit ?_
    intro j state hj
    cases (ChainArray.lastState_eq_ok.1 hj).2
  refine foldlM_keeps (P := Sampler.Within Q X A)
    (fun _ _ _ hp hw => Sampler.propose_within hc hw hp) h ?_
  exact ⟨hQ, hA, hlast, fun r hr => (List.not_mem_nil hr).elim⟩

end RunSampler

end Stateline
