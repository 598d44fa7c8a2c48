import Stateline.Infer.Sampler
import Stateline.Proof.Record
import Stateline.Spec.Cascade

/-!
# Proposals in flight

Between steps, the sampler holds for each outstanding request the sample that
was submitted, drawn from what is still the last state of its chain with what is
still its step size (`Good`). Nothing that a step does to a chain touches one
that has a request outstanding.

* `step_ok`: **a step on an outstanding request returns**, keeps the invariant and
  moves the locks and jobs as `Cascade.proceed`.
* `flush_ok`: the same for `flush`.
-/

namespace Stateline

variable {P V F : Type}

/-! ## Traces -/

namespace Call

/-- The sample last submitted under an id. -/
def submitted (id : ℕ) : List (Call V F) → Option V
  | [] => none
  | .submit i _ sample :: t => if i = id then some sample else submitted id t
  | _ :: t => submitted id t

/-- The last proposal for a chain: from which state, with which step size, and the sample. -/
def proposed (id : ℕ) : List (Call V F) → Option (State V F × F × V)
  | [] => none
  | .propose i last sigma sample :: t => if i = id then some (last, sigma, sample) else proposed id t
  | _ :: t => proposed id t

/-- How many requests of a chain are submitted and not retrieved. -/
def outstanding (id : ℕ) : List (Call V F) → ℕ
  | [] => 0
  | .submit i _ _ :: t => if i = id then outstanding id t + 1 else outstanding id t
  | .retrieve request _ :: t => if request.id = id then outstanding id t - 1 else outstanding id t
  | _ :: t => outstanding id t

variable [Double F]

/-- What holds of a call after the calls before it; `tuned` tells that the chains started with the
step sizes of the adapter. -/
def Sound (tuned : Prop) : Call V F → List (Call V F) → Prop
  | .append id sample energy _ last sigma _, t =>
    ∃ request results t', t = .retrieve request results ::
      t' ∧ request.id = id ∧ request.data = sample ∧
      energy = Sampler.energyOf results ∧ submitted id t' = some sample ∧
      ∃ width, proposed id t' = some (last, width, sample) ∧ (tuned → width = sigma)
  | .update id logval sideData accepted, t =>
    ∃ sample energy rand last sigma beta t', t = .append id sample energy rand last sigma beta :: t' ∧
      accepted = acceptProposal ⟨sample, energy, sigma, beta, false, .noAttempt⟩ last beta rand ∧
      logval = Double.log (recorded ⟨sample, energy, sigma, beta, false,
        .noAttempt⟩ last accepted).sigma ∧
      sideData = -Double.log (recorded ⟨sample, energy, sigma, beta, false,
        .noAttempt⟩ last accepted).beta
  | .submit id _ _, t => outstanding id t = 0
  | _, _ => True

/-- Every call of a trace is sound. -/
def AllSound (tuned : Prop) : List (Call V F) → Prop
  | [] => True
  | call :: t => call.Sound tuned t ∧ AllSound tuned t

theorem AllSound.sound {tuned : Prop} {calls : List (Call V F)} (h : AllSound tuned calls)
    {call : Call V F} {t : List (Call V F)} (ht : call :: t <:+ calls) : call.Sound tuned t := by
  induction calls with
  | nil => simp at ht
  | cons c calls ih =>
    rcases List.suffix_cons_iff.1 ht with he | ht
    · injection he with h1 h2
      subst h1 h2
      exact h.1
    · exact ih h.2 ht

end Call

namespace Sampler

/-- The chains of the outstanding requests, and the locks. -/
def cascade (s : Sampler P V F) : Cascade := ⟨s.requester.map (·.id), s.locked⟩

variable {s s' : Sampler P V F} {id : ℕ} {tuned : Prop}

/-- The sampler holds the sample of an outstanding request, which is a proposal for the last state of
the chain with the step size of the chain. -/
structure InFlight (tuned : Prop) (s : Sampler P V F) (r : SampleRequest V) : Prop where
  data : s.propStates r.id = r.data
  submitted : Call.submitted r.id s.calls = some r.data
  proposed : ∃ last width, s.chains.lastState r.id = .ok last ∧
    Call.proposed r.id s.calls = some (last, width, r.data) ∧ (tuned → width = s.chains.sigma r.id)

/-- The parts of a step that leave the requests and locks alone. -/
structure Frame (s s' : Sampler P V F) : Prop where
  ntemps : s'.chains.ntemps = s.chains.ntemps
  nstacks : s'.chains.nstacks = s.chains.nstacks
  interval : s'.swapInterval = s.swapInterval
  requester : s'.requester = s.requester
  locked : s'.locked = s.locked
  jobs : s'.numOutstandingJobs = s.numOutstandingJobs

theorem Frame.total (hf : Frame s s') : s'.chains.numTotalChains = s.chains.numTotalChains := by
  rw [ChainArray.numTotalChains_eq, ChainArray.numTotalChains_eq, hf.ntemps, hf.nstacks]

theorem Frame.cascade (hf : Frame s s') : s'.cascade = s.cascade := by
  unfold Sampler.cascade
  rw [hf.requester, hf.locked]

theorem not_requested (hid : id ∉ s.cascade.flight) : ∀ r ∈ s.requester, r.id ≠ id :=
  fun r hr he => hid (List.mem_map.2 ⟨r, hr, he⟩)

variable [Double F]

structure Good (tuned : Prop) (s : Sampler P V F) : Prop where
  last : ∀ i < s.chains.numTotalChains, ∃ state, s.chains.lastState i = .ok state
  sigma : tuned → ∀ i < s.chains.numTotalChains, s.chains.sigma i = s.sigmaAdapter.values i
  flight : ∀ r ∈ s.requester, InFlight tuned s r
  calls : Call.AllSound tuned s.calls
  outstanding : ∀ i, Call.outstanding i s.calls = (s.requester.map (·.id)).count i

/-- What no step changes, and the jobs are counted. The chains are `S` whole stacks. -/
structure Sized (tuned : Prop) (T S : ℕ) (s : Sampler P V F) : Prop where
  good : Good tuned s
  ntemps : s.chains.ntemps = T
  total : s.chains.numTotalChains = T * S
  interval : s.swapInterval ≠ 0
  jobs : s.numOutstandingJobs = s.requester.length

/-- The locks, the counters and the temperatures do not matter to it. -/
theorem Good.congr (h : Good tuned s) (beta : ℕ → F) (betaAdapter : RegressionAdapter F)
    (locked : ℕ → Bool) (numOutstandingJobs : ℕ) (haveFlushed : Bool) :
    Good tuned { s with chains := { s.chains with beta }, betaAdapter, locked, numOutstandingJobs,
                        haveFlushed } := by
  refine ⟨h.last, h.sigma, ?_, h.calls, h.outstanding⟩
  intro r hr
  have hf := h.flight r hr
  exact ⟨hf.data, hf.submitted, hf.proposed⟩

theorem Sized.frame {T S : ℕ} (h : Sized tuned T S s) (hg : Good tuned s') (hf : Frame s s') :
    Sized tuned T S s' :=
  ⟨hg, hf.ntemps.trans h.ntemps, hf.total.trans h.total, by rw [hf.interval]; exact h.interval,
    by rw [hf.jobs, hf.requester]; exact h.jobs⟩

/-! ## What each part of a step does -/

theorem retrieve_ok (h : Good tuned s) {i : Input F} {r : SampleRequest V}
    (hr : s.requester[i.index]? = some r) :
    ∃ s', s.retrieve i = .ok (r, s') ∧ Good tuned s' ∧ InFlight tuned s' r ∧
      s'.calls = .retrieve r i.results :: s.calls ∧
      s'.requester = s.requester.eraseIdx i.index ∧ s'.chains = s.chains ∧ s'.locked = s.locked ∧
      s'.numOutstandingJobs = s.numOutstandingJobs ∧ s'.swapInterval = s.swapInterval := by
  have hmem : r ∈ s.requester := List.mem_of_getElem? hr
  refine ⟨{ s with requester := s.requester.eraseIdx i.index,
                   calls := .retrieve r i.results :: s.calls },
    by unfold retrieve; rw [hr], ⟨h.last, h.sigma, ?_, ⟨trivial, h.calls⟩, ?_⟩, ?_,
    rfl, rfl, rfl, rfl, rfl, rfl⟩
  · intro r' hr'
    have hf := h.flight r' (List.mem_of_mem_eraseIdx hr')
    exact ⟨hf.data, hf.submitted, hf.proposed⟩
  · intro j
    obtain ⟨hlt, hget⟩ := List.getElem?_eq_some_iff.1 hr
    have hperm := ((List.getElem_cons_eraseIdx_perm hlt).map (·.id)).count_eq j
    rw [hget, List.map_cons, List.count_cons, ← h.outstanding] at hperm
    simp only [Call.outstanding]
    split
    · rename_i he
      simp only [he, beq_self_eq_true, if_true] at hperm
      omega
    · rename_i he
      simp only [beq_iff_eq, he, if_false] at hperm
      omega
  · have hf := h.flight r hmem
    exact ⟨hf.data, hf.submitted, hf.proposed⟩

/-- **The sample of an answered request is appended** to the chain that it was drawn from. -/
theorem append_ok (h : Good tuned s) {r : SampleRequest V} {results : List F}
    {t : List (Call V F)} (hf : InFlight tuned s r) (hc : s.calls = .retrieve r results :: t)
    (hr : ∀ r' ∈ s.requester, r'.id ≠ r.id) (i : Input F) :
    ∃ s' last accepted, s.append r.id (energyOf results) i = .ok s' ∧ Good tuned s' ∧ Frame s s' ∧
      s.chains.lastState r.id = .ok last ∧
      accepted = acceptProposal ⟨s.propStates r.id, energyOf results, s.chains.sigma r.id,
        s.chains.beta r.id,
        false, .noAttempt⟩ last (s.chains.beta r.id) i.acceptRand ∧
      s'.chains.lastState r.id = .ok
        (recorded ⟨s.propStates r.id, energyOf results, s.chains.sigma r.id,
        s.chains.beta r.id, false, .noAttempt⟩ last accepted) ∧
      s'.calls = .append r.id (s.propStates r.id) (energyOf results) i.acceptRand last
        (s.chains.sigma r.id) (s.chains.beta r.id) :: s.calls := by
  obtain ⟨last, width, hlast, hprop, hwidth⟩ := hf.proposed
  obtain ⟨c', accepted, happ, hacc, hst, htm, hbeta, hsigma, hself, hothers⟩ :=
    ChainArray.append_ok hlast (s.propStates r.id) (energyOf results) i.acceptRand i.now
  have hN : c'.numTotalChains = s.chains.numTotalChains := by
    rw [ChainArray.numTotalChains_eq, ChainArray.numTotalChains_eq, hst, htm]
  refine ⟨{ s with
      chains := c'
      calls := .append r.id (s.propStates r.id) (energyOf results) i.acceptRand last
        (s.chains.sigma r.id)
        (s.chains.beta r.id) :: s.calls }, last, accepted, ?_, ?_, ⟨htm, hst, rfl, rfl, rfl, rfl⟩,
          hlast, hacc, hself, rfl⟩
  · unfold append
    rw [hlast, ok_bind, happ, ok_bind]
    rfl
  · refine ⟨?_, ?_, ?_, ⟨?_, h.calls⟩, h.outstanding⟩
    · intro j hj
      rcases eq_or_ne j r.id with rfl | hne
      · exact ⟨_, hself⟩
      · obtain ⟨state, hstate⟩ := h.last j (hN ▸ hj)
        exact ⟨state, (hothers j hne).trans hstate⟩
    · intro htuned j hj
      simp only [hsigma]
      exact h.sigma htuned j (hN ▸ hj)
    · intro r' hr'
      -- the other requests are for other chains
      obtain ⟨last', width', hlast', hprop', hwidth'⟩ := (h.flight r' hr').proposed
      refine ⟨(h.flight r' hr').data, (h.flight r' hr').submitted, last', width',
        (hothers _ (hr r' hr')).trans hlast', hprop', ?_⟩
      simp only [hsigma]
      exact hwidth'
    · have hsub := hf.submitted
      rw [hc] at hsub hprop
      rw [← hf.data] at hsub hprop
      exact ⟨r, results, t, hc, rfl, hf.data.symm, rfl, hsub, width, hprop, hwidth⟩

/-- The chain of a state just recorded gets a new step size, while no request of it is outstanding. -/
theorem adapt_ok [Sub V] [Proposal P V F] (h : Good tuned s) (hid : id < s.chains.numTotalChains)
    (hr : ∀ r ∈ s.requester, r.id ≠ id) (previousState state : State V F)
    (hcall : Call.Sound tuned (.update id (Double.log state.sigma)
      (-Double.log state.beta) state.accepted) s.calls) :
    ∃ s', s.adapt id previousState state = .ok s' ∧ Good tuned s' ∧ Frame s s' := by
  unfold adapt
  dsimp only
  rw [ChainArray.setSigma_ok hid, ok_bind]
  refine ⟨_, rfl, ⟨h.last, ?_, ?_, ⟨hcall, h.calls⟩, h.outstanding⟩,
    ⟨rfl, rfl, rfl, rfl, rfl, rfl⟩⟩
  · intro htuned j hj
    rw [RegressionAdapter.computeSigma_values]
    rcases eq_or_ne j id with rfl | hne
    · simp only [Function.update_self]
    · simp only [Function.update_of_ne hne]
      exact h.sigma htuned j hj
  · intro r hr'
    obtain ⟨last, width, hlast, hprop, hwidth⟩ := (h.flight r hr').proposed
    refine ⟨(h.flight r hr').data, (h.flight r hr').submitted, last, width, hlast, hprop, ?_⟩
    simp only [Function.update_of_ne (hr r hr')]
    exact hwidth

/-- **A proposal** is drawn from the last state of a chain with its step size. -/
theorem propose_ok [Proposal P V F] {T S : ℕ} (h : Sized tuned T S s) (hid : id < T * S)
    (hr : ∀ r ∈ s.requester, r.id ≠ id) :
    ∃ s', s.propose id = .ok s' ∧ Sized tuned T S s' ∧ s'.chains = s.chains ∧ s'.locked = s.locked ∧
      s'.requester.map (·.id) = s.requester.map (·.id) ++ [id] ∧ s'.betaAdapter = s.betaAdapter := by
  have hid' : id < s.chains.numTotalChains := by
    rw [h.total]
    exact hid
  obtain ⟨last, hlast⟩ := h.good.last id hid'
  unfold propose
  rw [hlast, ok_bind]
  refine ⟨_, rfl, ⟨⟨h.good.last, h.good.sigma, ?_, ⟨?_, trivial, h.good.calls⟩, ?_⟩,
    h.ntemps, h.total, h.interval, ?_⟩, rfl, rfl, ?_, rfl⟩
  · intro r hr'
    rcases List.mem_append.1 hr' with hr' | hr'
    · obtain ⟨last', width, hlast', hprop, hwidth⟩ := (h.good.flight r hr').proposed
      -- the requests before are for other chains
      have hne := hr r hr'
      refine ⟨?_, ?_, last', width, hlast', ?_, hwidth⟩
      · simp only [Function.update_of_ne hne]
        exact (h.good.flight r hr').data
      · simp only [Call.submitted, hne.symm, if_false]
        exact (h.good.flight r hr').submitted
      · simp only [Call.proposed, hne.symm, if_false]
        exact hprop
    · rw [List.mem_singleton.1 hr']
      refine ⟨?_, ?_, last, s.sigmaAdapter.values id, hlast, ?_,
        fun htuned => (h.good.sigma htuned id hid').symm⟩
      · simp only [Function.update_self]
      · simp only [Call.submitted, if_true]
      · simp only [Call.proposed, if_true]
  · show Call.outstanding id s.calls = 0
    rw [h.good.outstanding, List.count_eq_zero]
    intro hmem
    obtain ⟨r, hr', he⟩ := List.mem_map.1 hmem
    exact hr r hr' he
  · intro j
    simp only [Call.outstanding, h.good.outstanding, List.map_append, List.map_cons, List.map_nil,
      List.count_append, List.count_singleton, beq_iff_eq]
    split <;> rfl
  · simp only [List.length_append, List.length_singleton, h.jobs]
  · simp only [List.map_append, List.map_cons, List.map_nil]

theorem Sized.lock {T S : ℕ} (h : Sized tuned T S s) (locked : ℕ → Bool) :
    Sized tuned T S { s with locked } :=
  ⟨h.good.congr s.chains.beta s.betaAdapter locked s.numOutstandingJobs s.haveFlushed,
    h.ntemps, h.total, h.interval, h.jobs⟩

/-- **Unlocking** starts the chain above, and locks the chain below or starts the coldest. -/
theorem unlock_ok [Proposal P V F] {T S : ℕ} (h : Sized tuned T S s) (hup : id + 1 < T * S)
    (hid : id ∉ s.cascade.flight) (hid' : id + 1 ∉ s.cascade.flight) (hl : s.locked id = true) :
    ∃ s', s.unlock id = .ok s' ∧ Sized tuned T S s' ∧ s'.chains = s.chains ∧
      s'.cascade = s.cascade.proceed T id false := by
  obtain ⟨s₁, h₁, hs₁, hc₁, hl₁, hr₁, -⟩ :=
    propose_ok (h.lock (Function.update s.locked id false)) hup (not_requested hid')
  unfold unlock
  dsimp only
  rw [h₁, ok_bind, ChainArray.numTemps_eq, hs₁.ntemps]
  split
  · rename_i hcold
    refine ⟨_, rfl, hs₁.lock _, hc₁, ?_⟩
    simp only [Cascade.proceed, cascade, hl, if_true, hcold, ne_eq, not_false_eq_true, hr₁, hl₁]
  · rename_i hcold
    have hid₁ : id ∉ s₁.cascade.flight := by
      show id ∉ s₁.requester.map (·.id)
      rw [hr₁, List.mem_append, List.mem_singleton]
      rintro (hm | hm)
      · exact hid hm
      · omega
    obtain ⟨s₂, h₂, hs₂, hc₂, hl₂, hr₂, -⟩ :=
      propose_ok hs₁ (Nat.lt_of_succ_lt hup) (not_requested hid₁)
    refine ⟨s₂, h₂, hs₂, hc₂.trans hc₁, ?_⟩
    simp only [Cascade.proceed, cascade, hl, if_true, hcold, if_false, hr₁, hl₁, hr₂, hl₂]

/-- **A swap** is between chains without a request outstanding. -/
theorem swap_ok [Proposal P V F] {T S : ℕ} (h : Sized tuned T S s) (hup : id + 1 < T * S)
    (hid : id ∉ s.cascade.flight) (hid' : id + 1 ∉ s.cascade.flight) (hl : s.locked id = true)
    (i : Input F) :
    ∃ s', s.swap id i = .ok s' ∧ Sized tuned T S s' ∧ s'.cascade = s.cascade.proceed T id false := by
  have hN := h.total
  obtain ⟨last1, h1⟩ := h.good.last id (by omega)
  obtain ⟨last2, h2⟩ := h.good.last (id + 1) (by omega)
  obtain ⟨c', swapType, hswap, hst, htm, hbeta, hsigma, hothers, hall⟩ :=
    ChainArray.swap_ok h1 h2 i.swapRand
  have hN' : c'.numTotalChains = T * S := by
    rw [ChainArray.numTotalChains_eq, hst, htm, ← ChainArray.numTotalChains_eq, hN]
  have hs₁ : Sized tuned T S { s with chains := c' } := by
    refine ⟨⟨?_, ?_, ?_, h.good.calls, h.good.outstanding⟩,
      htm.trans h.ntemps, hN', h.interval, h.jobs⟩
    · intro j hj
      obtain ⟨state, hstate⟩ := h.good.last j (by simp only at hj; omega)
      exact hall j state hstate
    · intro htuned j hj
      simp only [hsigma]
      exact h.good.sigma htuned j (by simp only at hj; omega)
    · intro r hr
      obtain ⟨last, width, hlast, hprop, hwidth⟩ := (h.good.flight r hr).proposed
      refine ⟨(h.good.flight r hr).data, (h.good.flight r hr).submitted, last, width, ?_, hprop, ?_⟩
      -- neither chain of the swap has a request in flight
      · exact (hothers r.id (not_requested hid r hr) (not_requested hid' r hr)).trans hlast
      · simp only [hsigma]
        exact hwidth
  obtain ⟨s₂, h₂, hs₂, hc₂, hcasc⟩ := unlock_ok hs₁ hup hid hid' hl
  unfold swap
  rw [hswap, ok_bind]
  dsimp only
  rw [h₂, ok_bind, ChainArray.setBeta_ok (by rw [hc₂]; show id + 1 < c'.numTotalChains; omega), ok_bind]
  refine ⟨_, rfl, ?_, hcasc⟩
  exact ⟨hs₂.good.congr _ _ s₂.locked s₂.numOutstandingJobs s₂.haveFlushed, hs₂.ntemps,
    hs₂.total, hs₂.interval, hs₂.jobs⟩

/-- **What becomes of the chain** of a result, in its three cases. -/
theorem proceed_ok [Proposal P V F] {T S : ℕ} (h : Sized tuned T S s) (hid : id < T * S)
    (hid' : id ∉ s.cascade.flight)
    (hup : s.locked id = true → id + 1 < T * S ∧ id + 1 ∉ s.cascade.flight) (i : Input F) :
    ∃ s' start, s.proceed id i = .ok s' ∧ Sized tuned T S s' ∧ (start = true → id % T = T - 1 ∧ 1 < T) ∧
      s'.cascade = s.cascade.proceed T id start := by
  -- a chain that goes on proposes
  have hcont : s.locked id = false →
      ∃ s' start, s.propose id = .ok s' ∧ Sized tuned T S s' ∧ (start = true → id % T = T - 1 ∧ 1 < T) ∧
        s'.cascade = s.cascade.proceed T id start := by
    intro hl
    obtain ⟨s', h₁, hs₁, -, hl₁, hr₁, -⟩ := propose_ok h hid (not_requested hid')
    refine ⟨s', false, h₁, hs₁, (fun hf => by cases hf), ?_⟩
    simp only [Cascade.proceed, cascade, hl, Bool.false_eq_true, if_false, hr₁, hl₁]
  unfold proceed
  split
  · rename_i hl
    obtain ⟨hlt, hnot⟩ := hup hl
    obtain ⟨s', h₁, hs₁, hc₁⟩ := swap_ok h hlt hid' hnot hl i
    exact ⟨s', false, h₁, hs₁, (fun hf => by cases hf), hc₁⟩
  · rename_i hl
    have hl' : s.locked id = false := by simpa using hl
    split
    · rename_i hhot
      rw [if_neg h.interval]
      split
      · rename_i hs
        have hhot' : id % T = T - 1 := by
          have := of_decide_eq_true hhot
          rwa [ChainArray.chainIndex, ChainArray.numTemps_eq, h.ntemps] at this
        refine ⟨_, true, rfl, h.lock _, fun _ => ⟨hhot', ?_⟩, ?_⟩
        · rw [← h.ntemps]
          exact hs.2
        · simp only [Cascade.proceed, cascade, hl', Bool.false_eq_true, if_false, if_true]
      · exact hcont hl'
    · exact hcont hl'

/-! ## Steps -/

/-- The invariant of the sampler between steps. -/
structure Inv (tuned : Prop) (T S : ℕ) (s : Sampler P V F) : Prop extends Sized tuned T S s where
  cascade : s.cascade.Inv T (T * S)

variable {T S : ℕ}

/-- The part of a step up to the choice of what becomes of the chain: an answered request is recorded,
and its chain adapted. -/
theorem answer_ok [Sub V] [Proposal P V F] (h : Sized tuned T S s) {i : Input F} {r : SampleRequest V}
    (hr : s.requester[i.index]? = some r) (hid : r.id < T * S)
    (hidle : r.id ∉ (s.cascade.done i.index).flight) :
    ∃ s', s.step i = (do
        let s ← s'.proceed r.id i
        return (s, r.id, ← s.chains.lastState r.id)) ∧
      Sized tuned T S s' ∧ s'.cascade = s.cascade.done i.index := by
  have hlt : i.index < s.requester.length := (List.getElem?_eq_some_iff.1 hr).1
  obtain ⟨s₁, h₁, hg₁, hf₁, hcalls₁, hreq₁, hch₁, hl₁, hj₁, hint₁⟩ := retrieve_ok h.good hr
  have hcasc₁ : s₁.cascade = s.cascade.done i.index := by
    simp only [cascade, Cascade.done, hreq₁, hl₁, List.eraseIdx_map]
  have hfree : r.id ∉ s₁.cascade.flight := by
    rw [hcasc₁]
    exact hidle
  -- `numOutstandingJobs_--` counts the request that was retrieved
  have hg₂ : Good tuned { s₁ with numOutstandingJobs := predUint s₁.numOutstandingJobs } :=
    hg₁.congr s₁.chains.beta s₁.betaAdapter s₁.locked _ s₁.haveFlushed
  have hs₂ : Sized tuned T S { s₁ with numOutstandingJobs := predUint s₁.numOutstandingJobs } := by
    refine ⟨hg₂, ?_, ?_, ?_, ?_⟩
    · simp only [hch₁, h.ntemps]
    · simp only [hch₁, h.total]
    · simp only [hint₁, ne_eq, h.interval, not_false_eq_true]
    · simp only [hreq₁, hj₁, h.jobs, predUint, List.length_eraseIdx_of_lt hlt]
      rw [if_neg (by omega)]
  -- the chain has no other request, so that its last state and step size may change
  obtain ⟨s₃, last, accepted, h₃, hg₃, hfr₃, hlast₂, hacc, hlast₃, hcalls₃⟩ :=
    append_ok hg₂ ⟨hf₁.data, hf₁.submitted, hf₁.proposed⟩ hcalls₁ (not_requested hfree) i
  have hs₃ := hs₂.frame hg₃ hfr₃
  have hs₄ : Sized tuned T S { s₃ with haveFlushed := false } :=
    ⟨hg₃.congr s₃.chains.beta s₃.betaAdapter s₃.locked s₃.numOutstandingJobs false, hs₃.ntemps,
      hs₃.total, hs₃.interval, hs₃.jobs⟩
  have hfree₃ : r.id ∉ s₃.cascade.flight := by
    rw [hfr₃.cascade]
    exact hfree
  obtain ⟨s₅, h₅, hg₅, hfr₅⟩ := adapt_ok hs₄.good (by rw [hs₄.total]; exact hid) (not_requested hfree₃) last
    (recorded ⟨s₁.propStates r.id, energyOf i.results, s₁.chains.sigma r.id, s₁.chains.beta r.id,
      false, .noAttempt⟩
      last accepted) ⟨_, _, _, _, _, _, _, hcalls₃, hacc, rfl, rfl⟩
  refine ⟨s₅, ?_, hs₄.frame hg₅ hfr₅, ?_⟩
  · unfold step
    rw [h₁, ok_bind]
    dsimp only
    rw [hlast₂, ok_bind, h₃, ok_bind, hlast₃, ok_bind, h₅, ok_bind]
  · calc s₅.cascade = s₃.cascade := hfr₅.cascade
      _ = s₁.cascade := hfr₃.cascade
      _ = s.cascade.done i.index := hcasc₁

/-- **A step on an outstanding request returns** and keeps the invariant. -/
theorem step_ok [Sub V] [Proposal P V F] (h : Inv tuned T S s) (i : Input F)
    (hi : i.index < s.requester.length) : ∃ s' out, s.step i = .ok (s', out) ∧ Inv tuned T S s' := by
  obtain ⟨r, hr⟩ : ∃ r, s.requester[i.index]? = some r := ⟨_, List.getElem?_eq_getElem hi⟩
  have hk : s.cascade.flight[i.index]? = some r.id := by
    show (s.requester.map (·.id))[i.index]? = some r.id
    rw [List.getElem?_map, hr]
    rfl
  have hid : r.id < T * S := h.cascade.lt _ (List.mem_of_getElem? hk)
  have hT : 0 < T := Nat.pos_of_mul_pos_right (Nat.zero_lt_of_lt hid)
  have hidle := h.cascade.done hk
  obtain ⟨s₁, h₁, hs₁, hcasc₁⟩ := answer_ok h.toSized hr hid hidle.not_mem
  have hup : s₁.locked r.id = true → r.id + 1 < T * S ∧ r.id + 1 ∉ s₁.cascade.flight := by
    intro hlock
    have hlock' : s₁.cascade.locked r.id = true := hlock
    rw [hcasc₁] at hlock' ⊢
    exact (hidle.waits hid hlock').2
  obtain ⟨s₂, start, h₂, hs₂, hstart, hcasc₂⟩ :=
    proceed_ok hs₁ hid (by rw [hcasc₁]; exact hidle.not_mem) hup i
  obtain ⟨state, hlast⟩ := hs₂.good.last r.id (by
    rw [hs₂.total]
    exact hid)
  refine ⟨s₂, (r.id, state), ?_, hs₂, ?_⟩
  · rw [h₁, h₂, ok_bind, hlast]
    rfl
  · rw [hcasc₂, hcasc₁]
    exact h.cascade.proceed hT hk hstart

/-! ## The start and the end -/

/-- The loop of the constructor, after `n` rounds. -/
theorem init_loop [Proposal P V F] {start : Sampler P V F} (h : Sized tuned T S start)
    (hlocked : ∀ i, start.locked i = false) (hnone : start.requester = []) {n : ℕ} (hn : n ≤ T * S) :
    ∃ s, (List.range n).foldlM (fun (s : Sampler P V F) i => s.propose (T * S - i - 1)) start = .ok s ∧
      Sized tuned T S s ∧ (∀ i, s.locked i = false) ∧
      s.requester.map (·.id) = (List.range n).map (T * S - · - 1) := by
  induction n with
  | zero => exact ⟨start, rfl, h, hlocked, by rw [hnone]; rfl⟩
  | succ n ih =>
    obtain ⟨s, h₁, hs, hl, hr⟩ := ih (by omega)
    have hnot : T * S - n - 1 ∉ s.cascade.flight := by
      show T * S - n - 1 ∉ s.requester.map (·.id)
      rw [hr, List.mem_map]
      rintro ⟨m, hm, he⟩
      rw [List.mem_range] at hm
      omega
    obtain ⟨s', h₂, hs', -, hl', hr', -⟩ := propose_ok hs (by omega) (not_requested hnot)
    refine ⟨s', ?_, hs', fun i => by rw [hl', hl], ?_⟩
    · rw [List.range_succ, List.foldlM_append, h₁, ok_bind, List.foldlM_cons, h₂]
      rfl
    · rw [hr', hr, List.range_succ, List.map_append]
      rfl

/-- **The constructor** starts every chain. -/
theorem init_ok [Inhabited V] [Proposal P V F] (tuned : Prop) (jobTypes : List ℕ)
    {chains : ChainArray V F} (proposal : P) (sigmaAdapter betaAdapter : RegressionAdapter F)
    {swapInterval : ℕ} (hint : swapInterval ≠ 0) (htotal : chains.numTotalChains = chains.ntemps * S)
    (hlast : ∀ i < chains.numTotalChains, ∃ state, chains.lastState i = .ok state)
    (hsigma : tuned → ∀ i < chains.numTotalChains, chains.sigma i = sigmaAdapter.values i) :
    ∃ s, init jobTypes chains proposal sigmaAdapter betaAdapter swapInterval = .ok s ∧
      Inv tuned chains.ntemps S s := by
  let start : Sampler P V F :=
    ⟨[], jobTypes, chains, proposal, sigmaAdapter, betaAdapter, fun _ => default, swapInterval, 0,
      fun _ => false, true, []⟩
  have hgood : Good tuned start :=
    ⟨hlast, hsigma, fun r hr => (List.not_mem_nil hr).elim, trivial, fun i => rfl⟩
  have hsized : Sized tuned chains.ntemps S start := ⟨hgood, rfl, htotal, hint, rfl⟩
  obtain ⟨s, h₁, hs, hl, hr⟩ := init_loop hsized (fun _ => rfl) rfl le_rfl
  refine ⟨s, ?_, hs, Cascade.Inv.initial ?_ hl⟩
  · unfold init
    rw [htotal]
    exact h₁
  -- from the hottest chain to the coldest
  show s.requester.map (·.id) = _
  rw [hr, List.range_eq_range', List.reverse_range', List.range_eq_range']
  refine List.map_congr_left ?_
  intro i _
  omega

/-- A result collected by `flush` is appended as in a step. -/
theorem collect_good (h : Good tuned s) (hn : s.cascade.flight.Nodup) {i : Input F}
    (hs : s.collect i = .ok s') :
    Good tuned s' ∧ s'.cascade.flight.Nodup := by
  obtain ⟨⟨r, s₁⟩, h₁, h₂⟩ := bind_eq_ok hs
  have hr : s.requester[i.index]? = some r := by
    unfold retrieve at h₁
    split at h₁
    · rename_i hget
      cases h₁
      exact hget
    · cases h₁
  obtain ⟨s₁', h₁', hg₁, hf₁, hcalls₁, hreq₁, -, -, -, -⟩ := retrieve_ok h hr
  rw [h₁'] at h₁
  cases h₁
  dsimp only at h₂
  have hflight : s₁.cascade.flight = s.cascade.flight.eraseIdx i.index := by
    show s₁.requester.map (·.id) = (s.requester.map (·.id)).eraseIdx i.index
    rw [hreq₁, List.eraseIdx_map]
  have hnot : r.id ∉ s₁.cascade.flight := by
    obtain ⟨hlt, hget⟩ := List.getElem?_eq_some_iff.1 hr
    have hcons := ((List.getElem_cons_eraseIdx_perm hlt).map SampleRequest.id).nodup_iff.2 hn
    rw [hget, ← hreq₁] at hcons
    exact (List.nodup_cons.1 hcons).1
  obtain ⟨s₂, last, accepted, h₂', hg₂, hfr₂, -⟩ := append_ok hg₁ hf₁ hcalls₁ (not_requested hnot) i
  rw [h₂'] at h₂
  cases h₂
  refine ⟨hg₂, ?_⟩
  rw [hfr₂.cascade, hflight]
  exact hn.eraseIdx _

/-- **What `flush` appends** is as in a step. -/
theorem flush_sound (h : Inv tuned T S s) {is : List (Input F)} (hs : s.flush is = .ok s') :
    Call.AllSound tuned s'.calls := by
  unfold flush at hs
  dsimp only at hs
  split at hs
  · cases hs
  · obtain ⟨s₁, h₁, hs⟩ := bind_eq_ok hs
    cases hs
    have hstart := h.good.congr s.chains.beta s.betaAdapter s.locked s.numOutstandingJobs true
    -- each round of the loop takes one of the requests, whose chains stay distinct
    have hloop := Lib.foldlM_keeps (P := fun s => Good tuned s ∧ s.cascade.flight.Nodup)
      (fun s i s' hc hg => collect_good hg.1 hg.2 hc) h₁ ⟨hstart, h.cascade.nodup⟩
    exact hloop.1.calls

/-! ## Runs -/

variable [Sub V] [Proposal P V F]

/-- The sampler after a step. -/
def next (s : Sampler P V F) (i : Input F) : Option (Sampler P V F) := (s.step i).toOption.map (·.1)

/-- A step takes an outstanding request. -/
theorem next_inv {i : Input F} (h : Inv tuned T S s) (hs : s.next i = some s') : Inv tuned T S s' := by
  by_cases hi : i.index < s.requester.length
  · obtain ⟨s₁, out, h₁, hinv⟩ := step_ok h i hi
    rw [next, h₁] at hs
    cases hs
    exact hinv
  · rw [next, step, retrieve, List.getElem?_eq_none (by omega)] at hs
    cases hs

theorem run_inv {s₀ : Sampler P V F} (h₀ : Inv tuned T S s₀) {is : List (Input F)}
    (hrun : Lib.Reach next (fun _ _ => True) s₀ is s) : Inv tuned T S s :=
  hrun.invariant (P := fun _ s => Inv tuned T S s) h₀ fun _ _ _ _ _ h _ hs => next_inv h hs

end Sampler

end Stateline
