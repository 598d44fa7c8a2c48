import Stateline.App.SamplerProgram
import Stateline.Proof.Outstanding
import Stateline.Proof.Start

/-!
# Runs of the program

* `SamplerProgram.step_iff`: what each step does.
* `SamplerProgram.inv_step`: **the invariant of the program.** The requests outstanding are for distinct
  chains and for all job types, and `flush` collects those that the main loop left.
* `SamplerProgram.retrieve_ok`: an answer to any outstanding request is taken, where the program waits.
* `SamplerProgram.Effect.asks`: a step submits at the end, and only a retrieved request is gone.
-/

namespace Stateline

open Lib

variable {P V F : Type} [Double F]

/-! ## The job types -/

namespace Sampler

variable {s s' : Sampler P V F} {id : ℕ} {i : Input F} {types : List ℕ}

/-- Every request is for the job types of the sampler. -/
structure Typed (types : List ℕ) (s : Sampler P V F) : Prop where
  jobTypes : s.jobTypes = types
  requests : ∀ r ∈ s.requester, r.jobTypes = types

omit [Double F] in
theorem Typed.of_eq (h : Typed types s) (htypes : s'.jobTypes = s.jobTypes)
    (hreq : s'.requester = s.requester) : Typed types s' :=
  ⟨htypes.trans h.jobTypes, by rw [hreq]; exact h.requests⟩

omit [Double F] in
theorem retrieve_typed {r : SampleRequest V} (h : Typed types s) (hr : s.retrieve i = .ok (r, s')) :
    Typed types s' := by
  obtain ⟨-, rfl⟩ := retrieve_effect hr
  exact ⟨h.jobTypes, fun q hq => h.requests q (List.mem_of_mem_eraseIdx hq)⟩

theorem append_typed {energy : F} (h : Typed types s) (ha : s.append id energy i = .ok s') :
    Typed types s' := by
  obtain ⟨last, chains, accepted, calls, -, -, rfl⟩ := append_effect ha
  exact h.of_eq rfl rfl

/-- What a round of the loop of `flush` does. -/
theorem collect_effect (h : s.collect i = .ok s') :
    ∃ r chains calls, s.requester[i.index]? = some r ∧ s.chains.apply (s.record (r, i)) = .ok chains ∧
      chains.nstacks = s.chains.nstacks ∧ chains.ntemps = s.chains.ntemps ∧
      s' = { s with requester := s.requester.eraseIdx i.index, chains, calls } := by
  obtain ⟨⟨r, s₁⟩, h₁, h⟩ := bind_eq_ok h
  obtain ⟨hr, rfl⟩ := retrieve_effect h₁
  obtain ⟨last, chains, accepted, calls, hlast, happ, rfl⟩ := append_effect h
  obtain ⟨c', accepted', happ', -, hnstacks, hntemps, -⟩ := ChainArray.append_ok hlast
    (s.propStates r.id) (energyOf i.results) i.acceptRand i.now
  rw [happ] at happ'
  obtain ⟨rfl, rfl⟩ := ok_pair_inj happ'
  refine ⟨r, chains, calls, hr, ?_, hnstacks, hntemps, rfl⟩
  rw [record, ChainArray.apply, happ]
  rfl

theorem collect_typed (h : Typed types s) (hc : s.collect i = .ok s') : Typed types s' := by
  obtain ⟨⟨r, s₁⟩, h₁, hc⟩ := bind_eq_ok hc
  exact append_typed (retrieve_typed h h₁) hc

variable [Proposal P V F]

omit [Double F] in
theorem propose_typed (h : Typed types s) (hp : s.propose id = .ok s') : Typed types s' := by
  obtain ⟨last, -, hp⟩ := bind_eq_ok hp
  cases hp
  refine ⟨h.jobTypes, ?_⟩
  intro r hr
  rcases List.mem_append.1 hr with hr | hr
  · exact h.requests r hr
  · rw [List.mem_singleton.1 hr]
    exact h.jobTypes

omit [Double F] in
theorem unlock_typed (h : Typed types s) (hu : s.unlock id = .ok s') : Typed types s' := by
  obtain ⟨s₁, h₁, hu⟩ := bind_eq_ok hu
  have ht₁ : Typed types s₁ :=
    propose_typed (s := { s with locked := Function.update s.locked id false }) (h.of_eq rfl rfl) h₁
  split at hu
  · cases hu
    exact ht₁.of_eq rfl rfl
  · exact propose_typed ht₁ hu

theorem proceed_typed (h : Typed types s) (hp : s.proceed id i = .ok s') : Typed types s' := by
  unfold proceed at hp
  split at hp
  · obtain ⟨⟨chains, swapType⟩, -, hp⟩ := bind_eq_ok hp
    obtain ⟨s₂, h₂, hp⟩ := bind_eq_ok hp
    obtain ⟨chains', -, hp⟩ := bind_eq_ok hp
    cases hp
    have ht₂ : Typed types s₂ := unlock_typed (s := { s with chains }) (h.of_eq rfl rfl) h₂
    exact ht₂.of_eq rfl rfl
  · split at hp
    · split at hp
      · cases hp
      · split at hp
        · cases hp
          exact h.of_eq rfl rfl
        · exact propose_typed h hp
    · exact propose_typed h hp

/-- **A step** asks for the same job types. -/
theorem step_typed [Sub V] {out : ℕ × State V F} (h : Typed types s) (hs : s.step i = .ok (s', out)) :
    Typed types s' := by
  obtain ⟨⟨r, s₁⟩, h₁, hs⟩ := bind_eq_ok hs
  obtain ⟨previous, -, hs⟩ := bind_eq_ok hs
  obtain ⟨s₃, h₃, hs⟩ := bind_eq_ok hs
  obtain ⟨state, -, hs⟩ := bind_eq_ok hs
  obtain ⟨s₅, h₅, hs⟩ := bind_eq_ok hs
  obtain ⟨s₆, h₆, hs⟩ := bind_eq_ok hs
  obtain ⟨last, -, hs⟩ := bind_eq_ok hs
  obtain ⟨rfl, -⟩ := ok_pair_inj hs
  have ht₃ : Typed types s₃ :=
    append_typed (s := { s₁ with numOutstandingJobs := predUint s₁.numOutstandingJobs })
      ((retrieve_typed h h₁).of_eq rfl rfl) h₃
  obtain ⟨chains, proposal, sigmaAdapter, calls, -, -, hs₅⟩ := adapt_effect h₅
  have ht₅ : Typed types s₅ := by
    rw [hs₅]
    exact ht₃.of_eq rfl rfl
  exact proceed_typed ht₅ h₆

omit [Double F] in
theorem init_typed [Inhabited V] {chains : ChainArray V F} {proposal : P}
    {sigmaAdapter betaAdapter : RegressionAdapter F} {swapInterval : ℕ}
    (h : init types chains proposal sigmaAdapter betaAdapter swapInterval = .ok s) : Typed types s :=
  foldlM_keeps (P := Typed types) (fun _ _ _ hp ht => propose_typed ht hp) h
    ⟨rfl, fun _ hr => (List.not_mem_nil hr).elim⟩

end Sampler

theorem RunSampler.start_typed [Inhabited V] [Proposal P V F] {settings : StatelineSettings F}
    {sigmaAdapter betaAdapter : RegressionAdapter F} {proposal : P} {samples : ℕ → V × F} {now : ℤ}
    {s : Sampler P V F} (h : start settings sigmaAdapter betaAdapter proposal samples now = .ok s) :
    s.Typed (List.range settings.nJobTypes) := by
  obtain ⟨⟨chains, betaAdapter'⟩, -, h⟩ := bind_eq_ok h
  exact Sampler.init_typed h

/-! ## The steps -/

namespace SamplerProgram

variable [Inhabited V] [Sub V] [Proposal P V F] {c : Setup P F}

/-- The sampler that is constructed after the initial samples. -/
def constructed (c : Setup P F) (samples : List (V × F)) : Except Fault (Sampler P V F) :=
  RunSampler.runSampler c.toStatelineSettings c.proposal (fun j => samples.getD j (default, 0.0)) c.now

/-- What a step does. -/
inductive Effect (c : Setup P F) : SamplerProgram P V F → Act V F → SamplerProgram P V F → Prop
  | generate {samples : List (V × F)} {sample : V} : samples.length < c.numChains →
      Effect c (.starting samples) (.generate sample) (.evaluating samples sample)
  | evaluated {samples : List (V × F)} {sample : V} {i : Input F} : i.index = 0 →
      Effect c (.evaluating samples sample) (.retrieve i)
        (.starting (samples ++ [(sample, Sampler.energyOf i.results)]))
  | start {samples : List (V × F)} {s : Sampler P V F} : samples.length = c.numChains →
      constructed c samples = .ok s → Effect c (.starting samples) .start (.sampling s 0)
  | step {s s' : Sampler P V F} {n id : ℕ} {i : Input F} {state : State V F} : n < c.nsamples →
      s.step i = .ok (s', id, state) →
      Effect c (.sampling s n) (.retrieve i)
        (.sampling s' (if id % c.ntemps = 0 then (n + 1) % 2 ^ 32 else n))
  | stop {s : Sampler P V F} {n : ℕ} :
      Effect c (.sampling s n) .stop (.flushing { s with haveFlushed := true } n)
  | collect {s s' : Sampler P V F} {n : ℕ} {i : Input F} : s.numOutstandingJobs ≠ 0 →
      { s with numOutstandingJobs := predUint s.numOutstandingJobs }.collect i = .ok s' →
      Effect c (.flushing s n) (.retrieve i) (.flushing s' n)
  | finish {s : Sampler P V F} {n : ℕ} : s.numOutstandingJobs = 0 →
      Effect c (.flushing s n) .finish (.finished { s with
        numOutstandingJobs := predUint s.numOutstandingJobs, chains := s.chains.flushAll } n)

variable {p p' : SamplerProgram P V F} {a : Act V F}

/-- **What a step does.** -/
theorem step_iff : step c p a = some p' ↔ Effect c p a p' := by
  constructor
  · intro h
    unfold step at h
    split at h
    · split at h
      · rename_i hlt
        cases h
        exact .generate hlt
      · cases h
    · split at h
      · rename_i hi
        cases h
        exact .evaluated hi
      · cases h
    · split at h
      · rename_i hlen
        split at h
        · rename_i s hs
          cases h
          exact .start hlen hs
        · cases h
      · cases h
    · split at h
      · rename_i hn
        split at h
        · rename_i hs
          cases h
          exact .step hn hs
        · cases h
      · cases h
    · cases h
      exact .stop
    · split at h
      · rename_i hn
        split at h
        · rename_i hs
          cases h
          exact .collect hn hs
        · cases h
      · cases h
    · split at h
      · rename_i hn
        cases h
        exact .finish hn
      · cases h
    · cases h
  · rintro (h | h | ⟨h, hs⟩ | ⟨h, hs⟩ | _ | ⟨h, hs⟩ | h)
    · exact if_pos h
    · exact if_pos h
    · unfold step
      rw [constructed] at hs
      simp only [h, if_true, hs]
    · simp only [step, h, if_true, hs]
    · rfl
    · simp only [step, ne_eq, h, not_false_eq_true, if_true, hs]
    · exact if_pos h

/-! ## The invariant -/

/-- What the loop of `flush` relies on. -/
structure Collecting (c : Setup P F) (s : Sampler P V F) : Prop where
  good : s.Good False
  ntemps : s.chains.ntemps = c.ntemps
  total : s.chains.numTotalChains = c.numChains
  nodup : (s.requester.map (·.id)).Nodup
  lt : ∀ r ∈ s.requester, r.id < c.numChains
  jobs : s.numOutstandingJobs = s.requester.length
  typed : s.Typed (List.range c.nJobTypes)

/-- The invariant of the program. -/
def Inv (c : Setup P F) : SamplerProgram P V F → Prop
  | .starting samples => samples.length ≤ c.numChains
  | .evaluating samples _ => samples.length < c.numChains
  | .sampling s _ => s.Inv False c.ntemps c.nstacks ∧ s.chains.numTotalChains = c.numChains ∧
    s.Typed (List.range c.nJobTypes)
  | .flushing s _ => Collecting c s
  | .finished s _ => s.requester = [] ∧ s.chains.ntemps = c.ntemps

omit [Inhabited V] [Sub V] [Proposal P V F] in
/-- The main loop may end at any time. -/
theorem Collecting.stop {s : Sampler P V F} (h : s.Inv False c.ntemps c.nstacks)
    (hN : s.chains.numTotalChains = c.numChains) (ht : s.Typed (List.range c.nJobTypes)) :
    Collecting c { s with haveFlushed := true } := by
  refine ⟨h.good.congr s.chains.beta s.betaAdapter s.locked s.numOutstandingJobs true, h.ntemps,
    hN, h.cascade.nodup, ?_, h.jobs, ht.of_eq rfl rfl⟩
  intro r hr
  rw [← hN, h.total]
  exact h.cascade.lt r.id (List.mem_map_of_mem hr)

omit [Inhabited V] [Sub V] [Proposal P V F] in
/-- **A round of the loop of `flush`** takes one request, whose sample is appended. -/
theorem Collecting.collect {s s' : Sampler P V F} {i : Input F} (h : Collecting c s)
    (hs : { s with numOutstandingJobs := predUint s.numOutstandingJobs }.collect i = .ok s') :
    Collecting c s' ∧ ∃ r, s.requester[i.index]? = some r ∧
      s'.requester = s.requester.eraseIdx i.index ∧
      s.chains.apply (.append r.id r.data (Sampler.energyOf i.results) i.acceptRand i.now) =
        .ok s'.chains := by
  have hg := h.good.congr s.chains.beta s.betaAdapter s.locked (predUint s.numOutstandingJobs)
    s.haveFlushed
  have ht : Sampler.Typed (List.range c.nJobTypes)
      { s with numOutstandingJobs := predUint s.numOutstandingJobs } := h.typed.of_eq rfl rfl
  obtain ⟨hg', hnd'⟩ := Sampler.collect_good hg h.nodup hs
  obtain ⟨r, chains, calls, hr, hop, hnstacks, hntemps, hs'⟩ := Sampler.collect_effect hs
  dsimp only at hr hop hnstacks hntemps
  obtain ⟨hlt, -⟩ := List.getElem?_eq_some_iff.1 hr
  have hjobs := h.jobs
  refine ⟨⟨hg', ?_, ?_, hnd', ?_, ?_, Sampler.collect_typed ht hs⟩, r, hr, ?_, ?_⟩
  · rw [hs', ← h.ntemps]
    exact hntemps
  · rw [hs', ← h.total, ChainArray.numTotalChains_eq, ChainArray.numTotalChains_eq, ← hnstacks,
      ← hntemps]
  · intro q hq
    rw [hs'] at hq
    exact h.lt q (List.mem_of_mem_eraseIdx hq)
  · rw [hs']
    show predUint s.numOutstandingJobs = (s.requester.eraseIdx i.index).length
    rw [List.length_eraseIdx_of_lt hlt, hjobs, predUint, if_neg (by omega)]
  · rw [hs']
  · rw [hs', ← (h.good.flight r (List.mem_of_getElem? hr)).data]
    exact hop

/-- **The invariant** is kept by every step. -/
theorem inv_step (hsize : c.nstacks * c.ntemps < 2 ^ 32) (hint : c.swapInterval ≠ 0) (h : Inv c p)
    (he : Effect c p a p') : Inv c p' := by
  cases he with
  | generate hlt => exact hlt
  | @evaluated samples sample i hi =>
    show (samples ++ [_]).length ≤ c.numChains
    rw [List.length_append, List.length_singleton]
    exact h
  | @start samples s hlen hs =>
    have hN := StatelineSettings.numChains_of_lt hsize
    obtain ⟨s₀, h₀, hinv, -⟩ :=
      RunSampler.start_ok hN hint (RunSampler.sigmaAdapter c.toStatelineSettings)
        (show (RunSampler.betaAdapter c.toStatelineSettings).nTemps = c.ntemps from rfl) c.proposal
        (fun j => samples.getD j (default, 0.0)) c.now
    rw [constructed, RunSampler.runSampler, h₀] at hs
    cases hs
    exact ⟨hinv, hinv.total.trans hN.symm, RunSampler.start_typed h₀⟩
  | @step s s' n id i state hn hs =>
    obtain ⟨hinv, hN, ht⟩ := h
    have hinv' : s'.Inv False c.ntemps c.nstacks := Sampler.next_inv (i := i) hinv (by
      rw [Sampler.next, hs]
      rfl)
    exact ⟨hinv', by rw [hinv'.total, ← hinv.total, hN], Sampler.step_typed ht hs⟩
  | stop => exact .stop h.1 h.2.1 h.2.2
  | collect hn hs => exact (Collecting.collect h hs).1
  | @finish s n hn =>
    have hjobs := Collecting.jobs h
    rw [hn] at hjobs
    refine ⟨List.length_eq_zero_iff.1 hjobs.symm, ?_⟩
    exact ChainArray.flushAll_induction (P := fun chains => chains.ntemps = c.ntemps)
      (Collecting.ntemps h) fun _ _ hchains => ChainArray.flushed_ntemps.trans hchains

/-! ## The requests -/

/-- The program calls `retrieve`. -/
def Waits (c : Setup P F) : SamplerProgram P V F → Prop
  | .evaluating _ _ => True
  | .sampling _ n => n < c.nsamples
  | .flushing s _ => s.requester ≠ []
  | _ => False

omit [Inhabited V] [Sub V] [Proposal P V F] in
/-- **The requests outstanding** are for distinct chains, and for all job types. -/
theorem Inv.requests (h : Inv c p) : ((outstanding c p).map (·.id)).Nodup ∧
    ∀ r ∈ outstanding c p, r.id < c.numChains ∧ r.jobTypes = List.range c.nJobTypes := by
  cases p with
  | starting samples => exact ⟨List.nodup_nil, fun r hr => (List.not_mem_nil hr).elim⟩
  | evaluating samples sample =>
    refine ⟨List.nodup_singleton _, ?_⟩
    intro r hr
    rw [List.mem_singleton.1 hr]
    exact ⟨Nat.zero_lt_of_lt h, rfl⟩
  | sampling s n =>
    refine ⟨h.1.cascade.nodup, ?_⟩
    intro r hr
    refine ⟨?_, h.2.2.requests r hr⟩
    rw [← h.2.1, h.1.total]
    exact h.1.cascade.lt r.id (List.mem_map_of_mem hr)
  | flushing s n => exact ⟨Collecting.nodup h, fun r hr => ⟨Collecting.lt h r hr,
      (Collecting.typed h).requests r hr⟩⟩
  | finished s n =>
    rw [outstanding, h.1]
    exact ⟨List.nodup_nil, fun r hr => (List.not_mem_nil hr).elim⟩

/-- **A step submits**, and only the request that is retrieved is gone. -/
theorem Effect.asks (h : Inv c p) (he : Effect c p a p') :
    ∃ sent, outstanding c p' = left c p a ++ sent := by
  cases he with
  | generate => exact ⟨_, rfl⟩
  | evaluated hi =>
    refine ⟨[], ?_⟩
    rw [left, hi]
    rfl
  | start => exact ⟨_, rfl⟩
  | @step s s' n id i state hn hs =>
    rw [Sampler.step_eq] at hs
    cases hr : s.report i with
    | error f =>
      rw [hr] at hs
      cases hs
    | ok q =>
      rw [hr] at hs
      cases hs
      obtain ⟨sent, hsent, -⟩ := (Sampler.report_effect h.1.interval hr).requests
      exact ⟨sent, hsent⟩
  | stop => exact ⟨[], (List.append_nil _).symm⟩
  | collect hn hs =>
    obtain ⟨-, r, -, hreq, -⟩ := Collecting.collect h hs
    exact ⟨[], hreq.trans (List.append_nil _).symm⟩
  | finish => exact ⟨[], (List.append_nil _).symm⟩

/-- **An answer is taken**, to any request that is outstanding. -/
theorem retrieve_ok (h : Inv c p) (hw : Waits c p) {i : Input F}
    (hi : i.index < (outstanding c p).length) :
    ∃ p', step c p (.retrieve i) = some p' := by
  cases p with
  | starting samples => exact hw.elim
  | evaluating samples sample => exact ⟨_, if_pos (Nat.lt_one_iff.1 hi)⟩
  | sampling s n =>
    obtain ⟨s', ⟨id, state⟩, hs, -⟩ := Sampler.step_ok h.1 i hi
    exact ⟨_, step_iff.2 (.step hw hs)⟩
  | flushing s n =>
    have hc : Collecting c s := h
    have hjobs : s.numOutstandingJobs ≠ 0 := by
      rw [hc.jobs]
      exact Nat.ne_of_gt (Nat.zero_lt_of_lt hi)
    obtain ⟨s', hs, -⟩ := Sampler.collect_some
      (s := { s with numOutstandingJobs := predUint s.numOutstandingJobs })
      (fun q hq => hc.good.last q.id (by
        rw [hc.total]
        exact hc.lt q hq)) (List.getElem?_eq_getElem hi)
    exact ⟨_, step_iff.2 (.collect hjobs hs)⟩
  | finished s n => exact hw.elim

/-- Only a program that waits retrieves. -/
theorem waits_of_retrieve {i : Input F} (h : Inv c p) (hs : step c p (.retrieve i) = some p') :
    Waits c p := by
  cases step_iff.1 hs with
  | evaluated => trivial
  | step hn => exact hn
  | collect hn =>
    intro hnone
    have hjobs := Collecting.jobs h
    rw [hnone] at hjobs
    exact hn hjobs

end SamplerProgram

end Stateline
