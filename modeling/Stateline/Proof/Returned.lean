import Stateline.Proof.Markov
import Stateline.Proof.Step

/-!
# Returned states

A step edits recorded states in place, in two chains when they swap. But the
coldest chain of a stack is edited in its own steps only, before they return.

* `Sampler.Effect.recorded`: a step appends the state it returns to what its
  chain recorded, if that is the coldest of its stack, and nothing to the others.
* `returned_is_recorded`: **what the steps returned for a coldest chain is what it
  recorded**, and no later step or flush changes it.
-/

namespace Stateline

open Lib

variable {P V F : Type} [Double F]

namespace ChainArray

variable {c : ChainArray V F} {a : Chains V F} {id : ℕ}

omit [Double F] in
/-- All states that the coldest chain of a stack recorded: on disk, then in the cache. -/
def record (c : ChainArray V F) (id : ℕ) : List (State V F) :=
  c.chainFiles (c.stackIndex id) ++ c.cache id

omit [Double F] in
theorem record_eq [Double F] (h : Refines c a) (hcold : c.isColdestInStack id) :
    c.record id = a.states id :=
  (Transparent.of_refines h).cold id hcold

end ChainArray

namespace Sampler

variable {s s' : Sampler P V F} {a a' : Chains V F} {i : Input F} {r : Report V F} {T S : ℕ}

/-- The chain of a step records one state more. -/
theorem own_states (h : (s.ops s' i r).foldlM Chains.apply a = .ok a') :
    ∃ state, a'.states r.id = a.states r.id ++ [state] := by
  rw [ops, List.foldlM_append] at h
  obtain ⟨a₂, h₂, h⟩ := bind_eq_ok h
  obtain ⟨a₁, h₁, h₂⟩ := bind_eq_ok h₂
  obtain ⟨_, h₂, h₀⟩ := bind_eq_ok h₂
  cases h₀
  obtain ⟨state, rfl⟩ := Chains.append_states h₁
  -- the append adds a state
  have hown₂ : a₂.states r.id = a.states r.id ++ [state] := by
    rw [Chains.setSigma_states h₂]
    exact Function.update_self ..
  split at h
  · obtain ⟨a₃, h₃, h⟩ := bind_eq_ok h
    obtain ⟨_, h₄, h₀⟩ := bind_eq_ok h
    cases h₀
    -- the swap replaces the state that was just added
    obtain ⟨state', hstate'⟩ := Chains.swap_states h₃
    rw [min_eq_left (Nat.le_succ r.id), hown₂, List.dropLast_concat] at hstate'
    exact ⟨state', by rw [Chains.setBeta_states h₄, hstate']⟩
  · cases h
    exact ⟨state, hown₂⟩

/-- The other chain of a swap is not the coldest. -/
theorem Effect.coldest (h : Effect s i s' r) (hinv : s.cascade.Inv T (T * S)) {c : ℕ}
    (hcold : c % T = 0) (hc : c ≠ r.id) : c ∉ r.chains := by
  rw [Report.chains]
  split
  · rename_i hmove
    have hmod := (h.above hinv hmove).2.1
    simp only [List.mem_cons, List.not_mem_nil, or_false, not_or]
    refine ⟨hc, ?_⟩
    rintro rfl
    omega
  · rwa [List.mem_singleton]

/-- **A step records the state that it returns**, at the end of its chain. -/
theorem Effect.recorded (h : Effect s i s' r) (hinv : s.cascade.Inv T (T * S))
    (ha : Refines s.chains a) :
    ∃ a', Refines s'.chains a' ∧
      ∀ c, c % T = 0 → a'.states c = a.states c ++ if r.id = c then [r.state] else [] := by
  obtain ⟨a', hops, ha'⟩ := ChainArray.refines_run ha h.chains
  refine ⟨a', ha', ?_⟩
  intro c hcold
  split
  · rename_i he
    subst he
    obtain ⟨state, hstate⟩ := own_states hops
    -- what is returned is the last state of the chain
    obtain ⟨-, -, hlast⟩ :=
      bind_eq_ok (((ChainArray.Transparent.of_refines ha').lastState _ _).1 h.state)
    have hlast' := getLast?_of_back hlast
    rw [hstate, List.getLast?_concat] at hlast'
    cases hlast'
    exact hstate
  · rename_i hne
    rw [List.append_nil]
    exact (Chains.same_run hops (ids_ops (h.coldest hinv hcold (Ne.symm hne)))).states

/-- A collected result is recorded at the end of its chain. -/
theorem collect_recorded (ha : Refines s.chains a) (h : s.collect i = .ok s') :
    ∃ a', Refines s'.chains a' ∧ a'.ntemps = a.ntemps ∧ ∀ c, a.states c <+: a'.states c := by
  obtain ⟨⟨q, s₁⟩, h₁, h⟩ := bind_eq_ok h
  obtain ⟨-, rfl⟩ := retrieve_effect h₁
  obtain ⟨last, chains, accepted, calls, -, happ, rfl⟩ := append_effect h
  have hop : s.chains.apply (.append q.id (s.propStates q.id)
      (energyOf i.results) i.acceptRand i.now) = .ok chains := by
    rw [ChainArray.apply, happ]
    rfl
  obtain ⟨a', hop', ha'⟩ := ChainArray.refines_step ha hop
  refine ⟨a', ha', (Chains.size_apply hop').2, ?_⟩
  obtain ⟨state, rfl⟩ := Chains.append_states hop'
  intro c
  rcases eq_or_ne c q.id with rfl | hne
  · exact ⟨[state], by simp only [Chains.push, Function.update_self]⟩
  · exact ⟨[], by simp only [Chains.push, Function.update_of_ne hne, List.append_nil]⟩

/-- **`flush` only adds** to what the chains recorded. -/
theorem flush_recorded {fs : List (Input F)} (ha : Refines s.chains a) (h : s.flush fs = .ok s') :
    ∃ a', Refines s'.chains a' ∧ a'.ntemps = a.ntemps ∧ ∀ c, a.states c <+: a'.states c := by
  unfold flush at h
  dsimp only at h
  split at h
  · cases h
  · obtain ⟨s₁, h₁, h⟩ := bind_eq_ok h
    cases h
    have hloop := foldlM_keeps
      (P := fun s => ∃ a', Refines s.chains a' ∧ a'.ntemps = a.ntemps ∧ ∀ c, a.states c <+: a'.states c)
      (fun s₁ i s₂ hs ⟨a₁, ha₁, hn₁, hpre⟩ => by
        obtain ⟨a₂, ha₂, hn₂, hpre₂⟩ := collect_recorded ha₁ hs
        exact ⟨a₂, ha₂, hn₂.trans hn₁, fun c => (hpre c).trans (hpre₂ c)⟩) h₁ ⟨a, ha, rfl,
          fun _ => List.prefix_rfl⟩
    obtain ⟨a', ha', hn, hpre⟩ := hloop
    exact ⟨a', ChainArray.refines_flushAll ha', hn, hpre⟩

end Sampler

/-- The states that the steps of a chain returned. -/
def returned (log : List (Report V F)) (id : ℕ) : List (State V F) :=
  (log.filter (·.id = id)).map (·.state)

section Run

variable [Sub V] [Proposal P V F] {s₀ s : Sampler P V F} {T S : ℕ} {tuned : Prop}

/-- What a run adds to the coldest chains is what its steps returned. -/
theorem recorded_run {a : Chains V F} (hinv : Sampler.Inv tuned T S s₀) (ha : Refines s₀.chains a)
    {is : List (Input F)} (hrun : Reach Sampler.next (fun _ _ => True) s₀ is s) :
    ∃ log, Reach Logged.next (fun _ _ => True) ⟨s₀, []⟩ is ⟨s, log⟩ ∧
      ∃ a', Refines s.chains a' ∧ ∀ c, c % T = 0 → a'.states c = a.states c ++ returned log c := by
  refine Logged.invariant
    (Q := fun log s => ∃ a', Refines s.chains a' ∧ ∀ c, c % T = 0 →
      a'.states c = a.states c ++ returned log c)
    hinv ⟨a, ha, fun _ _ => (List.append_nil _).symm⟩ ?_ hrun
  intro log s i s' r hs h ⟨a₁, ha₁, hrec⟩
  obtain ⟨a₂, ha₂, hrec₂⟩ := h.recorded hs.cascade ha₁
  refine ⟨a₂, ha₂, ?_⟩
  intro c hcold
  rw [hrec₂ c hcold, hrec c hcold, List.append_assoc]
  congr 1
  simp only [returned, List.filter_append, List.map_append]
  congr 1
  by_cases he : r.id = c
  · simp [he]
  · simp [he]

variable [Inhabited V]

/-- **What `step` returns for a coldest chain is what it records.** On a chain array made by any
operations: after any number of steps the states that the steps of the chain returned are those that it
recorded since, and all later steps and `flush` only add to them. -/
theorem returned_is_recorded {nStacks nTemps : ℕ} (hsize : nTemps * nStacks < 2 ^ 32) {now : ℤ}
    {ops : List (ChainArray.Op V F)} {chains : ChainArray V F}
    (hops : ops.foldlM ChainArray.apply (ChainArray.init nStacks nTemps now) = .ok chains)
    (jobTypes : List ℕ) (proposal : P) (sigmaAdapter betaAdapter : RegressionAdapter F)
    {swapInterval : ℕ} (hint : 0 < swapInterval)
    (hlast : ∀ i < chains.numTotalChains, ∃ state, chains.lastState i = .ok state) :
    ∃ s₀, Sampler.init jobTypes chains proposal sigmaAdapter betaAdapter swapInterval = .ok s₀ ∧
      ∀ is s, Reach Sampler.next (fun _ _ => True) s₀ is s →
        ∃ log, Reach Logged.next (fun _ _ => True) ⟨s₀, []⟩ is ⟨s, log⟩ ∧
          ∀ c, chains.isColdestInStack c →
            s.chains.record c = chains.record c ++ returned log c ∧
            (∀ is' s', Reach Sampler.next (fun _ _ => True) s is' s' →
              s.chains.record c <+: s'.chains.record c) ∧
            ∀ fs s', s.flush fs = .ok s' → s.chains.record c <+: s'.chains.record c := by
  obtain ⟨a, -, ha⟩ := ChainArray.refines_run (ChainArray.refines_init nStacks nTemps now) hops
  obtain ⟨hnstacks, hntemps⟩ := ChainArray.size_run hops
  obtain ⟨s₀, h₀, hinv₀⟩ :=
    Sampler.init_ok False jobTypes proposal sigmaAdapter betaAdapter hint.ne'
      (ChainArray.numTotalChains_of_lt (by rw [hnstacks, hntemps]; exact hsize)) hlast fun h => h.elim
  have hchains : s₀.chains = chains := (Sampler.init_effect h₀).1
  refine ⟨s₀, h₀, ?_⟩
  intro is s hrun
  have hs := Sampler.run_inv hinv₀ hrun
  obtain ⟨log, hlog, a₁, ha₁, hrec⟩ := recorded_run hinv₀ (by rw [hchains]; exact ha) hrun
  refine ⟨log, hlog, ?_⟩
  intro c hcold
  have hcold₀ : c % chains.ntemps = 0 := of_decide_eq_true hcold
  have hcold₁ : s.chains.isColdestInStack c :=
    decide_eq_true (by rw [← hs.ntemps] at hcold₀; exact hcold₀)
  refine ⟨?_, ?_, ?_⟩
  · rw [ChainArray.record_eq ha₁ hcold₁, ChainArray.record_eq ha hcold, hrec c hcold₀]
  · intro is' s' hrun'
    have hs' := Sampler.run_inv hs hrun'
    obtain ⟨log', -, a₂, ha₂, hrec'⟩ := recorded_run hs ha₁ hrun'
    have hcold₂ : s'.chains.isColdestInStack c :=
      decide_eq_true (by rw [← hs'.ntemps] at hcold₀; exact hcold₀)
    rw [ChainArray.record_eq ha₁ hcold₁, ChainArray.record_eq ha₂ hcold₂, hrec' c hcold₀]
    exact List.prefix_append _ _
  · intro fs s' hflush
    obtain ⟨a₂, ha₂, hn, hpre⟩ := Sampler.flush_recorded ha₁ hflush
    have hcold₂ : s'.chains.isColdestInStack c := by
      refine decide_eq_true ?_
      rwa [ChainArray.chainIndex, ChainArray.numTemps_eq, ha₂.ntemps, hn, ← ha₁.ntemps, hs.ntemps]
    rw [ChainArray.record_eq ha₁ hcold₁, ChainArray.record_eq ha₂ hcold₂]
    exact hpre c

section Witness

/-- Two chains in one stack, started. -/
noncomputable def startTwo : List (ChainArray.Op ℝ ℝ) :=
  [.initialise 0 0.5 2.0 1.0 1.0, .initialise 1 0.5 2.0 1.0 1.0]

theorem returned_is_recorded_two :
    ∃ (chains : ChainArray ℝ ℝ) (s₀ : Sampler Unit ℝ ℝ),
      startTwo.foldlM ChainArray.apply (ChainArray.init 1 2 0) = .ok chains ∧
      Sampler.init [0] chains () (.init 1 2 0.5 0.0 1.0) (.init 1 2 0.5 0.0 1.0) 10 = .ok s₀ ∧
      ∀ is s, Reach Sampler.next (fun _ _ => True) s₀ is s →
        ∃ log, Reach Logged.next (fun _ _ => True) ⟨s₀, []⟩ is ⟨s, log⟩ ∧
          s.chains.record 0 = ⟨0.5, 2.0, 1.0, 1.0, true, .noAttempt⟩ :: returned log 0 := by
  obtain ⟨chains, hchains, hN, hcache, hrecord, hcold⟩ : ∃ chains : ChainArray ℝ ℝ,
      startTwo.foldlM ChainArray.apply (ChainArray.init 1 2 0) = .ok chains ∧
        chains.numTotalChains = 2 ∧
      (∀ i < 2, (chains.cache i).getLast? = some ⟨0.5, 2.0, 1.0, 1.0, true, .noAttempt⟩) ∧
      chains.record 0 = [⟨0.5, 2.0, 1.0, 1.0, true, .noAttempt⟩] ∧
        chains.isColdestInStack 0 = true := by
    refine ⟨_, rfl, rfl, ?_, rfl, rfl⟩
    intro i hi
    interval_cases i <;> rfl
  obtain ⟨s₀, h₀, h⟩ :=
    returned_is_recorded (show 2 * 1 < 2 ^ 32 by norm_num) hchains [0] ()
      (.init 1 2 0.5 0.0 1.0) (.init 1 2 0.5 0.0 1.0)
    (show 0 < 10 by omega) fun i hi => ⟨_, ChainArray.lastState_eq_ok.2 ⟨hi, hcache i (hN ▸ hi)⟩⟩
  refine ⟨chains, s₀, hchains, h₀, ?_⟩
  intro is s hrun
  obtain ⟨log, hlog, hrec⟩ := h is s hrun
  refine ⟨log, hlog, ?_⟩
  rw [(hrec 0 hcold).1, hrecord]
  rfl

end Witness

end Run

end Stateline
