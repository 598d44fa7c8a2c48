import Stateline.Infer.Received
import Stateline.Common.Decimal
import Stateline.Proof.Markov
import Stateline.Proof.Step

/-!
# Outstanding jobs

`numOutstandingJobs` counts the requests that are to be answered (`Ready`), in every state that
the steps reach, whatever the settings. Two things break the count.

* `flush_not_idempotent`: **`flush` collects each outstanding result once**, and leaves the
  counter at the decrement of zero, so that the next `flush` waits for results that never come.
* `failed_step_blocks`: **a step that throws has consumed a result without counting it**, so that
  the `flush` that follows does not return.
-/

namespace Stateline

open Lib
open ChainArray (Op)

variable {P V F : Type}

/-- Answers for `n` outstanding requests: each input takes one of those that are left. -/
def Answers : ℕ → List (Input F) → Prop
  | n, [] => n = 0
  | n, i :: is => i.index < n ∧ Answers (n - 1) is

/-- The requests that a list of inputs takes, with the inputs. -/
def taken : List (SampleRequest V) → List (Input F) → List (SampleRequest V × Input F)
  | _, [] => []
  | rs, i :: is =>
    match rs[i.index]? with
    | some r => (r, i) :: taken (rs.eraseIdx i.index) is
    | none => []

/-- A string that `std::stod` rejects makes the conversion throw. -/
theorem mapM_none {stod : Str → Option F} {data : List Str} (h : ∃ x ∈ data, stod x = none) :
    data.mapM stod = none := by
  induction data with
  | nil => simp at h
  | cons x data ih =>
    rw [List.mapM_cons]
    obtain ⟨y, hy, hbad⟩ := h
    rcases List.mem_cons.1 hy with rfl | hy
    · rw [hbad]
      rfl
    · rw [ih ⟨y, hy, hbad⟩]
      cases stod x <;> rfl

namespace Sampler

variable [Double F] {s s' s₀ : Sampler P V F} {id : ℕ} {i : Input F} {is : List (Input F)}

/-! ## The count -/

/-- The counter is right, and the chains of the outstanding requests have a last state. -/
structure Ready (s : Sampler P V F) : Prop where
  jobs : s.numOutstandingJobs = s.requester.length
  last : ∀ r ∈ s.requester, ∃ state, s.chains.lastState r.id = .ok state

omit [Double F] in
/-- A proposal is for a chain with a last state. -/
theorem propose_ready [Proposal P V F] (h : Ready s) (hp : s.propose id = .ok s') :
    Ready s' ∧ s'.chains = s.chains := by
  obtain ⟨last, hlast, hp⟩ := bind_eq_ok hp
  cases hp
  refine ⟨⟨?_, ?_⟩, rfl⟩
  · simp only [List.length_append, List.length_singleton, h.jobs]
  · intro r hr
    rcases List.mem_append.1 hr with hr | hr
    · exact h.last r hr
    · rw [List.mem_singleton.1 hr]
      exact ⟨last, hlast⟩

omit [Double F] in
theorem unlock_ready [Proposal P V F] (h : Ready s) (hu : s.unlock id = .ok s') :
    Ready s' ∧ s'.chains = s.chains := by
  obtain ⟨s₁, h₁, hu⟩ := bind_eq_ok hu
  obtain ⟨hr₁, hc₁⟩ := propose_ready (s := { s with locked := Function.update s.locked id false })
    ⟨h.jobs, h.last⟩ h₁
  split at hu
  · cases hu
    exact ⟨⟨hr₁.jobs, hr₁.last⟩, hc₁⟩
  · obtain ⟨hr₂, hc₂⟩ := propose_ready hr₁ hu
    exact ⟨hr₂, hc₂.trans hc₁⟩

/-- A swap takes no last state away. -/
theorem swap_ready [Proposal P V F] (h : Ready s) (hs : s.swap id i = .ok s') : Ready s' := by
  obtain ⟨⟨c₁, swapType⟩, hswap, hs⟩ := bind_eq_ok hs
  obtain ⟨s₂, h₂, hs⟩ := bind_eq_ok hs
  obtain ⟨c₃, h₃, hs⟩ := bind_eq_ok hs
  cases hs
  obtain ⟨high, low, hhigh, hlow, -⟩ := ChainArray.swap_effect hswap
  rw [max_eq_right (Nat.le_succ id)] at hhigh
  rw [min_eq_left (Nat.le_succ id)] at hlow
  obtain ⟨c', swapType', hswap', -, -, -, -, -, hall⟩ := ChainArray.swap_ok hlow hhigh i.swapRand
  rw [hswap] at hswap'
  obtain ⟨rfl, -⟩ := ok_pair_inj hswap'
  obtain ⟨hr₂, hc₂⟩ := unlock_ready (s := { s with chains := c₁ }) ⟨h.jobs, fun r hr => by
    obtain ⟨state, hstate⟩ := h.last r hr
    exact hall r.id state hstate⟩ h₂
  obtain ⟨-, -, h₃⟩ := bind_eq_ok h₃
  cases h₃
  exact ⟨hr₂.jobs, hr₂.last⟩

theorem proceed_ready [Proposal P V F] (h : Ready s) (hp : s.proceed id i = .ok s') : Ready s' := by
  unfold proceed at hp
  split at hp
  · exact swap_ready h hp
  · split at hp
    · split at hp
      · cases hp
      · split at hp
        · cases hp
          exact ⟨h.jobs, h.last⟩
        · exact (propose_ready h hp).1
    · exact (propose_ready h hp).1

/-- **A result taken is a job less.** -/
theorem answer_ready [Sub V] [Proposal P V F] (h : Ready s) (ha : s.answer i = .ok (s', id)) :
    Ready s' := by
  have hans := answer_effect ha
  have hjobs : s'.numOutstandingJobs = predUint s.numOutstandingJobs := by
    obtain ⟨⟨r, s₁⟩, h₁, ha⟩ := bind_eq_ok ha
    obtain ⟨previous, -, ha⟩ := bind_eq_ok ha
    obtain ⟨s₃, h₃, ha⟩ := bind_eq_ok ha
    obtain ⟨state, -, ha⟩ := bind_eq_ok ha
    obtain ⟨s₅, h₅, ha⟩ := bind_eq_ok ha
    obtain ⟨rfl, rfl⟩ := ok_pair_inj ha
    obtain ⟨-, rfl⟩ := retrieve_effect h₁
    obtain ⟨last, c₃, accepted, calls₃, _, _, rfl⟩ := append_effect h₃
    obtain ⟨c₅, proposal, sigmaAdapter, calls₅, _, _, rfl⟩ := adapt_effect h₅
    rfl
  obtain ⟨r, hr, rfl⟩ := hans.request
  obtain ⟨hlt, -⟩ := List.getElem?_eq_some_iff.1 hr
  refine ⟨?_, ?_⟩
  · rw [hjobs, h.jobs, hans.requester, List.length_eraseIdx_of_lt hlt, predUint, if_neg (by omega)]
  · intro q hq
    rw [hans.requester] at hq
    rcases eq_or_ne q.id r.id with he | hne
    · obtain ⟨last, -, hlast⟩ := hans.last
      rw [he]
      exact ⟨_, hlast⟩
    · rw [hans.others q.id hne]
      exact h.last q (List.mem_of_mem_eraseIdx hq)

/-- **A step keeps the count.** -/
theorem next_ready [Sub V] [Proposal P V F] (h : Ready s) (hs : s.next i = some s') : Ready s' := by
  unfold next at hs
  rw [step_eq] at hs
  cases hrep : s.report i with
  | error f =>
    rw [hrep] at hs
    cases hs
  | ok p =>
    rw [hrep] at hs
    cases hs
    obtain ⟨⟨s₁, id⟩, h₁, hrep⟩ := bind_eq_ok hrep
    obtain ⟨s₂, h₂, hrep⟩ := bind_eq_ok hrep
    obtain ⟨state, -, hrep⟩ := bind_eq_ok hrep
    cases hrep
    exact proceed_ready (answer_ready h h₁) h₂

omit [Double F] in
/-- **The constructor** counts the requests that it sends. -/
theorem init_ready [Double F] [Inhabited V] [Proposal P V F] {jobTypes : List ℕ}
    {chains : ChainArray V F} {proposal : P} {sigmaAdapter betaAdapter : RegressionAdapter F}
    {swapInterval : ℕ}
    (h : init jobTypes chains proposal sigmaAdapter betaAdapter swapInterval = .ok s) : Ready s :=
  foldlM_keeps (P := Ready) (fun _ _ _ hp hr => (propose_ready hr hp).1) h
    ⟨rfl, fun _ hr => (List.not_mem_nil hr).elim⟩

/-- **The count in every run.** -/
theorem ready_of_reach [Sub V] [Inhabited V] [Proposal P V F] {jobTypes : List ℕ}
    {chains : ChainArray V F} {proposal : P} {sigmaAdapter betaAdapter : RegressionAdapter F}
    {swapInterval : ℕ}
    (h₀ : init jobTypes chains proposal sigmaAdapter betaAdapter swapInterval = .ok s₀)
    (hrun : Reach next (fun _ _ => True) s₀ is s) : Ready s :=
  hrun.invariant (P := fun _ s => Ready s) (init_ready h₀) fun _ _ _ _ _ h _ hs => next_ready h hs

/-! ## Collecting -/

/-- The call that records a collected result. -/
def record (s : Sampler P V F) (p : SampleRequest V × Input F) : Op V F :=
  .append p.1.id (s.propStates p.1.id) (energyOf p.2.results) p.2.acceptRand p.2.now

/-- The requests of a state have chains with a last state. -/
def Recordable (s : Sampler P V F) : Prop :=
  ∀ r ∈ s.requester, ∃ state, s.chains.lastState r.id = .ok state

/-- A result for a request is recorded in its chain. -/
theorem collect_some (h : s.Recordable) {r : SampleRequest V} (hr : s.requester[i.index]? = some r) :
    ∃ s', s.collect i = .ok s' ∧ s'.Recordable ∧ s'.requester = s.requester.eraseIdx i.index ∧
      s'.propStates = s.propStates ∧ s.chains.apply (s.record (r, i)) = .ok s'.chains := by
  obtain ⟨last, hlast⟩ := h r (List.mem_of_getElem? hr)
  obtain ⟨c', accepted, happ, -, -, -, -, -, hself, hothers⟩ :=
    ChainArray.append_ok hlast (s.propStates r.id) (energyOf i.results) i.acceptRand i.now
  refine ⟨{ s with
      requester := s.requester.eraseIdx i.index
      chains := c'
      calls := .append r.id (s.propStates r.id) (energyOf i.results) i.acceptRand last
        (s.chains.sigma r.id) (s.chains.beta r.id) :: .retrieve r i.results :: s.calls },
    ?_, ?_, rfl, rfl, ?_⟩
  · simp only [collect, retrieve, hr, ok_bind, append, hlast, happ]
    rfl
  · intro q hq
    rcases eq_or_ne q.id r.id with he | hne
    · simp only [he]
      exact ⟨_, hself⟩
    · obtain ⟨state, hstate⟩ := h q (List.mem_of_mem_eraseIdx hq)
      exact ⟨state, (hothers q.id hne).trans hstate⟩
  · simp only [record, ChainArray.apply, happ, ok_bind]
    rfl

/-- There is nothing to wait for. -/
theorem collect_none (hr : s.requester[i.index]? = none) : s.collect i = .error .blocked := by
  unfold collect retrieve
  rw [hr]
  rfl

/-- **What the loop of `flush` did**: each input took one request, whose result was recorded. -/
structure Collected (s : Sampler P V F) (is : List (Input F)) (s' : Sampler P V F) : Prop where
  inputs : (taken s.requester is).map Prod.snd = is
  requests : ((taken s.requester is).map Prod.fst ++ s'.requester).Perm s.requester
  chains : ((taken s.requester is).map s.record).foldlM ChainArray.apply s.chains = .ok s'.chains

/-- The loop counts down. -/
theorem Collected.length (h : Collected s is s') :
    is.length + s'.requester.length = s.requester.length := by
  have hlen := h.requests.length_eq
  have hinputs := congrArg List.length h.inputs
  rw [List.length_append, List.length_map] at hlen
  rw [List.length_map] at hinputs
  rw [← hinputs, hlen]

/-- **The loop of `flush`** waits for ever, or collects. -/
theorem collect_loop (h : s.Recordable) (is : List (Input F)) :
    is.foldlM collect s = .error .blocked ∨ ∃ s', is.foldlM collect s = .ok s' ∧ Collected s is s' := by
  induction is generalizing s with
  | nil => exact .inr ⟨s, rfl, rfl, .refl _, rfl⟩
  | cons i is ih =>
    rw [List.foldlM_cons]
    cases hr : s.requester[i.index]? with
    | none => exact .inl (by rw [collect_none hr]; rfl)
    | some r =>
      obtain ⟨s₁, h₁, hrec₁, hreq₁, hprop₁, hop₁⟩ := collect_some h hr
      rw [h₁, ok_bind]
      rcases ih hrec₁ with hblocked | ⟨s', hs', hc⟩
      · exact .inl hblocked
      · have htaken : taken s.requester (i :: is) = (r, i) :: taken s₁.requester is := by
          rw [taken, hr, hreq₁]
        have hrecord : s₁.record = s.record := by
          funext p
          rw [record, record, hprop₁]
        obtain ⟨hlt, hget⟩ := List.getElem?_eq_some_iff.1 hr
        refine .inr ⟨s', hs', ?_, ?_, ?_⟩
        · rw [htaken, List.map_cons, hc.inputs]
        · rw [htaken, List.map_cons, List.cons_append]
          refine (hc.requests.cons r).trans ?_
          rw [hreq₁, ← hget]
          exact List.getElem_cons_eraseIdx_perm hlt
        · rw [htaken, List.map_cons, List.foldlM_cons, hop₁, ok_bind, ← hrecord]
          exact hc.chains

/-- With answers for all, the loop returns. -/
theorem collect_answers (h : s.Recordable) (ha : Answers s.requester.length is) :
    ∃ s', is.foldlM collect s = .ok s' := by
  induction is generalizing s with
  | nil => exact ⟨s, rfl⟩
  | cons i is ih =>
    obtain ⟨hlt, ha⟩ := ha
    obtain ⟨s₁, h₁, hrec₁, hreq₁, -⟩ := collect_some h (List.getElem?_eq_getElem hlt)
    rw [List.foldlM_cons, h₁, ok_bind]
    refine ih hrec₁ ?_
    rw [hreq₁, List.length_eraseIdx_of_lt hlt]
    exact ha

omit [Double F] in
theorem Answers.length {n : ℕ} (h : Answers n is) : is.length = n := by
  induction is generalizing n with
  | nil => exact h.symm
  | cons i is ih =>
    have hlen := ih h.2
    have hpos := h.1
    rw [List.length_cons]
    omega

/-- More results than there are requests never come. -/
theorem flush_blocked (h : s.Recordable) (hjobs : s.requester.length < s.numOutstandingJobs)
    (is : List (Input F)) : s.flush is = .error .blocked := by
  unfold flush
  dsimp only
  split
  · rfl
  · rename_i hlen
    rw [not_not] at hlen
    rcases collect_loop (s := { s with haveFlushed := true }) h is with hblocked | ⟨s', -, hc⟩
    · rw [hblocked]
      rfl
    · have hcount := hc.length
      simp only at hcount
      omega

/-- **A sampler that can be flushed**: the counter is right, and once the outstanding requests are
answered `flush` returns with nothing left. -/
def Flushable (s : Sampler P V F) : Prop :=
  s.numOutstandingJobs = s.requester.length ∧
    ∀ is, Answers s.requester.length is → ∃ s', s.flush is = .ok s' ∧ s'.requester = []

/-- **What `flush` did**, where it returned. -/
theorem flush_collected (h : Ready s) (hf : s.flush is = .ok s') :
    ∃ s₁, Collected s is s₁ ∧ is.length = s.requester.length ∧ s'.requester = [] ∧
      s'.chains = s₁.chains.flushAll ∧ s'.numOutstandingJobs = predUint 0 ∧ s'.haveFlushed = true := by
  unfold flush at hf
  dsimp only at hf
  split at hf
  · cases hf
  · rename_i hlen
    rw [not_not, h.jobs] at hlen
    obtain ⟨s₁, h₁, hf⟩ := bind_eq_ok hf
    cases hf
    rcases collect_loop (s := { s with haveFlushed := true }) h.last is with hblocked | ⟨s₂, h₂, hc⟩
    · rw [hblocked] at h₁
      cases h₁
    · rw [h₂] at h₁
      cases h₁
      have hcount := hc.length
      have hflushed := foldlM_keeps (P := fun s : Sampler P V F => s.haveFlushed = true)
        (fun s i s' hs hh => by
          obtain ⟨⟨r, s₃⟩, h₃, hs⟩ := bind_eq_ok hs
          obtain ⟨-, rfl⟩ := retrieve_effect h₃
          obtain ⟨last, chains, accepted, calls, _, _, rfl⟩ := append_effect hs
          exact hh) h₂ rfl
      simp only [hlen] at hcount
      have hnone : s₁.requester.length = 0 := by omega
      exact ⟨s₁, ⟨hc.inputs, hc.requests, hc.chains⟩, hlen, List.length_eq_zero_iff.1 hnone, rfl, rfl,
        hflushed⟩

theorem Ready.flushable (h : Ready s) : s.Flushable := by
  refine ⟨h.jobs, ?_⟩
  intro is ha
  obtain ⟨s₁, h₁⟩ := collect_answers (s := { s with haveFlushed := true }) h.last ha
  have hf : s.flush is =
      .ok { s₁ with numOutstandingJobs := predUint 0, chains := s₁.chains.flushAll } := by
    unfold flush
    dsimp only
    rw [if_neg (by rw [not_not, h.jobs]; exact Answers.length ha), h₁]
    rfl
  obtain ⟨-, -, -, hnone, -⟩ := flush_collected h hf
  exact ⟨_, hf, hnone⟩

/-- **A flush once and for all**: each outstanding result is recorded in its chain, once, the counter
is zero, and a second flush without results returns. -/
structure FlushedOnce (s : Sampler P V F) (is : List (Input F)) (s' : Sampler P V F) : Prop where
  length : is.length = s.requester.length
  collected : ∃ s₁, Collected s is s₁ ∧ s'.chains = s₁.chains.flushAll
  done : s'.requester = []
  destroyed : s'.destroy [] = .ok s'
  count : s'.numOutstandingJobs = 0
  again : ∃ s'', s'.flush [] = .ok s''

section Started

variable [Sub V] [Inhabited V] [Proposal P V F] {jobTypes : List ℕ} {chains : ChainArray V F}
    {proposal : P} {sigmaAdapter betaAdapter : RegressionAdapter F} {swapInterval : ℕ}

/-- **`flush` collects each outstanding result once, and cannot be called again**: the counter is
left at the decrement of zero, and a second flush waits whatever comes. The destructor does not
flush again. -/
theorem flush_not_idempotent
    (h₀ : init jobTypes chains proposal sigmaAdapter betaAdapter swapInterval = .ok s₀)
    {js : List (Input F)} (hrun : Reach next (fun _ _ => True) s₀ js s) :
    s.Flushable ∧ ∀ is s', s.flush is = .ok s' →
      is.length = s.requester.length ∧ (∃ s₁, Collected s is s₁ ∧ s'.chains = s₁.chains.flushAll) ∧
      s'.requester = [] ∧ s'.destroy [] = .ok s' ∧ s'.numOutstandingJobs = 2 ^ 32 - 1 ∧
      (∀ is', s'.flush is' = .error .blocked) ∧ ¬ FlushedOnce s is s' := by
  have hready := ready_of_reach h₀ hrun
  refine ⟨hready.flushable, ?_⟩
  intro is s' hf
  obtain ⟨s₁, hc, hlen, hnone, hchains, hjobs, hflushed⟩ := flush_collected hready hf
  have hcount : s'.numOutstandingJobs = 2 ^ 32 - 1 := hjobs
  refine ⟨hlen, ⟨s₁, hc, hchains⟩, hnone, if_pos hflushed, hcount, ?_, ?_⟩
  · refine flush_blocked ?_ ?_
    · intro r hr
      rw [hnone] at hr
      cases hr
    · rw [hnone, hcount, List.length_nil]
      norm_num
  · intro honce
    have hzero := honce.count
    omega

/-- **A step that throws** has consumed its message and counted nothing: it changes no chain and no
adapter, but the flush that follows waits for one message too many. -/
theorem failed_step_blocks
    (h₀ : init jobTypes chains proposal sigmaAdapter betaAdapter swapInterval = .ok s₀)
    {js : List (Input F)} (hrun : Reach next (fun _ _ => True) s₀ js s) (stod : Str → Option F)
    {m : Received F} (hm : m.index < s.requester.length) (hbad : ∃ x ∈ m.data, stod x = none) :
    ∃ s', s.stepReceived stod m = .threw s' ∧ s'.chains = s.chains ∧
      s'.sigmaAdapter = s.sigmaAdapter ∧ s'.betaAdapter = s.betaAdapter ∧ s'.proposal = s.proposal ∧
      s'.numOutstandingJobs = s'.requester.length + 1 ∧
      (∀ is, caught is (s.stepReceived stod m) = .error .blocked) ∧ ¬ s'.Flushable := by
  have hready := ready_of_reach h₀ hrun
  have hthrew :
      s.stepReceived stod m = .threw { s with requester := s.requester.eraseIdx m.index } := by
    unfold stepReceived
    rw [if_pos hm, mapM_none hbad]
  have hcount : s.numOutstandingJobs = (s.requester.eraseIdx m.index).length + 1 := by
    rw [hready.jobs, List.length_eraseIdx_of_lt hm]
    omega
  refine ⟨_, hthrew, rfl, rfl, rfl, rfl, hcount, ?_, ?_⟩
  · intro is
    rw [hthrew]
    exact flush_blocked (s := { s with requester := s.requester.eraseIdx m.index })
      (fun r hr => hready.last r (List.mem_of_mem_eraseIdx hr))
      (by rw [hcount]; exact Nat.lt_succ_self _) is
  · rintro ⟨hjobs, -⟩
    simp only at hjobs
    omega

end Started

/-! ## Two chains -/

section Witness

/-- Two chains have two requests outstanding when they are started. -/
theorem twoStarted : ∃ s₀ : Sampler Unit ℝ ℝ,
    init [0] twoChains () (.init 1 2 0.5 0.0 1.0) (.init 1 2 0.5 0.0 1.0) 10 = .ok s₀ ∧
      s₀.requester.length = 2 := by
  obtain ⟨s₀, h₀, -⟩ := init_ok (P := Unit) False [0] () (.init 1 2 0.5 0.0 1.0) (.init 1 2 0.5 0.0 1.0)
    (show (10 : ℕ) ≠ 0 by decide) (ChainArray.numTotalChains_of_lt twoChains_size) twoChains_last
    fun h => h.elim
  refine ⟨s₀, h₀, ?_⟩
  have hflight := congrArg List.length (init_flight h₀)
  rwa [cascade, List.length_map, List.length_map, List.length_range] at hflight

/-- The results of both. -/
noncomputable def twoResults : List (Input ℝ) := List.replicate 2 ⟨0, [1.0], 0.5, 0.5, 0⟩

theorem twoResults_answers : Answers 2 twoResults := ⟨by decide, by decide, rfl⟩

theorem flush_not_idempotent_two : ∃ s₀ s' : Sampler Unit ℝ ℝ,
    init [0] twoChains () (.init 1 2 0.5 0.0 1.0) (.init 1 2 0.5 0.0 1.0) 10 = .ok s₀ ∧
      s₀.flush twoResults = .ok s' ∧ s'.requester = [] ∧ s'.flush [] = .error .blocked := by
  obtain ⟨s₀, h₀, hlen⟩ := twoStarted
  obtain ⟨hflushable, hall⟩ := flush_not_idempotent h₀ .start
  obtain ⟨s', hf, hnone⟩ := hflushable.2 twoResults (by rw [hlen]; exact twoResults_answers)
  exact ⟨s₀, s', h₀, hf, hnone, (hall _ _ hf).2.2.2.2.2.1 []⟩

/-- **The second flush waits**: two chains are started, both results are collected, and the counter
says 4294967295. -/
theorem second_flush_waits : ∃ s₀ s' : Sampler Unit ℝ ℝ,
    init [0] twoChains () (.init 1 2 0.5 0.0 1.0) (.init 1 2 0.5 0.0 1.0) 10 = .ok s₀ ∧
      s₀.flush twoResults = .ok s' ∧ s'.numOutstandingJobs = 4294967295 ∧
      ¬ FlushedOnce s₀ twoResults s' := by
  obtain ⟨s₀, h₀, hlen⟩ := twoStarted
  have hready := init_ready h₀
  obtain ⟨s', hf, -⟩ := hready.flushable.2 twoResults (by rw [hlen]; exact twoResults_answers)
  obtain ⟨-, -, -, -, -, hcount, -⟩ := flush_collected hready hf
  refine ⟨s₀, s', h₀, hf, hcount, ?_⟩
  intro honce
  exact absurd (hcount.symm.trans honce.count) (by decide)

/-- `std::stod`, as a real number. -/
noncomputable def stodReal (str : Str) : Option ℝ := (stod str).map fun q => (q : ℝ)

/-- A result that is no number. -/
noncomputable def badResult : Received ℝ := ⟨0, [['x']], 0.5, 0.5, 0⟩

theorem badResult_rejected : ∃ x ∈ badResult.data, stodReal x = none := by
  have hx : stod ['x'] = none := by decide
  exact ⟨['x'], List.mem_singleton_self _, by rw [stodReal, hx]; rfl⟩

theorem failed_step_blocks_two : ∃ s₀ s' : Sampler Unit ℝ ℝ,
    init [0] twoChains () (.init 1 2 0.5 0.0 1.0) (.init 1 2 0.5 0.0 1.0) 10 = .ok s₀ ∧
      s₀.stepReceived stodReal badResult = .threw s' ∧ s'.chains = twoChains ∧
      ∀ is, caught is (s₀.stepReceived stodReal badResult) = .error .blocked := by
  obtain ⟨s₀, h₀, hlen⟩ := twoStarted
  obtain ⟨s', hthrew, hchains, -, -, -, -, hblocked, -⟩ :=
    failed_step_blocks h₀ .start stodReal (m := badResult) (by rw [hlen]; decide) badResult_rejected
  exact ⟨s₀, s', h₀, hthrew, hchains.trans (init_effect h₀).1, hblocked⟩

/-- **One message too many**: two chains are started, the first result is no number, and the counter
says 2 with one request outstanding. -/
theorem one_too_many : ∃ s₀ s' : Sampler Unit ℝ ℝ,
    init [0] twoChains () (.init 1 2 0.5 0.0 1.0) (.init 1 2 0.5 0.0 1.0) 10 = .ok s₀ ∧
      s₀.stepReceived stodReal badResult = .threw s' ∧ s'.numOutstandingJobs = 2 ∧
      s'.requester.length = 1 ∧ ¬ s'.Flushable := by
  obtain ⟨s₀, h₀, hlen⟩ := twoStarted
  have hcount : s₀.numOutstandingJobs = 2 := (init_ready h₀).jobs.trans hlen
  have hleft : (s₀.requester.eraseIdx 0).length = 1 := by
    rw [List.length_eraseIdx_of_lt (by omega), hlen]
  refine ⟨s₀, { s₀ with requester := s₀.requester.eraseIdx 0 }, h₀, ?_, hcount, hleft, ?_⟩
  · unfold stepReceived
    rw [mapM_none badResult_rejected, if_pos (by rw [hlen]; decide)]
    rfl
  · rintro ⟨hjobs, -⟩
    rw [hleft] at hjobs
    exact absurd (hcount.symm.trans hjobs) (by decide)

end Witness

end Sampler

end Stateline
