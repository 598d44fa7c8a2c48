import Stateline.Proof.Flight

/-!
# What a step does

All that a step of the sampler reads and changes, for any step that returns
(`Effect`): the invariants of the later modules are derived from this and never
unfold the step again. `report` is the step with a note of what became of the
chain.

* `report_effect`: **a step appends to one chain and sets its step size**; if the
  chain is locked, it swaps with the chain above and sets the temperature of that.
-/

namespace Stateline

open ChainArray (Op)

variable {P V F : Type}

/-- What becomes of a chain after its result. -/
inductive Move
  /-- A swap with the chain above. -/
  | swap
  /-- The start of a swap cascade. -/
  | start
  /-- A new proposal. -/
  | goOn
  deriving DecidableEq, Repr

/-- What a step did, and the state it returned. -/
structure Report (V F : Type) where
  id : ℕ
  move : Move
  state : State V F

/-- The chains of the step: that of the result, and the one it swaps with. -/
def Report.chains (r : Report V F) : List ℕ := if r.move = .swap then [r.id, r.id + 1] else [r.id]

namespace Sampler

variable [Double F] [Proposal P V F] {s s' s'' : Sampler P V F} {id : ℕ} {i : Input F}

/-- A step, up to what becomes of the chain. -/
def answer [Sub V] (s : Sampler P V F) (i : Input F) : Except Fault (Sampler P V F × ℕ) := do
  let (request, s) ← s.retrieve i
  let s := { s with numOutstandingJobs := predUint s.numOutstandingJobs }
  let previousState ← s.chains.lastState request.id
  let s ← s.append request.id (energyOf i.results) i
  let state ← s.chains.lastState request.id
  let s ← { s with haveFlushed := false }.adapt request.id previousState state
  return (s, request.id)

/-- The branch that `proceed` takes. -/
def move (s : Sampler P V F) (id : ℕ) : Move :=
  if s.locked id then .swap
  else if s.chains.isHottestInStack id ∧ s.chains.length id % s.swapInterval = 0 ∧
    1 < s.chains.numTemps then .start
  else .goOn

/-- A step, with the report of it. -/
def report [Sub V] (s : Sampler P V F) (i : Input F) : Except Fault (Sampler P V F × Report V F) := do
  let (s₁, id) ← s.answer i
  let s' ← s₁.proceed id i
  return (s', ⟨id, s₁.move id, ← s'.chains.lastState id⟩)

theorem step_eq [Sub V] : s.step i = (fun p => (p.1, p.2.id, p.2.state)) <$> s.report i := by
  simp only [step, report, answer, map_eq_pure_bind, bind_assoc, pure_bind]

theorem proceed_eq (hint : s.swapInterval ≠ 0) : s.proceed id i =
    match s.move id with
    | .swap => s.swap id i
    | .start => .ok { s with locked := Function.update s.locked (id - 1) true }
    | .goOn => s.propose id := by
  unfold proceed move
  rw [if_neg hint]
  split
  · rfl
  · by_cases hhot : s.chains.isHottestInStack id = true
    · rw [if_pos hhot]
      by_cases hstart : s.chains.length id % s.swapInterval = 0 ∧ 1 < s.chains.numTemps
      · rw [if_pos hstart, if_pos ⟨hhot, hstart⟩]
      · rw [if_neg hstart, if_neg fun h => hstart h.2]
    · rw [if_neg hhot, if_neg fun h => hhot h.1]

omit [Double F] [Proposal P V F] in
theorem move_swap : s.move id = .swap ↔ s.locked id = true := by
  unfold move
  split
  · rename_i h
    simp only [h]
  · rename_i h
    split <;> simp [h]

omit [Double F] [Proposal P V F] in
theorem move_start :
    s.move id = .start ↔ s.locked id = false ∧ id % s.chains.ntemps = s.chains.ntemps - 1 ∧
    1 < s.chains.ntemps ∧ s.chains.length id % s.swapInterval = 0 := by
  have hhot : s.chains.isHottestInStack id = true ↔ id % s.chains.ntemps = s.chains.ntemps - 1 :=
    decide_eq_true_iff
  rw [← hhot]
  unfold move
  split
  · rename_i h
    simp only [h, reduceCtorEq, false_and]
  · rename_i h
    rw [Bool.not_eq_true] at h
    split
    · rename_i hs
      exact iff_of_true rfl ⟨h, hs.1, hs.2.2, hs.2.1⟩
    · rename_i hs
      exact iff_of_false nofun fun ⟨_, h1, h2, h3⟩ => hs ⟨h1, h3, h2⟩

/-- Requests for `ids` are sent, and only the proposal, the counters and the calls change with it. -/
structure Sent (ids : List ℕ) (s s' : Sampler P V F) : Prop where
  chains : s'.chains = s.chains
  sigma : s'.sigmaAdapter = s.sigmaAdapter
  beta : s'.betaAdapter = s.betaAdapter
  interval : s'.swapInterval = s.swapInterval
  samples : ∀ j ∉ ids, s'.propStates j = s.propStates j
  requests : ∃ sent, s'.requester = s.requester ++ sent ∧ sent.map (·.id) = ids

omit [Double F] [Proposal P V F] in
theorem Sent.trans {ids ids' : List ℕ} (h : Sent ids s s') (h' : Sent ids' s' s'') :
    Sent (ids ++ ids') s s'' := by
  refine ⟨h'.chains.trans h.chains, h'.sigma.trans h.sigma, h'.beta.trans h.beta,
    h'.interval.trans h.interval, ?_, ?_⟩
  · intro j hj
    rw [List.mem_append, not_or] at hj
    rw [h'.samples j hj.2, h.samples j hj.1]
  · obtain ⟨sent, h₁, h₂⟩ := h.requests
    obtain ⟨sent', h₃, h₄⟩ := h'.requests
    exact ⟨sent ++ sent', by rw [h₃, h₁, List.append_assoc], by rw [List.map_append, h₂, h₄]⟩

omit [Double F] in
theorem propose_sent (h : s.propose id = .ok s') : Sent [id] s s' ∧ s'.locked = s.locked := by
  obtain ⟨last, -, h⟩ := bind_eq_ok h
  cases h
  refine ⟨⟨rfl, rfl, rfl, rfl, ?_, ⟨_, rfl, rfl⟩⟩, rfl⟩
  intro j hj
  exact Function.update_of_ne (List.ne_of_not_mem_cons hj) _ _

omit [Double F] in
/-- **Unlocking** sends for the chain above, and for the chain itself if it is the coldest. -/
theorem unlock_sent (h : s.unlock id = .ok s') :
    Sent (if id % s.chains.ntemps = 0 then [id + 1, id] else [id + 1]) s s' ∧
      s'.locked =
        if id % s.chains.ntemps = 0 then Function.update s.locked id false
        else Function.update (Function.update s.locked id false) (id - 1) true := by
  obtain ⟨s₁, h₁, h⟩ := bind_eq_ok h
  obtain ⟨hsent₁, hlock₁⟩ := propose_sent h₁
  -- the lock that was released is not among what `Sent` fixes
  have hs₁ : Sent [id + 1] s s₁ :=
    ⟨hsent₁.chains, hsent₁.sigma, hsent₁.beta, hsent₁.interval, hsent₁.samples, hsent₁.requests⟩
  have hT : s₁.chains.ntemps = s.chains.ntemps := by rw [hs₁.chains]
  rw [ChainArray.numTemps_eq, hT] at h
  split at h
  · rename_i hcold
    cases h
    rw [if_neg hcold, if_neg hcold]
    exact ⟨⟨hs₁.chains, hs₁.sigma, hs₁.beta, hs₁.interval, hs₁.samples,
      hs₁.requests⟩, by simp only [hlock₁]⟩
  · rename_i hcold
    rw [not_not] at hcold
    obtain ⟨hsent₂, hlock₂⟩ := propose_sent h
    rw [if_pos hcold, if_pos hcold]
    exact ⟨hs₁.trans hsent₂, hlock₂.trans hlock₁⟩

/-- The proposal that a result is for. -/
def proposed (s : Sampler P V F) (id : ℕ) (i : Input F) : State V F :=
  ⟨s.propStates id, energyOf i.results, s.chains.sigma id, s.chains.beta id, false, .noAttempt⟩

/-- The state that is recorded after the last one. -/
def judged (s : Sampler P V F) (id : ℕ) (i : Input F) (last : State V F) : State V F :=
  recorded (s.proposed id i) last
    (acceptProposal (s.proposed id i) last (s.chains.beta id) i.acceptRand)

/-- A result is recorded in its chain, which gets a new step size. -/
structure Answered (s : Sampler P V F) (i : Input F) (s' : Sampler P V F) (id : ℕ) : Prop where
  request : ∃ r, s.requester[i.index]? = some r ∧ r.id = id
  requester : s'.requester = s.requester.eraseIdx i.index
  chains : [Op.append id (s.propStates id) (energyOf i.results) i.acceptRand i.now,
    .setSigma id (s'.sigmaAdapter.values id)].foldlM ChainArray.apply s.chains = .ok s'.chains
  sigma : ∀ j, j ≠ id → s'.sigmaAdapter.values j = s.sigmaAdapter.values j
  samples : s'.propStates = s.propStates
  locked : s'.locked = s.locked
  beta : s'.betaAdapter = s.betaAdapter
  interval : s'.swapInterval = s.swapInterval
  ntemps : s'.chains.ntemps = s.chains.ntemps
  betas : s'.chains.beta = s.chains.beta
  sigmas : s'.chains.sigma = Function.update s.chains.sigma id (s'.sigmaAdapter.values id)
  last : ∃ last, s.chains.lastState id = .ok last ∧ s'.chains.lastState id = .ok (s.judged id i last)
  others : ∀ j, j ≠ id → s'.chains.lastState j = s.chains.lastState j

omit [Double F] [Proposal P V F] in
theorem retrieve_effect {r : SampleRequest V} (h : s.retrieve i = .ok (r, s')) :
    s.requester[i.index]? = some r ∧
      s' = { s with
        requester := s.requester.eraseIdx i.index
        calls := .retrieve r i.results :: s.calls } := by
  unfold retrieve at h
  split at h
  · rename_i hr
    obtain ⟨rfl, rfl⟩ := ok_pair_inj h
    exact ⟨hr, rfl⟩
  · cases h

omit [Proposal P V F] in
theorem append_effect {energy : F} (h : s.append id energy i = .ok s') :
    ∃ last chains accepted calls, s.chains.lastState id = .ok last ∧
      s.chains.append id (s.propStates id) energy i.acceptRand i.now = .ok (chains, accepted) ∧
      s' = { s with chains, calls } := by
  obtain ⟨last, hlast, h⟩ := bind_eq_ok h
  obtain ⟨⟨c', accepted⟩, happ, h⟩ := bind_eq_ok h
  cases h
  exact ⟨last, c', accepted, _, hlast, happ, rfl⟩

theorem adapt_effect [Sub V] {previous state : State V F} (h : s.adapt id previous state = .ok s') :
    ∃ chains proposal sigmaAdapter calls, s.chains.setSigma id (sigmaAdapter.values id) = .ok chains ∧
      (∀ j, j ≠ id → sigmaAdapter.values j = s.sigmaAdapter.values j) ∧
      s' = { s with chains, proposal, sigmaAdapter, calls } := by
  unfold adapt at h
  dsimp only at h
  obtain ⟨c', hc', h⟩ := bind_eq_ok h
  cases h
  refine ⟨c', _, _, _, ?_, ?_, rfl⟩
  · rw [RegressionAdapter.computeSigma_values, Function.update_self]
    exact hc'
  · intro j hj
    rw [RegressionAdapter.computeSigma_values, Function.update_of_ne hj]
    rfl

theorem answer_effect [Sub V] (h : s.answer i = .ok (s', id)) : Answered s i s' id := by
  -- the parts of the step: retrieve, append, adapt
  obtain ⟨⟨r, s₁⟩, h₁, h⟩ := bind_eq_ok h
  obtain ⟨previous, -, h⟩ := bind_eq_ok h
  obtain ⟨s₃, h₃, h⟩ := bind_eq_ok h
  obtain ⟨state, -, h⟩ := bind_eq_ok h
  obtain ⟨s₅, h₅, h⟩ := bind_eq_ok h
  obtain ⟨rfl, rfl⟩ := ok_pair_inj h
  obtain ⟨hr, rfl⟩ := retrieve_effect h₁
  obtain ⟨last, c₃, accepted, calls₃, hlast, happ, rfl⟩ := append_effect h₃
  obtain ⟨c₅, proposal, sigmaAdapter, calls₅, hset, hsigma, rfl⟩ := adapt_effect h₅
  dsimp only at hlast happ hset hsigma
  obtain ⟨c', accepted', happ', hacc, -, hntemps, hbeta, hsigma₃, hself, hothers⟩ :=
    ChainArray.append_ok hlast (s.propStates r.id) (energyOf i.results) i.acceptRand i.now
  rw [happ] at happ'
  obtain ⟨rfl, rfl⟩ := ok_pair_inj happ'
  have hc₅ : c₅ = { c₃ with sigma := Function.update c₃.sigma r.id (sigmaAdapter.values r.id) } := by
    obtain ⟨-, -, h⟩ := bind_eq_ok hset
    cases h
    rfl
  -- the step size is no part of a recorded state
  have hlast₅ : ∀ j, c₅.lastState j = c₃.lastState j := by
    intro j
    rw [hc₅]
    exact ChainArray.lastState_congr rfl rfl
  refine ⟨⟨r, hr, rfl⟩, rfl, ?_, hsigma, rfl, rfl, rfl, rfl, ?_, ?_, ?_, ⟨last, hlast, ?_⟩, ?_⟩
  · simp only [List.foldlM_cons, List.foldlM_nil, ChainArray.apply, happ, ok_bind, pure_bind, bind_pure]
    exact hset
  · rw [hc₅]
    exact hntemps
  · rw [hc₅]
    exact hbeta
  · rw [hc₅, ← hsigma₃]
  · rw [hlast₅, hself, judged, proposed, ← hacc]
  · intro j hj
    rw [hlast₅]
    exact hothers j hj

/-- The adapter of the temperatures after a swap. -/
def rungs (s : Sampler P V F) (id : ℕ) (accepted : Bool) : RegressionAdapter F :=
  let betaAdapter := s.betaAdapter.betaUpdate id (s.chains.beta id) (s.chains.beta (id + 1)) accepted
  if id % s.chains.ntemps = 0 then betaAdapter.computeBetaStack id else betaAdapter

/-- A chain swaps with the chain above, which gets a new temperature. -/
structure Swapped (s : Sampler P V F) (i : Input F) (s' : Sampler P V F) (id : ℕ) : Prop where
  chains : [Op.swap id (id + 1) i.swapRand,
    .setBeta (id + 1) (s'.betaAdapter.values (id + 1))].foldlM ChainArray.apply s.chains = .ok s'.chains
  requests : ∃ sent, s'.requester = s.requester ++ sent ∧
    sent.map (·.id) = if id % s.chains.ntemps = 0 then [id + 1, id] else [id + 1]
  samples : ∀ j, j ≠ id → j ≠ id + 1 → s'.propStates j = s.propStates j
  locked : s'.locked =
    if id % s.chains.ntemps = 0 then Function.update s.locked id false
    else Function.update (Function.update s.locked id false) (id - 1) true
  sigma : s'.sigmaAdapter = s.sigmaAdapter
  betas : s'.chains.beta = Function.update s.chains.beta (id + 1) (s'.betaAdapter.values (id + 1))
  sigmas : s'.chains.sigma = s.chains.sigma
  beta : ∃ low high, s.chains.lastState id = .ok low ∧ s.chains.lastState (id + 1) = .ok high ∧
    s'.betaAdapter =
      s.rungs id (acceptSwap high low (s.chains.beta (id + 1)) (s.chains.beta id) i.swapRand)

theorem swap_effect (h : s.swap id i = .ok s') : Swapped s i s' id := by
  obtain ⟨⟨c₁, swapType⟩, hswap, h⟩ := bind_eq_ok h
  obtain ⟨s₂, h₂, h⟩ := bind_eq_ok h
  obtain ⟨c₃, h₃, h⟩ := bind_eq_ok h
  cases h
  obtain ⟨high, low, hhigh, hlow, hacc, hntemps, hbeta, hsigma⟩ := ChainArray.swap_effect hswap
  obtain ⟨hsent, hlocked⟩ := unlock_sent h₂
  have hc₂ : s₂.chains = c₁ := hsent.chains
  have hb₂ : s₂.betaAdapter = s.betaAdapter := hsent.beta
  simp only [hntemps] at hsent hlocked
  rw [max_eq_right (Nat.le_succ id), min_eq_left (Nat.le_succ id)] at hacc
  rw [max_eq_right (Nat.le_succ id)] at hhigh
  rw [min_eq_left (Nat.le_succ id)] at hlow
  -- what the adapter is given after the swap is what the chains had before it
  have hrungs : (if s₂.chains.isColdestInStack id = true then
        (s₂.betaAdapter.betaUpdate id (s₂.chains.beta id) (s₂.chains.beta (id + 1))
          (decide (swapType = .accept))).computeBetaStack id
      else s₂.betaAdapter.betaUpdate id (s₂.chains.beta id) (s₂.chains.beta (id + 1))
        (decide (swapType = .accept))) =
      s.rungs id (acceptSwap high low (s.chains.beta (id + 1)) (s.chains.beta id) i.swapRand) := by
    have hcold : c₁.isColdestInStack id = true ↔ id % s.chains.ntemps = 0 := by
      rw [← hntemps]
      exact decide_eq_true_iff
    simp only [hb₂, hc₂, hcold, hbeta, hacc, rungs]
  refine ⟨?_, hsent.requests, ?_, hlocked, hsent.sigma, ?_, ?_, low, high, hlow, hhigh, hrungs⟩
  · rw [hrungs, hc₂] at h₃
    simp only [List.foldlM_cons, List.foldlM_nil, ChainArray.apply, hswap, ok_bind, pure_bind,
      bind_pure, hrungs]
    exact h₃
  · intro j hj hj'
    refine hsent.samples j ?_
    split
    · simp [hj, hj']
    · simp [hj']
  · obtain ⟨-, -, h₃⟩ := bind_eq_ok h₃
    cases h₃
    rw [hc₂, hbeta]
  · obtain ⟨-, -, h₃⟩ := bind_eq_ok h₃
    cases h₃
    rw [hc₂, hsigma]

/-- What a step does to the chain array. -/
def ops (s s' : Sampler P V F) (i : Input F) (r : Report V F) : List (Op V F) :=
  [.append r.id (s.propStates r.id) (energyOf i.results) i.acceptRand i.now,
    .setSigma r.id (s'.sigmaAdapter.values r.id)] ++
  if r.move = .swap then [.swap r.id (r.id + 1) i.swapRand,
    .setBeta (r.id + 1) (s'.betaAdapter.values (r.id + 1))]
  else []

/-- The locks after a step. -/
def locks (s : Sampler P V F) (r : Report V F) : ℕ → Bool :=
  match r.move with
  | .swap =>
    if r.id % s.chains.ntemps = 0 then Function.update s.locked r.id false
    else Function.update (Function.update s.locked r.id false) (r.id - 1) true
  | .start => Function.update s.locked (r.id - 1) true
  | .goOn => s.locked

/-- The chains that a step sends requests for. -/
def sends (s : Sampler P V F) (r : Report V F) : List ℕ :=
  match r.move with
  | .swap => if r.id % s.chains.ntemps = 0 then [r.id + 1, r.id] else [r.id + 1]
  | .start => []
  | .goOn => [r.id]

/-- **The effect of a step** that takes the request at `i.index` and reports `r`. -/
structure Effect (s : Sampler P V F) (i : Input F) (s' : Sampler P V F) (r : Report V F) : Prop where
  request : ∃ q, s.requester[i.index]? = some q ∧ q.id = r.id
  swaps : r.move = .swap ↔ s.locked r.id = true
  starts : r.move = .start ↔ s.locked r.id = false ∧ r.id % s.chains.ntemps = s.chains.ntemps - 1 ∧
    1 < s.chains.ntemps ∧ s'.chains.length r.id % s.swapInterval = 0
  chains : (s.ops s' i r).foldlM ChainArray.apply s.chains = .ok s'.chains
  locked : s'.locked = s.locks r
  requests : ∃ sent, s'.requester = s.requester.eraseIdx i.index ++ sent ∧ sent.map (·.id) = s.sends r
  samples : ∀ j ∉ r.chains, s'.propStates j = s.propStates j
  sigma : ∀ j, j ≠ r.id → s'.sigmaAdapter.values j = s.sigmaAdapter.values j
  beta : r.move ≠ .swap → s'.betaAdapter = s.betaAdapter
  betas : s'.chains.beta =
    if r.move = .swap then Function.update s.chains.beta (r.id + 1) (s'.betaAdapter.values (r.id + 1))
    else s.chains.beta
  sigmas : s'.chains.sigma = Function.update s.chains.sigma r.id (s'.sigmaAdapter.values r.id)
  outcome : r.move = .swap → ∃ last high, s.chains.lastState r.id = .ok last ∧
    s.chains.lastState (r.id + 1) = .ok high ∧
    s'.betaAdapter = s.rungs r.id
      (acceptSwap high (s.judged r.id i last) (s.chains.beta (r.id + 1))
        (s.chains.beta r.id) i.swapRand)
  state : s'.chains.lastState r.id = .ok r.state

omit [Proposal P V F] in
theorem Answered.swap {s₁ : Sampler P V F} {state : State V F} (ha : Answered s i s₁ id)
    (hs : Swapped s₁ i s' id) (hlock : s.locked id = true)
    (hstate : s'.chains.lastState id = .ok state) : Effect s i s' ⟨id, .swap, state⟩ := by
  obtain ⟨low, high, hlow, hhigh, hbeta⟩ := hs.beta
  obtain ⟨last, hlast, hlast₁⟩ := ha.last
  rw [hlast₁] at hlow
  cases hlow
  -- the append did not touch the chain above
  rw [ha.others (id + 1) (Nat.succ_ne_self id)] at hhigh
  refine ⟨ha.request, iff_of_true rfl hlock, iff_of_false nofun fun h => ?_, ?_, ?_, ?_, ?_, ?_,
    fun h => (h rfl).elim, ?_, ?_, ?_, hstate⟩
  · rw [hlock] at h
    cases h.1
  · have hsigma : s'.sigmaAdapter.values id = s₁.sigmaAdapter.values id := by rw [hs.sigma]
    simp only [ops, hsigma, if_true]
    rw [List.foldlM_append, ha.chains, ok_bind]
    exact hs.chains
  · rw [hs.locked, ha.locked, ha.ntemps]
    rfl
  · obtain ⟨sent, h₁, h₂⟩ := hs.requests
    refine ⟨sent, by rw [h₁, ha.requester], ?_⟩
    rw [h₂, ha.ntemps]
    rfl
  · intro j hj
    simp only [Report.chains, if_true, List.mem_cons, List.not_mem_nil, or_false, not_or] at hj
    rw [hs.samples j hj.1 hj.2, ha.samples]
  · intro j hj
    rw [hs.sigma]
    exact ha.sigma j hj
  · rw [if_pos rfl, hs.betas, ha.betas]
  · rw [hs.sigmas, ha.sigmas, hs.sigma]
  · intro _
    refine ⟨last, high, hlast, hhigh, ?_⟩
    rw [hbeta, rungs, rungs, ha.beta, ha.betas, ha.ntemps]

omit [Proposal P V F] in
/-- A step without a swap: nothing happens to the chain array after the result is recorded. -/
theorem Answered.noSwap {s₁ : Sampler P V F} {r : Report V F} {ids : List ℕ} (ha : Answered s i s₁ r.id)
    (hs : Sent ids s₁ s') (hmove : r.move ≠ .swap) (hids : ids = s.sends r) (hown : ∀ j ∈ ids, j = r.id)
    (hlock : s.locked r.id = false)
    (hstarts : r.move = .start ↔ s.locked r.id = false ∧ r.id % s.chains.ntemps = s.chains.ntemps - 1 ∧
      1 < s.chains.ntemps ∧ s₁.chains.length r.id % s.swapInterval = 0)
    (hlocked : s'.locked = s.locks r) (hstate : s'.chains.lastState r.id = .ok r.state) :
      Effect s i s' r := by
  refine ⟨ha.request, ?_, by rw [hs.chains]; exact hstarts, ?_, hlocked, ?_, ?_, ?_, ?_, ?_, ?_,
    fun h => (hmove h).elim, hstate⟩
  · exact iff_of_false hmove (by rw [hlock]; exact Bool.false_ne_true)
  · rw [ops, if_neg hmove, List.append_nil, hs.sigma, hs.chains]
    exact ha.chains
  · obtain ⟨sent, h₁, h₂⟩ := hs.requests
    exact ⟨sent, by rw [h₁, ha.requester], h₂.trans hids⟩
  · intro j hj
    rw [Report.chains, if_neg hmove, List.mem_singleton] at hj
    rw [hs.samples j fun hj' => hj (hown j hj'), ha.samples]
  · intro j hj
    rw [hs.sigma]
    exact ha.sigma j hj
  · intro _
    rw [hs.beta, ha.beta]
  · rw [if_neg hmove, hs.chains, ha.betas]
  · rw [hs.chains, ha.sigmas, hs.sigma]

/-- **Every step that returns has its effect.** -/
theorem report_effect [Sub V] {r : Report V F} (hint : s.swapInterval ≠ 0)
    (h : s.report i = .ok (s', r)) :
    Effect s i s' r := by
  obtain ⟨⟨s₁, id⟩, h₁, h⟩ := bind_eq_ok h
  obtain ⟨s₂, h₂, h⟩ := bind_eq_ok h
  obtain ⟨state, hstate, h⟩ := bind_eq_ok h
  obtain ⟨rfl, rfl⟩ := ok_pair_inj h
  have ha := answer_effect h₁
  rw [proceed_eq (by rw [ha.interval]; exact hint)] at h₂
  -- recording a result changes no lock
  have hunlocked : s₁.move id ≠ .swap → s.locked id = false := by
    rw [Ne, move_swap, ha.locked, Bool.not_eq_true]
    exact fun h => h
  have hstarts : s₁.move id = .start ↔ _ := move_start
  rw [ha.locked, ha.ntemps, ha.interval] at hstarts
  cases hmove : s₁.move id with
  | swap =>
    rw [hmove] at h₂
    rw [move_swap, ha.locked] at hmove
    exact ha.swap (swap_effect h₂) hmove hstate
  | start =>
    rw [hmove] at h₂ hunlocked hstarts
    cases h₂
    have hs : Sent [] s₁ { s₁ with locked := Function.update s₁.locked (id - 1) true } :=
      ⟨rfl, rfl, rfl, rfl, fun _ _ => rfl, [], (List.append_nil _).symm, rfl⟩
    refine ha.noSwap hs ?_ rfl ?_ (hunlocked (by simp)) hstarts ?_ hstate
    · simp
    · intro j hj
      cases hj
    · rw [ha.locked]
      rfl
  | goOn =>
    rw [hmove] at h₂ hunlocked hstarts
    obtain ⟨hs, hlocked⟩ := propose_sent h₂
    refine ha.noSwap hs ?_ rfl ?_ (hunlocked (by simp)) hstarts ?_ hstate
    · simp
    · intro j hj
      exact List.mem_singleton.1 hj
    · rw [hlocked, ha.locked]
      rfl

omit [Proposal P V F] in
/-- The request that a step takes is that of a chain. -/
theorem Effect.flight {r : Report V F} (h : Effect s i s' r) :
    s.cascade.flight[i.index]? = some r.id := by
  obtain ⟨q, hq, hid⟩ := h.request
  show (s.requester.map (·.id))[i.index]? = some r.id
  rw [List.getElem?_map, hq, Option.map_some, hid]

omit [Proposal P V F] in
/-- The requests after a step. -/
theorem Effect.flight_next {r : Report V F} (h : Effect s i s' r) :
    s'.cascade.flight = s.cascade.flight.eraseIdx i.index ++ s.sends r := by
  obtain ⟨sent, hreq, hids⟩ := h.requests
  show s'.requester.map (·.id) = (s.requester.map (·.id)).eraseIdx i.index ++ s.sends r
  rw [hreq, List.map_append, hids, List.eraseIdx_map]

omit [Proposal P V F] in
/-- The operations of a step are on its chains. -/
theorem ids_ops {r : Report V F} (hid : id ∉ r.chains) : ∀ op ∈ s.ops s' i r, id ∉ Chains.ids op := by
  intro op hop
  rw [ops, List.mem_append] at hop
  rw [Report.chains] at hid
  split at hop
  · rename_i hmove
    rw [if_pos hmove] at hid
    simp only [List.mem_cons, List.not_mem_nil, or_false, not_or] at hop hid
    rcases hop with (rfl | rfl) | (rfl | rfl) <;> simp [Chains.ids, hid]
  · rename_i hmove
    rw [if_neg hmove] at hid
    simp only [List.mem_cons, List.not_mem_nil, or_false] at hop hid
    rcases hop with rfl | rfl <;> simp [Chains.ids, hid]

omit [Double F] [Proposal P V F] in
/-- The requests of a step are for its chains. -/
theorem sends_subset {r : Report V F} : ∀ j ∈ s.sends r, j ∈ r.chains := by
  intro j hj
  rw [sends] at hj
  rw [Report.chains]
  cases hmove : r.move with
  | swap =>
    rw [hmove] at hj
    dsimp only at hj
    rw [if_pos rfl, List.mem_pair]
    split at hj
    · exact (List.mem_pair.1 hj).symm
    · exact .inr (List.mem_singleton.1 hj)
  | start =>
    rw [hmove] at hj
    cases hj
  | goOn =>
    rw [hmove] at hj
    exact hj

omit [Proposal P V F] in
/-- A chain that swaps is not the hottest, so that the chain above is of its stack. -/
theorem Effect.above {r : Report V F} {T S : ℕ} (h : Effect s i s' r) (hinv : s.cascade.Inv T (T * S))
    (hmove : r.move = .swap) :
      r.id + 1 < T * S ∧ (r.id + 1) % T = r.id % T + 1 ∧ (r.id + 1) / T = r.id / T := by
  have hid := hinv.lt _ (List.mem_of_getElem? h.flight)
  exact (Cascade.above_locked hinv.hottest hid (h.swaps.1 hmove)).2

omit [Proposal P V F] in
/-- A chain that swaps is unlocked. -/
theorem Effect.unlocks {r : Report V F} (h : Effect s i s' r) (hmove : r.move = .swap) :
    s'.locked r.id = false := by
  rw [h.locked, locks, hmove]
  dsimp only
  split
  · exact Function.update_self ..
  · rename_i hne
    -- chain 0 is the coldest of its stack
    have hid : r.id ≠ r.id - 1 := by
      intro he
      have h0 : r.id = 0 := by omega
      rw [h0, Nat.zero_mod] at hne
      exact hne rfl
    rw [Function.update_of_ne hid, Function.update_self]

omit [Proposal P V F] in
/-- A chain that swaps or starts a cascade locks the chain below. -/
theorem Effect.locks_below {r : Report V F} (h : Effect s i s' r) (hmove : r.move ≠ .goOn)
    (hid : r.id % s.chains.ntemps ≠ 0) :
    s'.locked (r.id - 1) = true := by
  rw [h.locked, locks]
  cases hm : r.move with
  | swap =>
    dsimp only
    rw [if_neg hid]
    exact Function.update_self ..
  | start => exact Function.update_self ..
  | goOn => exact (hmove hm).elim

omit [Proposal P V F] in
/-- The other locks stay as they are. -/
theorem Effect.locks_other {r : Report V F} (h : Effect s i s' r) {j : ℕ}
    (hself : r.move = .swap → j ≠ r.id) (hbelow : r.move ≠ .goOn → r.id % s.chains.ntemps ≠ 0 →
      j + 1 ≠ r.id) : s'.locked j = s.locked j := by
  rw [h.locked, locks]
  have hpos : r.move ≠ .goOn → r.id % s.chains.ntemps ≠ 0 → j ≠ r.id - 1 := by
    rintro hgo hne rfl
    have hlow := hbelow hgo hne
    rcases Nat.eq_zero_or_pos r.id with h0 | h0
    · rw [h0, Nat.zero_mod] at hne
      exact hne rfl
    · omega
  cases hm : r.move with
  | swap =>
    dsimp only
    split
    · exact Function.update_of_ne (hself hm) _ _
    · rename_i hne
      rw [Function.update_of_ne (hpos (by rw [hm]; exact nofun) hne), Function.update_of_ne (hself hm)]
  | start =>
    -- the hottest of several chains is not the coldest
    obtain ⟨-, hhot, h1, -⟩ := h.starts.1 hm
    exact Function.update_of_ne (hpos (by rw [hm]; exact nofun) (by omega)) _ _
  | goOn => rfl

omit [Double F] in
/-- **The constructor** sends requests and changes nothing else. -/
theorem init_effect [Inhabited V] {jobTypes : List ℕ} {chains : ChainArray V F} {proposal : P}
    {sigmaAdapter betaAdapter : RegressionAdapter F} {swapInterval : ℕ}
    (h : init jobTypes chains proposal sigmaAdapter betaAdapter swapInterval = .ok s) :
    s.chains = chains ∧ s.sigmaAdapter = sigmaAdapter ∧ s.betaAdapter = betaAdapter ∧
      s.swapInterval = swapInterval ∧ ∀ j, s.locked j = false := by
  refine Lib.foldlM_keeps (P := fun s => s.chains = chains ∧ s.sigmaAdapter = sigmaAdapter ∧
    s.betaAdapter = betaAdapter ∧ s.swapInterval = swapInterval ∧ ∀ j, s.locked j = false) ?_ h
    ⟨rfl, rfl, rfl, rfl, fun _ => rfl⟩
  intro s₁ i s₂ hs ⟨hc, hsigma, hbeta, hint, hl⟩
  obtain ⟨hsent, hlocked⟩ := propose_sent hs
  refine ⟨hsent.chains.trans hc, hsent.sigma.trans hsigma, hsent.beta.trans hbeta,
    hsent.interval.trans hint, ?_⟩
  intro j
  rw [hlocked, hl]

omit [Double F] in
/-- The requests of the constructor, in their order. -/
theorem init_flight [Inhabited V] {jobTypes : List ℕ} {chains : ChainArray V F} {proposal : P}
    {sigmaAdapter betaAdapter : RegressionAdapter F} {swapInterval : ℕ}
    (h : init jobTypes chains proposal sigmaAdapter betaAdapter swapInterval = .ok s) :
    s.cascade.flight = (List.range chains.numTotalChains).map (chains.numTotalChains - · - 1) := by
  -- by induction on the rounds that are left
  have key : ∀ (l : List ℕ) (f : ℕ → ℕ) (start : Sampler P V F),
      l.foldlM (fun s i => s.propose (f i)) start = .ok s →
        s.cascade.flight = start.cascade.flight ++ l.map f := by
    intro l f
    induction l with
    | nil =>
      intro start h
      cases h
      exact (List.append_nil _).symm
    | cons i l ih =>
      intro start h
      rw [List.foldlM_cons] at h
      obtain ⟨s₁, h₁, h⟩ := bind_eq_ok h
      obtain ⟨sent, hreq, hids⟩ := (propose_sent h₁).1.requests
      rw [ih s₁ h]
      show s₁.requester.map (·.id) ++ l.map f = start.requester.map (·.id) ++ f i :: l.map f
      rw [hreq, List.map_append, hids, List.append_assoc]
      rfl
  exact key _ _ _ h

theorem next_eq [Sub V] : s.next i = (s.report i).toOption.map (·.1) := by
  rw [next, step_eq]
  cases s.report i with
  | error e => rfl
  | ok p => rfl

/-- **A step on an outstanding request** returns, and has its effect on the chain of the request. -/
theorem next_effect [Sub V] {T S : ℕ} {tuned : Prop} (hinv : Inv tuned T S s)
    (hid : s.cascade.flight[i.index]? = some id) :
    ∃ s' r, s.next i = some s' ∧ r.id = id ∧ Inv tuned T S s' ∧ Effect s i s' r := by
  have hlt : i.index < s.cascade.flight.length := (List.getElem?_eq_some_iff.1 hid).1
  obtain ⟨s', out, hstep, hinv'⟩ := step_ok hinv i (by simpa only [cascade, List.length_map] using hlt)
  have hs' := hstep
  rw [step_eq] at hs'
  cases hreport : s.report i with
  | error e =>
    rw [hreport] at hs'
    cases hs'
  | ok p =>
    rw [hreport] at hs'
    cases hs'
    have heffect := report_effect hinv.interval hreport
    have hflight := heffect.flight
    rw [hid] at hflight
    exact ⟨p.1, p.2, by rw [next, hstep]; rfl, (Option.some.inj hflight).symm, hinv', heffect⟩

/-- No run changes the number of stacks. -/
theorem run_nstacks [Sub V] {T S : ℕ} {tuned : Prop} {s₀ : Sampler P V F} (hinv : Inv tuned T S s₀)
    {is : List (Input F)} (hrun : Lib.Reach next (fun _ _ => True) s₀ is s) :
    s.chains.nstacks = s₀.chains.nstacks := by
  refine (hrun.invariant (P := fun _ s => Inv tuned T S s ∧ s.chains.nstacks = s₀.chains.nstacks)
    ⟨hinv, rfl⟩ ?_).2
  intro _ s i s' _ ⟨hs, hn⟩ _ hnext
  refine ⟨next_inv hs hnext, ?_⟩
  rw [next_eq] at hnext
  obtain ⟨p, hp, rfl⟩ := Option.map_eq_some_iff.1 hnext
  cases hreport : s.report i with
  | error e =>
    rw [hreport] at hp
    cases hp
  | ok q =>
    rw [hreport] at hp
    cases hp
    exact (ChainArray.size_run (report_effect hs.interval hreport).chains).1.trans hn

end Sampler

/-- The sampler, with the reports of all its steps. -/
structure Logged (P V F : Type) where
  sampler : Sampler P V F
  log : List (Report V F)

namespace Logged

variable [Double F] [Sub V] [Proposal P V F] {s₀ s : Sampler P V F} {is : List (Input F)}
    {T S : ℕ} {tuned : Prop}

def next (w : Logged P V F) (i : Input F) : Option (Logged P V F) :=
  (w.sampler.report i).toOption.map fun p => ⟨p.1, w.log ++ [p.2]⟩

/-- **Invariants of the log.** What holds of the sampler and an empty log, and is kept by the effect of
a step, holds of the sampler and the log of its steps after every run. -/
theorem invariant {Q : List (Report V F) → Sampler P V F → Prop} (hinv : Sampler.Inv tuned T S s₀)
    (h₀ : Q [] s₀) (hstep : ∀ log s i s' r, Sampler.Inv tuned T S s → Sampler.Effect s i s' r →
      Q log s → Q (log ++ [r]) s')
    (hrun : Lib.Reach Sampler.next (fun _ _ => True) s₀ is s) :
    ∃ log, Lib.Reach next (fun _ _ => True) ⟨s₀, []⟩ is ⟨s, log⟩ ∧ Q log s := by
  induction hrun with
  | start => exact ⟨[], .start, h₀⟩
  | @next is s s' i hr _ hs ih =>
    obtain ⟨log, hlog, hQ⟩ := ih
    have hs₁ := Sampler.run_inv hinv hr
    rw [Sampler.next_eq] at hs
    cases hreport : s.report i with
    | error e =>
      rw [hreport] at hs
      cases hs
    | ok p =>
      rw [hreport] at hs
      cases hs
      refine ⟨log ++ [p.2], .next hlog trivial ?_, ?_⟩
      · rw [next, hreport]
        rfl
      · exact hstep _ _ _ _ _ hs₁ (Sampler.report_effect hs₁.interval hreport) hQ

end Logged

end Stateline
