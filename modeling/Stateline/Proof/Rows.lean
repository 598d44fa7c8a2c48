import Stateline.Proof.Returned
import Stateline.Proof.Service

/-!
# What a run leaves

The chains and their files, from the initial samples to the end of `flush`.

* `Chains.All.apply`: what holds of each sample and energy that a chain is given holds of all that
  the chains record, through appends, swaps and flushes.
* `SamplerProgram.holds_step`, `SamplerProgram.counted_step`: the same of the steps of the program,
  and the number of states of the coldest chains.
* `Service.service_energies`: **every recorded energy is that of its sample**, in every run of the
  service.
* `Service.service_rows`: **the files of a run that ended** have one row for each sample that was
  counted, and one more for each stack.
-/

namespace Stateline

open Lib
open ChainArray (Op)

variable {P V F : Type}

/-! ## Samples with their energies -/

namespace Chains

variable {Q : V → F → Prop} {a a' : Chains V F} {id : ℕ} {state : State V F}

/-- A chain is given a sample with an energy that `Q` relates. -/
def Gives (Q : V → F → Prop) : Op V F → Prop
  | .initialise _ sample energy _ _ | .append _ sample energy _ _ => Q sample energy
  | _ => True

/-- `Q` relates all recorded samples and energies. -/
def All (Q : V → F → Prop) (a : Chains V F) : Prop :=
  ∀ id, ∀ state ∈ a.states id, Q state.sample state.energy

theorem All.push (h : a.All Q) (hs : Q state.sample state.energy) : (a.push id state).All Q := by
  intro i x hx
  simp only [Chains.push] at hx
  rcases eq_or_ne i id with rfl | hne
  · rw [Function.update_self] at hx
    rcases List.mem_append.1 hx with hx | hx
    · exact h i x hx
    · rw [List.mem_singleton.1 hx]
      exact hs
  · rw [Function.update_of_ne hne] at hx
    exact h i x hx

theorem All.edit (h : a.All Q) (hs : Q state.sample state.energy) : (a.edit id state).All Q := by
  intro i x hx
  simp only [Chains.edit] at hx
  rcases eq_or_ne i id with rfl | hne
  · rw [Function.update_self] at hx
    rcases List.mem_append.1 hx with hx | hx
    · exact h i x (List.mem_of_mem_dropLast hx)
    · rw [List.mem_singleton.1 hx]
      exact hs
  · rw [Function.update_of_ne hne] at hx
    exact h i x hx

theorem All.last (h : a.All Q) (hl : a.last id = .ok state) : Q state.sample state.energy := by
  obtain ⟨-, -, hl⟩ := bind_eq_ok hl
  exact h id state (List.mem_of_getLast? (getLast?_of_back hl))

variable [Double F]

/-- **An operation** keeps samples and energies together: a swap exchanges them as pairs. -/
theorem All.apply {op : Op V F} (h : a.All Q) (hg : Gives Q op) (happ : a.apply op = .ok a') :
    a'.All Q := by
  cases op with
  | initialise id sample energy sigma beta =>
    obtain ⟨-, -, happ⟩ := bind_eq_ok happ
    cases happ
    exact All.push (a := { a with
      beta := Function.update a.beta id beta, sigma := Function.update a.sigma id sigma }) h hg
  | append id sample energy rand now =>
    obtain ⟨last, hlast, happ⟩ := bind_eq_ok happ
    have hQ := h.last hlast
    cases happ
    refine h.push ?_
    -- the proposal, or the last state again
    unfold recorded
    split
    · exact hg
    · exact hQ
  | swap id1 id2 rand =>
    obtain ⟨hi, hhi, happ⟩ := bind_eq_ok happ
    obtain ⟨lo, hlo, happ⟩ := bind_eq_ok happ
    have hQi := h.last hhi
    have hQo := h.last hlo
    split at happ
    · cases happ
      refine All.edit (All.edit h ?_) ?_
      · exact hQo
      · exact hQi
    · cases happ
      refine h.edit ?_
      exact hQo
  | setSigma | setBeta | flushToDisk =>
    obtain ⟨-, -, happ⟩ := bind_eq_ok happ
    cases happ
    exact h

theorem All.run {ops : List (Op V F)} (h : a.All Q) (hg : ∀ op ∈ ops, Gives Q op)
    (hops : ops.foldlM Chains.apply a = .ok a') : a'.All Q := by
  induction ops generalizing a with
  | nil =>
    cases hops
    exact h
  | cons op ops ih =>
    rw [List.forall_mem_cons] at hg
    rw [List.foldlM_cons] at hops
    obtain ⟨a₁, h₁, hops⟩ := bind_eq_ok hops
    exact ih (h.apply hg.1 h₁) hg.2 hops

end Chains

namespace ChainArray

variable {c : ChainArray V F} {Q : V → F → Prop}

/-- `Q` relates the samples and energies of all states that are in memory and in the files. -/
def All (Q : V → F → Prop) (c : ChainArray V F) : Prop :=
  (∀ id, ∀ state ∈ c.cache id, Q state.sample state.energy) ∧
    ∀ k, ∀ state ∈ c.chainFiles k, Q state.sample state.energy

theorem all_of_refines {a : Chains V F} (h : Refines c a) (hT : 0 < c.ntemps) (ha : a.All Q) :
    c.All Q := by
  refine ⟨?_, ?_⟩
  · intro id state hs
    obtain ⟨gone, hgone, -⟩ := h.cache id
    exact ha id state (by rw [← hgone]; exact List.mem_append_right _ hs)
  · intro k state hs
    obtain ⟨gone, hgone, -, hfile⟩ := h.cache (k * c.ntemps)
    have hcold : c.chainIndex (k * c.ntemps) = 0 := Nat.mul_mod_left k c.ntemps
    have hk : gone = c.chainFiles k := by rw [hfile hcold, Nat.mul_div_cancel k hT]
    exact ha (k * c.ntemps) state (by rw [← hgone, hk]; exact List.mem_append_left _ hs)

/-- Flushing a chain leaves one state in its cache, and nothing else grows. -/
theorem flushed_cache (c : ChainArray V F) (id j : ℕ) :
    ((c.flushed id).cache j).length ≤ (c.cache j).length ∧
      (j = id → (c.cache j).length < 2 ^ 32 → ((c.flushed id).cache j).length ≤ 1) := by
  unfold flushed
  dsimp only
  split
  · rename_i h0
    refine ⟨le_rfl, ?_⟩
    rintro rfl hlt
    rw [Nat.mod_eq_of_lt hlt] at h0
    omega
  · rename_i h0
    have hlast : (c.cache id).getLast?.toList.length ≤ 1 := Option.length_toList_le
    rcases eq_or_ne j id with rfl | hne
    · simp only [Function.update_self]
      exact ⟨by omega, fun _ _ => hlast⟩
    · simp only [Function.update_of_ne hne]
      exact ⟨le_rfl, fun he => (hne he).elim⟩

/-- **Flushing all chains** leaves one state in each cache. -/
theorem flushAll_cache {j : ℕ} (hj : j < c.numTotalChains) (hlt : (c.cache j).length < 2 ^ 32) :
    (c.flushAll.cache j).length ≤ 1 := by
  have key : ∀ (l : List ℕ) (c : ChainArray V F), (c.cache j).length < 2 ^ 32 →
      (j ∈ l ∨ (c.cache j).length ≤ 1) → ((l.foldl flushed c).cache j).length ≤ 1 := by
    intro l
    induction l with
    | nil => exact fun c _ h => h.resolve_left List.not_mem_nil
    | cons id l ih =>
      intro c hlt h
      obtain ⟨hle, hone⟩ := flushed_cache c id j
      refine ih (c.flushed id) (by omega) ?_
      rcases h with h | h
      · rcases List.mem_cons.1 h with he | h
        · exact .inr (hone he hlt)
        · exact .inl h
      · exact .inr (by omega)
  exact key _ c hlt (.inl (List.mem_range.2 hj))

end ChainArray

/-! ## The steps of the program -/

namespace SamplerProgram

variable {c : Setup P F} {p p' : SamplerProgram P V F} {Q : V → F → Prop}

/-- `Q` relates the samples and energies of a program. -/
def Holds (Q : V → F → Prop) : SamplerProgram P V F → Prop
  | .starting samples | .evaluating samples _ => ∀ x ∈ samples, Q x.1 x.2
  | .sampling s _ | .flushing s _ | .finished s _ => ∃ a, Refines s.chains a ∧ a.All Q

variable [Double F]

/-- A result that is retrieved has an energy for the sample of its request. -/
def Gives (c : Setup P F) (Q : V → F → Prop) (p : SamplerProgram P V F) : Act V F → Prop
  | .retrieve i => ∀ r, (outstanding c p)[i.index]? = some r → Q r.data (Sampler.energyOf i.results)
  | _ => True

/-- The loop over the chains gives each its initial sample. -/
theorem initialised {settings : StatelineSettings F} {samples : ℕ → V × F}
    {sigmaAdapter betaAdapter b : RegressionAdapter F} {now : ℤ} {n : ℕ} {chains : ChainArray V F}
    (hQ : ∀ j < n, Q (samples j).1 (samples j).2)
    (h : (List.range n).foldlM (RunSampler.initialise settings samples sigmaAdapter)
      (ChainArray.init settings.nstacks settings.ntemps now, betaAdapter) = .ok (chains, b)) :
    ∃ a, Refines chains a ∧ a.All Q ∧ (∀ id, (a.states id).length = if id < n then 1 else 0) ∧
      ∀ id, ∀ state ∈ a.states id, state.accepted = true ∧ state.swapType = .noAttempt := by
  induction n generalizing chains b with
  | zero =>
    cases h
    exact ⟨_, ChainArray.refines_init _ _ _, fun _ _ hx => (List.not_mem_nil hx).elim,
      fun id => (if_neg (Nat.not_lt_zero id)).symm, fun _ _ hx => (List.not_mem_nil hx).elim⟩
  | succ n ih =>
    rw [List.range_succ, List.foldlM_append] at h
    obtain ⟨⟨c₁, b₁⟩, h₁, h⟩ := bind_eq_ok h
    obtain ⟨a₁, ha₁, hall₁, hlen₁, hnew₁⟩ := ih (fun j hj => hQ j (Nat.lt_succ_of_lt hj)) h₁
    rw [List.foldlM_cons] at h
    obtain ⟨⟨c₂, b₂⟩, h₂, h⟩ := bind_eq_ok h
    cases h
    obtain ⟨b₃, -, h₂⟩ := bind_eq_ok h₂
    obtain ⟨c₃, h₃, h₂⟩ := bind_eq_ok h₂
    cases h₂
    obtain ⟨a₂, hop, ha₂⟩ := ChainArray.refines_step ha₁ (show c₁.apply (.initialise n _ _ _ _) = .ok _
      from h₃)
    refine ⟨a₂, ha₂, ?_, ?_, ?_⟩
    · refine hall₁.apply ?_ hop
      exact hQ n n.lt_succ_self
    · intro id
      obtain ⟨-, -, hop⟩ := bind_eq_ok hop
      cases hop
      simp only [Chains.push]
      rcases eq_or_ne id n with rfl | hne
      · rw [Function.update_self, List.length_append, hlen₁, if_neg (lt_irrefl _),
          if_pos (Nat.lt_succ_self _)]
        rfl
      · rw [Function.update_of_ne hne, hlen₁]
        simp only [show id < n + 1 ↔ id < n by omega]
    · intro id state hs
      obtain ⟨-, -, hop⟩ := bind_eq_ok hop
      cases hop
      simp only [Chains.push] at hs
      rcases eq_or_ne id n with rfl | hne
      · rw [Function.update_self] at hs
        rcases List.mem_append.1 hs with hs | hs
        · exact hnew₁ id state hs
        · rw [List.mem_singleton.1 hs]
          exact ⟨rfl, rfl⟩
      · rw [Function.update_of_ne hne] at hs
        exact hnew₁ id state hs

variable [Inhabited V] [Sub V] [Proposal P V F] {a : Act V F}

omit [Sub V] in
/-- The chains of the sampler that is constructed. -/
theorem constructed_chains {samples : List (V × F)} {s : Sampler P V F}
    (hlen : samples.length = c.numChains) (hQ : ∀ x ∈ samples, Q x.1 x.2)
    (hs : constructed c samples = .ok s) :
    ∃ a, Refines s.chains a ∧ a.All Q ∧
      (∀ id, (a.states id).length = if id < c.numChains then 1 else 0) ∧
      ∀ id, ∀ state ∈ a.states id, state.accepted = true ∧ state.swapType = .noAttempt := by
  obtain ⟨⟨chains, b⟩, h₁, hs⟩ := bind_eq_ok hs
  rw [(Sampler.init_effect hs).1]
  refine initialised ?_ h₁
  intro j hj
  rw [List.getD_eq_getElem?_getD, List.getElem?_eq_getElem (by rw [hlen]; exact hj), Option.getD_some]
  exact hQ _ (List.getElem_mem _)

omit [Inhabited V] [Sub V] [Proposal P V F] in
/-- What a step of the sampler gives to its chain. -/
theorem gives_ops {s s' : Sampler P V F} {i : Input F} {r : Report V F} (hg : s.Good False)
    (he : s.Effect i s' r)
    (hQ : ∀ q, s.requester[i.index]? = some q → Q q.data (Sampler.energyOf i.results)) :
    ∀ op ∈ s.ops s' i r, Chains.Gives Q op := by
  obtain ⟨q, hq, hid⟩ := he.request
  have happend : Q (s.propStates r.id) (Sampler.energyOf i.results) := by
    rw [← hid, (hg.flight q (List.mem_of_getElem? hq)).data]
    exact hQ q hq
  intro op hop
  unfold Sampler.ops at hop
  rcases List.mem_append.1 hop with hop | hop
  · rcases List.mem_cons.1 hop with rfl | hop
    · exact happend
    · rw [List.mem_singleton.1 hop]
      trivial
  · split at hop
    · rcases List.mem_cons.1 hop with rfl | hop
      · trivial
      · rw [List.mem_singleton.1 hop]
        trivial
    · exact (List.not_mem_nil hop).elim

omit [Inhabited V] in
/-- A step of the sampler, with its report. -/
theorem effect_of_step {s s' : Sampler P V F} {i : Input F} {id : ℕ} {state : State V F}
    (hint : s.swapInterval ≠ 0) (hs : s.step i = .ok (s', id, state)) :
    ∃ r, s.Effect i s' r ∧ r.id = id ∧ r.state = state := by
  rw [Sampler.step_eq] at hs
  cases hr : s.report i with
  | error f =>
    rw [hr] at hs
    cases hs
  | ok q =>
    rw [hr] at hs
    cases hs
    exact ⟨q.2, Sampler.report_effect hint hr, rfl, rfl⟩

/-- **Every step** keeps samples and energies together. -/
theorem holds_step (hinv : Inv c p) (h : Holds Q p) (hg : Gives c Q p a) (he : Effect c p a p') :
    Holds Q p' := by
  cases he with
  | generate => exact h
  | @evaluated samples sample i hi =>
    intro x hx
    rcases List.mem_append.1 hx with hx | hx
    · exact h x hx
    · rw [List.mem_singleton.1 hx]
      exact hg _ (by rw [hi]; rfl)
  | start hlen hs =>
    obtain ⟨a, ha, hall, -⟩ := constructed_chains hlen h hs
    exact ⟨a, ha, hall⟩
  | step hn hs =>
    obtain ⟨a, ha, hall⟩ := h
    obtain ⟨r, heff, -⟩ := effect_of_step hinv.1.interval hs
    obtain ⟨a', hops, ha'⟩ := ChainArray.refines_run ha heff.chains
    exact ⟨a', ha', hall.run (gives_ops hinv.1.good heff hg) hops⟩
  | stop => exact h
  | collect hn hs =>
    obtain ⟨a, ha, hall⟩ := h
    obtain ⟨-, r, hr, -, hop⟩ := Collecting.collect hinv hs
    obtain ⟨a', hop', ha'⟩ := ChainArray.refines_step ha hop
    refine ⟨a', ha', hall.apply ?_ hop'⟩
    exact hg r hr
  | finish =>
    obtain ⟨a, ha, hall⟩ := h
    exact ⟨a, ChainArray.refines_flushAll ha, hall⟩

/-! ## The number of rows -/

omit [Double F] [Inhabited V] [Sub V] [Proposal P V F] in
/-- The states that the coldest chains recorded. -/
def rows (c : Setup P F) (chains : ChainArray V F) : ℕ :=
  ∑ k ∈ Finset.range c.nstacks, (chains.record (k * c.ntemps)).length

/-- The number of states of the coldest chains, then of the rows in the files. -/
def Counted (c : Setup P F) : SamplerProgram P V F → Prop
  | .sampling s n => n ≤ c.nsamples ∧ rows c s.chains = n + c.nstacks
  | .flushing s n => n ≤ c.nsamples ∧
    ∑ k ∈ Finset.range c.nstacks, ((s.chains.record (k * c.ntemps)).length +
      (s.requester.map (·.id)).count (k * c.ntemps)) = n + 2 * c.nstacks
  | .finished s n => n ≤ c.nsamples ∧
    ∑ k ∈ Finset.range c.nstacks, (s.chains.chainFiles k).length = n + c.nstacks
  | _ => True

/-- A chain is the coldest of one stack, or of none. -/
theorem sum_coldest {T S id : ℕ} (hid : id < T * S) :
    (∑ k ∈ Finset.range S, if id = k * T then 1 else 0) = if id % T = 0 then 1 else 0 := by
  have hT : 0 < T := Nat.pos_of_mul_pos_right (Nat.zero_lt_of_lt hid)
  split
  · rename_i hcold
    have hiff : ∀ k, id = k * T ↔ id / T = k := by
      intro k
      constructor
      · rintro rfl
        exact Nat.mul_div_cancel k hT
      · rintro rfl
        exact (Nat.div_mul_cancel (Nat.dvd_of_mod_eq_zero hcold)).symm
    simp only [hiff]
    rw [Finset.sum_ite_eq, if_pos (Finset.mem_range.2 (Nat.div_lt_of_lt_mul hid))]
  · rename_i hcold
    refine Finset.sum_eq_zero ?_
    intro k _
    refine if_neg ?_
    rintro rfl
    exact hcold (Nat.mul_mod_left k T)

omit [Inhabited V] [Sub V] [Proposal P V F] in
theorem record_coldest {chains : ChainArray V F} {a : Chains V F} (h : Refines chains a)
    (hT : chains.ntemps = c.ntemps) (k : ℕ) : chains.record (k * c.ntemps) = a.states (k * c.ntemps) :=
  ChainArray.record_eq h (decide_eq_true (by
    rw [ChainArray.chainIndex, ChainArray.numTemps_eq, hT, Nat.mul_mod_left]))

omit [Inhabited V] [Sub V] in
/-- A request that is taken is one less of its chain. -/
theorem count_eraseIdx {l : List (SampleRequest V)} {n : ℕ} {r : SampleRequest V}
    (h : l[n]? = some r) (id : ℕ) : (l.map (·.id)).count id =
      ((l.eraseIdx n).map (·.id)).count id + if r.id = id then 1 else 0 := by
  obtain ⟨hlt, rfl⟩ := List.getElem?_eq_some_iff.1 h
  rw [← ((List.getElem_cons_eraseIdx_perm hlt).map (·.id)).count_eq id, List.map_cons, List.count_cons]
  simp only [beq_iff_eq]

/-- **Every step** records a state of the coldest chain that it counts. -/
theorem counted_step (hsize : c.nstacks * c.ntemps < 2 ^ 32) (hint : c.swapInterval ≠ 0)
    (hT : 0 < c.ntemps) (hbound : c.nsamples + 2 * c.nstacks < 2 ^ 32) (hinv : Inv c p)
    (hholds : Holds Q p) (h : Counted c p) (he : Effect c p a p') : Counted c p' := by
  have hN := StatelineSettings.numChains_of_lt hsize
  cases he with
  | generate => trivial
  | evaluated => trivial
  | @start samples s hlen hs =>
    refine ⟨Nat.zero_le _, ?_⟩
    obtain ⟨a, ha, -, hone, -⟩ := constructed_chains hlen hholds hs
    have hntemps := (inv_step hsize hint hinv (.start hlen hs)).1.ntemps
    have hterm : ∀ k ∈ Finset.range c.nstacks, (s.chains.record (k * c.ntemps)).length = 1 := by
      intro k hk
      have hlt : k * c.ntemps < c.numChains := by
        rw [hN, Nat.mul_comm]
        exact Nat.mul_lt_mul_of_pos_left (Finset.mem_range.1 hk) hT
      rw [record_coldest ha hntemps, hone, if_pos hlt]
    rw [rows, Finset.sum_congr rfl hterm, Finset.sum_const, Finset.card_range, smul_eq_mul, Nat.mul_one,
      Nat.zero_add]
  | @step s s' n id i state hn hs =>
    obtain ⟨hle, hrows⟩ := h
    obtain ⟨a, ha, -⟩ := hholds
    obtain ⟨r, heff, rfl, -⟩ := effect_of_step hinv.1.interval hs
    obtain ⟨q, hq, hid⟩ := heff.request
    have hlt : r.id < c.ntemps * c.nstacks := by
      rw [← hid]
      exact hinv.1.cascade.lt q.id (List.mem_map_of_mem (List.mem_of_getElem? hq))
    obtain ⟨a', ha', hstates⟩ := heff.recorded hinv.1.cascade ha
    have hntemps' : s'.chains.ntemps = c.ntemps :=
      (ChainArray.size_run heff.chains).2.trans hinv.1.ntemps
    have hrows' : rows c s'.chains = rows c s.chains + if r.id % c.ntemps = 0 then 1 else 0 := by
      rw [rows, rows, ← sum_coldest hlt, ← Finset.sum_add_distrib]
      refine Finset.sum_congr rfl ?_
      intro k hk
      rw [record_coldest ha' hntemps', record_coldest ha hinv.1.ntemps,
        hstates _ (Nat.mul_mod_left k c.ntemps), List.length_append]
      split <;> rfl
    show (if r.id % c.ntemps = 0 then (n + 1) % 2 ^ 32 else n) ≤ c.nsamples ∧ rows c s'.chains =
      (if r.id % c.ntemps = 0 then (n + 1) % 2 ^ 32 else n) + c.nstacks
    rw [hrows', hrows]
    split <;> omega
  | @stop s n =>
    obtain ⟨hle, hrows⟩ := h
    refine ⟨hle, ?_⟩
    show ∑ k ∈ Finset.range c.nstacks, ((s.chains.record (k * c.ntemps)).length +
      (s.requester.map (·.id)).count (k * c.ntemps)) = n + 2 * c.nstacks
    have hcount : ∀ k ∈ Finset.range c.nstacks, (s.requester.map (·.id)).count (k * c.ntemps) = 1 := by
      intro k hk
      have hlt : k * c.ntemps < c.ntemps * c.nstacks := by
        rw [Nat.mul_comm]
        exact Nat.mul_lt_mul_of_pos_left (Finset.mem_range.1 hk) hT
      exact (hinv.1.cascade.count _ hlt).trans (if_pos (.inl (Nat.mul_mod_left k c.ntemps)))
    rw [Finset.sum_add_distrib, Finset.sum_congr rfl hcount, Finset.sum_const, Finset.card_range,
      smul_eq_mul, Nat.mul_one]
    rw [rows] at hrows
    omega
  | @collect s s' n i hn hs =>
    obtain ⟨hle, hrows⟩ := h
    obtain ⟨a, ha, -⟩ := hholds
    obtain ⟨hinv', r, hr, hreq, hop⟩ := Collecting.collect hinv hs
    obtain ⟨a', hop', ha'⟩ := ChainArray.refines_step ha hop
    obtain ⟨state, rfl⟩ := Chains.append_states hop'
    refine ⟨hle, ?_⟩
    rw [← hrows]
    refine Finset.sum_congr rfl ?_
    intro k hk
    rw [record_coldest ha' hinv'.ntemps, record_coldest ha (Collecting.ntemps hinv), hreq,
      count_eraseIdx hr]
    simp only [Chains.push]
    rcases eq_or_ne (k * c.ntemps) r.id with he | hne
    · rw [he, Function.update_self, List.length_append, if_pos rfl, List.length_singleton]
      omega
    · rw [Function.update_of_ne hne, if_neg hne.symm, Nat.add_zero]
  | @finish s n hn =>
    obtain ⟨hle, hrows⟩ := h
    obtain ⟨a, ha, -⟩ := hholds
    have hinv : Collecting c s := hinv
    refine ⟨hle, ?_⟩
    have hnone : s.requester = [] := by
      have hjobs := hinv.jobs
      rw [hn] at hjobs
      exact List.length_eq_zero_iff.1 hjobs.symm
    have ha' := ChainArray.refines_flushAll ha
    have hntemps' : s.chains.flushAll.ntemps = c.ntemps := by
      rw [ha'.ntemps, ← ha.ntemps, hinv.ntemps]
    have hterm : ∀ k ∈ Finset.range c.nstacks,
        (s.chains.flushAll.chainFiles k).length + 1 = (s.chains.record (k * c.ntemps)).length := by
      intro k hk
      have hlt : k * c.ntemps < s.chains.numTotalChains := by
        rw [hinv.total, hN, Nat.mul_comm]
        exact Nat.mul_lt_mul_of_pos_left (Finset.mem_range.1 hk) hT
      have hle : (s.chains.record (k * c.ntemps)).length < 2 ^ 32 := by
        have hsum := Finset.single_le_sum (f := fun k => (s.chains.record (k * c.ntemps)).length +
          (s.requester.map (·.id)).count (k * c.ntemps)) (fun _ _ => Nat.zero_le _) hk
        omega
      obtain ⟨state, hstate⟩ := hinv.good.last _ hlt
      have hne : a.states (k * c.ntemps) ≠ [] :=
        Chains.last_ne_nil (((ChainArray.Transparent.of_refines ha).lastState _ _).1 hstate)
      have hone : (s.chains.flushAll.cache (k * c.ntemps)).length = 1 := by
        refine le_antisymm (ChainArray.flushAll_cache hlt ?_) ?_
        · rw [ChainArray.record, List.length_append] at hle
          omega
        · exact List.length_pos_of_ne_nil fun hnil => hne (ha'.newest _ hnil)
      rw [record_coldest ha hinv.ntemps, ← record_coldest ha' hntemps', ChainArray.record,
        List.length_append, hone, ChainArray.stackIndex, ChainArray.numTemps_eq, hntemps',
        Nat.mul_div_cancel k hT]
    rw [hnone] at hrows
    simp only [List.map_nil, List.count_nil, Nat.add_zero] at hrows
    rw [← Finset.sum_congr rfl hterm, Finset.sum_add_distrib, Finset.sum_const, Finset.card_range,
      smul_eq_mul, Nat.mul_one] at hrows
    show ∑ k ∈ Finset.range c.nstacks, (s.chains.flushAll.chainFiles k).length = n + c.nstacks
    omega

omit [Double F] [Inhabited V] [Sub V] [Proposal P V F] in
/-- The chains, once there are any. -/
def chains : SamplerProgram P V F → Option (ChainArray V F)
  | .sampling s _ | .flushing s _ | .finished s _ => some s.chains
  | _ => none

end SamplerProgram

/-! ## The service -/

namespace Service

variable {d : ℕ} {c : Deployment P F} {s : Service P F d}

variable [Double F] [Inhabited F] [Proposal P (Fin d → F) F]

/-- The energy of a sample: what the workers make of it. -/
def Energetic (c : Deployment P F) (sample : Fin d → F) (energy : F) : Prop :=
  energy = Sampler.energyOf (likelihoods c sample)

/-- What every run of the program keeps, when its results are likelihoods. -/
theorem recorded_of_reach (hsize : c.nstacks * c.ntemps < 2 ^ 32) (hint : c.swapInterval ≠ 0)
    {p : SamplerProgram P (Fin d → F) F} {bs : List (SamplerProgram.Act (Fin d → F) F)}
    (h : Reach (SamplerProgram.step c.toSetup) (Evaluated c) (.starting []) bs p) :
    SamplerProgram.Inv c.toSetup p ∧ SamplerProgram.Holds (Energetic c) p ∧
      (0 < c.ntemps → c.nsamples + 2 * c.nstacks < 2 ^ 32 → SamplerProgram.Counted c.toSetup p) := by
  refine h.invariant (P := fun _ p => SamplerProgram.Inv c.toSetup p ∧
    SamplerProgram.Holds (Energetic c) p ∧ (0 < c.ntemps → c.nsamples + 2 * c.nstacks < 2 ^ 32 →
      SamplerProgram.Counted c.toSetup p))
    ⟨Nat.zero_le _, fun _ hx => (List.not_mem_nil hx).elim, fun _ _ => trivial⟩ ?_
  rintro bs p b p' - ⟨hinv, hholds, hcounted⟩ hev hs
  have he := SamplerProgram.step_iff.1 hs
  have hgives : SamplerProgram.Gives c.toSetup (Energetic c) p b := by
    cases b with
    | retrieve i =>
      obtain ⟨r, hr, hresults⟩ := hev
      intro q hq
      rw [hr] at hq
      cases hq
      rw [Energetic, hresults]
    | _ => trivial
  exact ⟨SamplerProgram.inv_step hsize hint hinv he, SamplerProgram.holds_step hinv hholds hgives he,
    fun hT hbound =>
      SamplerProgram.counted_step hsize hint hT hbound hinv hholds (hcounted hT hbound) he⟩

/-- The next result is computed. -/
def again : List (Act ℝ 1) :=
  [.request, .other (.poll fun _ => 0), .other (.take ['w']), .other (.work ['w'] .nextJob),
    .other (.work ['w'] .submitResult), .other (.work ['w'] .fromMinion), .other (.deliver ['w'] 2),
    .retrieve 0 0 0]

set_option maxRecDepth 8000 in
/-- A run to its end. -/
theorem toEnd_run : ∃ (s : Service (Drawn ℝ 1) ℝ 1) (sampler : Sampler (Drawn ℝ 1) (Fin 1 → ℝ) ℝ),
    Reach (step oneChain) (Allowed oneChain) (init oneChain)
      (toAnswer ++ [.retrieve 0 0 0, .start, .stop] ++ again ++ [.finish]) s ∧
    s.cluster.created = 2 ∧ s.program = .finished sampler 0 := by
  have h : Reach (step oneChain) (Allowed oneChain) (init oneChain : Service _ _ 1) [] _ := .start
  have h := h.next' (e := .generate fun _ => 0) (by exact trivial) (by rfl)
  have h := h.next' (e := .request) (by exact trivial) (by decide)
  have h := h.next' (e := .other (.work ['w'] .fromMinion)) (by exact trivial) (by decide)
  have h := h.next' (e := .other (.deliver ['w'] 0)) (by exact trivial) (by decide)
  have h := h.next' (e := .other (.poll fun _ => 0)) (by exact trivial) (by decide)
  have h := h.next' (e := .other (.take ['w'])) (by exact trivial) (by decide)
  have h := h.next' (e := .other (.work ['w'] .nextJob)) (by exact trivial) (by decide)
  have h := h.next' (e := .other (.work ['w'] .submitResult)) (by exact trivial) (by decide)
  have h := h.next' (e := .other (.work ['w'] .fromMinion)) (by exact trivial) (by decide)
  have h := h.next' (e := .other (.deliver ['w'] 1)) (by exact trivial) (by decide)
  have h := h.next' (e := .retrieve 0 0 0) (by exact trivial) (by decide)
  have h := h.next' (e := .start) (by exact trivial) (by decide)
  have h := h.next' (e := .stop) (by exact trivial) (by decide)
  have h := h.next' (e := .request) (by exact trivial) (by decide)
  have h := h.next' (e := .other (.poll fun _ => 0)) (by exact trivial) (by decide)
  have h := h.next' (e := .other (.take ['w'])) (by exact trivial) (by decide)
  have h := h.next' (e := .other (.work ['w'] .nextJob)) (by exact trivial) (by decide)
  have h := h.next' (e := .other (.work ['w'] .submitResult)) (by exact trivial) (by decide)
  have h := h.next' (e := .other (.work ['w'] .fromMinion)) (by exact trivial) (by decide)
  have h := h.next' (e := .other (.deliver ['w'] 2)) (by exact trivial) (by decide)
  have h := h.next' (e := .retrieve 0 0 0) (by exact trivial) (by decide)
  have h := h.next' (e := .finish) (by exact trivial) (by decide)
  exact ⟨_, _, h, by decide, rfl⟩

/-- **Every recorded energy is that of its sample.** In every run of the service the energy of each
state of each chain, in memory or in a file, is the sum of the likelihoods of its sample, whatever was
swapped, flushed, answered late or computed again after a worker had left. -/
theorem service_energies (hc : c.OK d) (hT : 0 < c.ntemps) {as : List (Act F d)}
    (h : Reach (step c) (Allowed c) (init c) as s) (hbound : s.cluster.created < 2 ^ 32)
    {chains : ChainArray (Fin d → F) F} (hchains : s.program.chains = some chains) :
    chains.All fun sample energy => energy = Sampler.energyOf (likelihoods c sample) := by
  obtain ⟨-, bs, hbs⟩ := inv_of_reach hc h hbound
  obtain ⟨hinv, hholds, -⟩ := recorded_of_reach hc.chains hc.interval hbs
  cases hp : s.program with
  | starting | evaluating =>
    rw [hp] at hchains
    cases hchains
  | sampling sampler n =>
    rw [hp] at hinv hholds hchains
    cases hchains
    obtain ⟨a, ha, hall⟩ := hholds
    exact ChainArray.all_of_refines ha (by rw [hinv.1.ntemps]; exact hT) hall
  | flushing sampler n =>
    rw [hp] at hinv hholds hchains
    cases hchains
    obtain ⟨a, ha, hall⟩ := hholds
    exact ChainArray.all_of_refines ha (by rw [SamplerProgram.Collecting.ntemps hinv]; exact hT) hall
  | finished sampler n =>
    rw [hp] at hinv hholds hchains
    cases hchains
    obtain ⟨a, ha, hall⟩ := hholds
    exact ChainArray.all_of_refines ha (by rw [hinv.2]; exact hT) hall

/-- The energy of the row that a run leaves. -/
theorem service_energies_run : ∃ (s : Service (Drawn ℝ 1) ℝ 1) (chains : ChainArray (Fin 1 → ℝ) ℝ),
    Reach (step oneChain) (Allowed oneChain) (init oneChain)
      (toAnswer ++ [.retrieve 0 0 0, .start, .stop] ++ again ++ [.finish]) s ∧
    s.program.chains = some chains ∧
    chains.All fun sample energy => energy = Sampler.energyOf (likelihoods oneChain sample) := by
  obtain ⟨s, sampler, h, hcreated, hp⟩ := toEnd_run
  have hchains : s.program.chains = some sampler.chains := by rw [hp]; rfl
  exact ⟨s, sampler.chains, h, hchains, service_energies oneChain_ok Nat.one_pos h
    (by rw [hcreated]; decide) hchains⟩

/-- **The files of a run.** While the main loop runs, the coldest chains have recorded one state for
each sample that was counted and one for each stack. When `flush` has returned, just as many rows are
in the files: it records one state more for each stack, and leaves one in memory. -/
theorem service_rows (hc : c.OK d) (hT : 0 < c.ntemps) (hrows : c.nsamples + 2 * c.nstacks < 2 ^ 32)
    {as : List (Act F d)} (h : Reach (step c) (Allowed c) (init c) as s)
    (hbound : s.cluster.created < 2 ^ 32) {sampler : Sampler P (Fin d → F) F} {nsamples : ℕ} :
    (s.program = .sampling sampler nsamples → nsamples ≤ c.nsamples ∧
      ∑ k ∈ Finset.range c.nstacks, (sampler.chains.record (k * c.ntemps)).length =
        nsamples + c.nstacks) ∧
    (s.program = .finished sampler nsamples → nsamples ≤ c.nsamples ∧
      ∑ k ∈ Finset.range c.nstacks, (sampler.chains.chainFiles k).length = nsamples + c.nstacks) := by
  obtain ⟨-, bs, hbs⟩ := inv_of_reach hc h hbound
  obtain ⟨-, -, hcounted⟩ := recorded_of_reach hc.chains hc.interval hbs
  have hcounted := hcounted hT hrows
  refine ⟨?_, ?_⟩
  · intro hp
    rw [hp] at hcounted
    exact hcounted
  · intro hp
    rw [hp] at hcounted
    exact hcounted

/-- The main loop was stopped at once: there is one row. -/
theorem service_rows_run : ∃ (s : Service (Drawn ℝ 1) ℝ 1)
    (sampler : Sampler (Drawn ℝ 1) (Fin 1 → ℝ) ℝ),
    Reach (step oneChain) (Allowed oneChain) (init oneChain)
      (toAnswer ++ [.retrieve 0 0 0, .start, .stop] ++ again ++ [.finish]) s ∧
    s.program = .finished sampler 0 ∧
    ∑ k ∈ Finset.range 1, (sampler.chains.chainFiles k).length = 0 + 1 := by
  obtain ⟨s, sampler, h, hcreated, hp⟩ := toEnd_run
  exact ⟨s, sampler, h, hp, ((service_rows oneChain_ok Nat.one_pos (by decide) h
    (by rw [hcreated]; decide)).2 hp).2⟩

end Service

end Stateline
