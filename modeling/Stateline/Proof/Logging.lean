import Stateline.Proof.Diagnostics
import Stateline.Proof.Rows

/-!
# What the logger tells

The logger sees the states that `step` returns, and nothing of the chains. Swaps change what the hotter
chains have recorded after they were logged, but the coldest chain of a stack records what is logged.

* `TableLogger.tells`: what is kept of a log is a count, a minimum or the last of its entries.
* `LoggedProgram.inv_step`: **the log of the main loop** is the record of the coldest chains, without
  their initial states.
* `LoggedProgram.logger_reports`: the counts and rates that the API shows are those of the records.
* `LoggedProgram.logger_diagnoses`: the convergence test is that of the recorded samples.
-/

namespace Stateline

open Lib
open ChainArray (Op)

/-! ## A log -/

namespace TableLogger

variable {F : Type} [CMath F] {d : ℕ} {infinity : F} {nstacks nchains : ℕ}

/-- The logger after the updates of a log. -/
def told (l : TableLogger F d) (log : List (ℕ × State (Fin d → F) F)) : TableLogger F d :=
  log.foldl (fun l u => l.update u.1 u.2) l

theorem told_concat (l : TableLogger F d) (log : List (ℕ × State (Fin d → F) F)) (j : ℕ)
    (s : State (Fin d → F) F) : l.told (log ++ [(j, s)]) = (l.told log).update j s :=
  List.foldl_append

/-- The states of a chain in a log. -/
def ofChain {V F : Type} (log : List (ℕ × State V F)) (id : ℕ) : List (State V F) :=
  (log.filter fun u => u.1 = id).map (·.2)

theorem ofChain_concat {V F : Type} (log : List (ℕ × State V F)) (j : ℕ) (s : State V F) (id : ℕ) :
    ofChain (log ++ [(j, s)]) id = ofChain log id ++ if j = id then [s] else [] := by
  unfold ofChain
  rw [List.filter_append, List.map_append]
  congr 1
  by_cases h : j = id
  · simp [h]
  · simp [h]

theorem tick_self (counts : ℕ → ℕ) (id : ℕ) (b : Bool) {n : ℕ} (h : counts id = n % 2 ^ 32) :
    tick counts id b id = (n + if b then 1 else 0) % 2 ^ 32 := by
  rw [tick, Function.update_self, h, Nat.mod_add_mod]

theorem tick_of_ne (counts : ℕ → ℕ) {id j : ℕ} (b : Bool) (h : id ≠ j) :
    tick counts j b id = counts id :=
  Function.update_of_ne h _ _

/-- What is kept of the states of a chain. -/
structure Tells (infinity : F) (l : TableLogger F d) (id : ℕ) (states : List (State (Fin d → F) F)) :
    Prop where
  length : l.lengths id = (1 + states.length) % 2 ^ 32
  accepts : l.nAcceptsGlobal id = (1 + states.countP (·.accepted)) % 2 ^ 32
  swaps : l.nSwapsGlobal id = states.countP (fun s => s.swapType = .accept) % 2 ^ 32
  attempts : l.nSwapAttemptsGlobal id = (1 + states.countP fun s => s.swapType ≠ .noAttempt) % 2 ^ 32
  minEnergy : l.minEnergies id = (states.map (·.energy)).foldl Double.min infinity
  energy : l.energies id = (states.map (·.energy)).getLast?.getD 0.0

theorem Tells.update {l : TableLogger F d} {id : ℕ} {states : List (State (Fin d → F) F)}
    (h : l.Tells infinity id states) (j : ℕ) (s : State (Fin d → F) F) :
    (l.update j s).Tells infinity id (states ++ if j = id then [s] else []) := by
  by_cases hj : j = id
  · subst hj
    rw [if_pos rfl]
    refine ⟨?_, ?_, ?_, ?_, ?_, ?_⟩
    · rw [List.length_append, ← Nat.add_assoc]
      exact tick_self _ _ _ h.length
    · rw [List.countP_append, List.countP_singleton, ← Nat.add_assoc]
      exact tick_self _ _ _ h.accepts
    · rw [List.countP_append, List.countP_singleton]
      exact tick_self _ _ _ h.swaps
    · rw [List.countP_append, List.countP_singleton, ← Nat.add_assoc]
      exact tick_self _ _ _ h.attempts
    · rw [List.map_append, List.foldl_append, ← h.minEnergy]
      exact Function.update_self ..
    · rw [List.map_append, List.map_singleton, List.getLast?_concat]
      exact Function.update_self ..
  · have hne : id ≠ j := Ne.symm hj
    rw [if_neg hj, List.append_nil]
    exact ⟨(tick_of_ne _ _ hne).trans h.length, (tick_of_ne _ _ hne).trans h.accepts,
      (tick_of_ne _ _ hne).trans h.swaps, (tick_of_ne _ _ hne).trans h.attempts,
      (Function.update_of_ne hne _ _).trans h.minEnergy, (Function.update_of_ne hne _ _).trans h.energy⟩

/-- **After any log**, for each chain. -/
theorem tells (infinity : F) (nstacks nchains : ℕ) (log : List (ℕ × State (Fin d → F) F)) (id : ℕ) :
    ((init infinity nstacks nchains).told log).Tells infinity id (ofChain log id) ∧
      ((init infinity nstacks nchains : TableLogger F d).told log).size =
        (nstacks * nchains) % 2 ^ 32 := by
  induction log using List.reverseRecOn with
  | nil => exact ⟨⟨rfl, rfl, rfl, rfl, rfl, rfl⟩, rfl⟩
  | append_singleton log u ih =>
    obtain ⟨j, s⟩ := u
    rw [told_concat, ofChain_concat]
    exact ⟨ih.1.update j s, ih.2⟩

/-- The diagnostic sees the whole log. -/
theorem diagnostic_told (l : TableLogger ℝ d) (log : List (ℕ × State (Fin d → ℝ) ℝ)) :
    (l.told log).diagnostic = l.diagnostic.run log := by
  induction log generalizing l with
  | nil => rfl
  | cons u log ih => exact ih (l.update u.1 u.2)

end TableLogger

/-! ## Lengths -/

namespace Chains

variable {V F : Type} [Double F] {a a' : Chains V F}

/-- The states that an operation adds to a chain. -/
def adds (id : ℕ) : Op V F → ℕ
  | .initialise id' _ _ _ _ | .append id' _ _ _ _ => if id' = id then 1 else 0
  | _ => 0

omit [Double F] in
theorem length_push (a : Chains V F) (i : ℕ) (state : State V F) (id : ℕ) :
    ((a.push i state).states id).length = (a.states id).length + if i = id then 1 else 0 := by
  by_cases h : i = id
  · subst h
    simp [push]
  · simp [push, Function.update_of_ne (Ne.symm h), h]

omit [Double F] in
theorem length_edit {i : ℕ} (h : a.states i ≠ []) (state : State V F) (id : ℕ) :
    ((a.edit i state).states id).length = (a.states id).length := by
  rcases eq_or_ne id i with rfl | hne
  · have := List.length_pos_of_ne_nil h
    simp only [edit, Function.update_self, List.length_append, List.length_dropLast,
      List.length_singleton]
    omega
  · simp only [edit, Function.update_of_ne hne]

/-- A swap edits, and adds nothing. -/
theorem length_apply {op : Op V F} (h : a.apply op = .ok a') (id : ℕ) :
    (a'.states id).length = (a.states id).length + adds id op := by
  cases op with
  | initialise i sample energy sigma beta =>
    obtain ⟨-, -, h⟩ := bind_eq_ok h
    cases h
    exact length_push _ _ _ _
  | append i sample energy rand now =>
    obtain ⟨last, -, h⟩ := bind_eq_ok h
    cases h
    exact length_push _ _ _ _
  | swap id1 id2 rand =>
    obtain ⟨hi, hhi, h⟩ := bind_eq_ok h
    obtain ⟨lo, hlo, h⟩ := bind_eq_ok h
    have hh := last_ne_nil hhi
    have hl := last_ne_nil hlo
    split at h
    · cases h
      refine (length_edit ?_ _ _).trans (length_edit hh _ _)
      rw [Ne, edit_states]
      exact fun hs => hl hs.1
    · cases h
      exact length_edit hl _ _
  | setSigma | setBeta | flushToDisk =>
    obtain ⟨-, -, h⟩ := bind_eq_ok h
    cases h
    rfl

theorem length_run {ops : List (Op V F)} (h : ops.foldlM apply a = .ok a') (id : ℕ) :
    (a'.states id).length = (a.states id).length + (ops.map (adds id)).sum := by
  induction ops generalizing a with
  | nil =>
    cases h
    rfl
  | cons op ops ih =>
    rw [List.foldlM_cons] at h
    obtain ⟨a₁, h₁, h⟩ := bind_eq_ok h
    rw [ih h, length_apply h₁, List.map_cons, List.sum_cons, Nat.add_assoc]

end Chains

/-- **A step** adds one state to its chain, and the coldest chains record what it returns. -/
theorem Sampler.Effect.logged {P V F : Type} [Double F] [Sub V] [Proposal P V F] {s s' : Sampler P V F}
    {a : Chains V F} {i : Input F} {r : Report V F} {T S : ℕ} (h : Effect s i s' r)
    (hinv : s.cascade.Inv T (T * S)) (hT : s.chains.ntemps = T) (ha : Refines s.chains a) :
    ∃ a', Refines s'.chains a' ∧
      (∀ id, (a'.states id).length = (a.states id).length + if r.id = id then 1 else 0) ∧
      ∀ id, id % T = 0 → a'.states id = a.states id ++ if r.id = id then [r.state] else [] := by
  obtain ⟨a', hops, ha'⟩ := ChainArray.refines_run ha h.chains
  obtain ⟨a₁, ha₁, hrec⟩ := h.recorded hinv ha
  refine ⟨a', ha', ?_, ?_⟩
  · intro id
    rw [Chains.length_run hops]
    congr 1
    unfold ops
    split <;> simp [Chains.adds]
  · intro id hcold
    have hcold' : s'.chains.isColdestInStack id := decide_eq_true (by
      rw [ChainArray.chainIndex, ChainArray.numTemps_eq, ha'.ntemps, (Chains.size_run hops).2,
        ← ha.ntemps, hT, hcold])
    rw [← ChainArray.record_eq ha' hcold', ChainArray.record_eq ha₁ hcold', hrec id hcold]

/-! ## The main loop -/

namespace LoggedProgram

open TableLogger (ofChain)

variable {P F : Type} {d : ℕ} [CMath F] {c : Setup P F} {infinity : F}

/-- The chains recorded what is in the log, after their initial states. -/
def Recorded (c : Setup P F) (chains : ChainArray (Fin d → F) F)
    (log : List (ℕ × State (Fin d → F) F)) : Prop :=
  ∃ a, Refines chains a ∧ ∀ id < c.numChains,
    (a.states id).length = 1 + (ofChain log id).length ∧
    (id % c.ntemps = 0 → ∃ first, a.states id = first :: ofChain log id ∧ first.accepted = true ∧
      first.swapType = .noAttempt)

/-- The invariant: there is a log of the main loop. -/
def Inv (c : Setup P F) (infinity : F) (m : LoggedProgram P F d) : Prop :=
  SamplerProgram.Inv c m.program ∧ match m.program with
    | .starting _ | .evaluating _ _ => m.api = none
    | .sampling s _ => ∃ log, Recorded c s.chains log ∧
      m.logger = some ((TableLogger.init infinity c.nstacks c.ntemps).told log) ∧
      ∀ api, m.api = some api →
        api = ((TableLogger.init infinity c.nstacks c.ntemps).told log).updateApi s.chains
    | _ => True

variable [Inhabited F] [Proposal P (Fin d → F) F] {m m' : LoggedProgram P F d}

/-- The program takes its step. -/
theorem program_of_step {a : SamplerProgram.Act (Fin d → F) F} (h : m.step c infinity a = some m') :
    SamplerProgram.step c m.program a = some m'.program := by
  obtain ⟨p, hp, h⟩ := Option.bind_eq_some_iff.1 h
  rw [hp]
  split at h
  · cases h
    rfl
  · rename_i s n i logger _ _
    split at h
    · cases h
      rfl
    · cases h
  · cases h
    rfl

/-- **Every step** of the main loop is in the log. -/
theorem inv_step (hsize : c.nstacks * c.ntemps < 2 ^ 32) (hint : c.swapInterval ≠ 0)
    (h : Inv c infinity m) {a : SamplerProgram.Act (Fin d → F) F} (hs : m.step c infinity a = some m') :
    Inv c infinity m' := by
  obtain ⟨hinv, hm⟩ := h
  have hp := program_of_step hs
  have he := SamplerProgram.step_iff.1 hp
  have hinv' := SamplerProgram.inv_step hsize hint hinv he
  obtain ⟨program, logger, api⟩ := m
  obtain ⟨program', logger', api'⟩ := m'
  dsimp only at he hinv hm hinv' hp
  refine ⟨hinv', ?_⟩
  cases he with
  | generate | evaluated =>
    simp only [step, hp, Option.bind_eq_bind, Option.bind_some] at hs
    cases hs
    exact hm
  | @start samples s hlen hs₀ =>
    simp only [step, hp, Option.bind_eq_bind, Option.bind_some] at hs
    cases hs
    obtain ⟨a, ha, -, hone, hnew⟩ := SamplerProgram.constructed_chains (Q := fun _ _ => True) hlen
      (fun _ _ => trivial) hs₀
    refine ⟨[], ⟨a, ha, ?_⟩, rfl, ?_⟩
    · intro id hid
      have hlen := (hone id).trans (if_pos hid)
      refine ⟨hlen, fun _ => ?_⟩
      obtain ⟨first, hfirst⟩ := List.length_eq_one_iff.1 hlen
      obtain ⟨haccepted, hswap⟩ := hnew id first (by rw [hfirst]; exact List.mem_singleton_self _)
      exact ⟨first, hfirst, haccepted, hswap⟩
    · intro api hapi
      cases hm.symm.trans hapi
  | @step s s' n id i state hn hs₀ =>
    obtain ⟨log, ⟨a, ha, hrec⟩, hlogger, -⟩ := hm
    subst hlogger
    simp only [step, hp, Option.bind_eq_bind, Option.bind_some, hs₀] at hs
    cases hs
    obtain ⟨r, heff, rfl, rfl⟩ := SamplerProgram.effect_of_step hinv.1.interval hs₀
    obtain ⟨a', ha', hlen, hcold⟩ := heff.logged hinv.1.cascade hinv.1.ntemps ha
    refine ⟨log ++ [(r.id, r.state)], ⟨a', ha', ?_⟩, ?_, ?_⟩
    · intro id hid
      obtain ⟨hlen₀, hfirst⟩ := hrec id hid
      rw [TableLogger.ofChain_concat]
      refine ⟨?_, ?_⟩
      · rw [hlen, hlen₀, List.length_append, ← Nat.add_assoc]
        congr 1
        split <;> rfl
      · intro h0
        obtain ⟨first, hstates, hnew⟩ := hfirst h0
        refine ⟨first, ?_, hnew⟩
        rw [hcold id h0, hstates, List.cons_append]
    · rw [TableLogger.told_concat]
    · rintro api ⟨⟩
      rw [TableLogger.told_concat]
  | stop => trivial
  | collect => trivial
  | finish => trivial

theorem inv_of_reach (hsize : c.nstacks * c.ntemps < 2 ^ 32) (hint : c.swapInterval ≠ 0)
    {as : List (SamplerProgram.Act (Fin d → F) F)}
    (h : Reach (step c infinity) (fun _ _ => True) init as m) : Inv c infinity m := by
  refine h.invariant (P := fun _ m => Inv c infinity m) ⟨Nat.zero_le _, rfl⟩ ?_
  exact fun _ _ _ _ _ hm _ hs => inv_step hsize hint hm hs

omit [Inhabited F] [Proposal P (Fin d → F) F] in
/-- The log of the coldest chain of a stack is its record, without the initial state. -/
theorem Recorded.coldest {s : Sampler P (Fin d → F) F} {log : List (ℕ × State (Fin d → F) F)}
    (h : Recorded c s.chains log) (hT : s.chains.ntemps = c.ntemps) {id : ℕ}
    (hid : id < c.numChains) (hcold : s.chains.isColdestInStack id) :
    ∃ first, s.chains.record id = first :: ofChain log id ∧ first.accepted = true ∧
      first.swapType = .noAttempt := by
  obtain ⟨a, ha, hrec⟩ := h
  rw [ChainArray.record_eq ha hcold]
  refine (hrec id hid).2 ?_
  rw [← hT]
  exact of_decide_eq_true hcold

/-- **What the API shows.** While the main loop runs, the logger has the length of every chain, and of the
coldest chain of a stack the rates at which the states of its record were accepted and swapped (the
initial state counts as accepted, and one attempt is counted in advance), and the least and the last
energy since the initial state. -/
theorem logger_reports (hsize : c.nstacks * c.ntemps < 2 ^ 32) (hint : c.swapInterval ≠ 0)
    {as : List (SamplerProgram.Act (Fin d → F) F)}
    (h : Reach (step c infinity) (fun _ _ => True) init as m) {s : Sampler P (Fin d → F) F} {n : ℕ}
    (hp : m.program = .sampling s n) :
    ∃ l, m.logger = some l ∧ l.size = c.numChains ∧
      (∀ api, m.api = some api → api = l.updateApi s.chains) ∧
      (∀ id < c.numChains, l.lengths id = s.chains.length id) ∧
      ∀ id < c.numChains, s.chains.isColdestInStack id →
        l.nAcceptsGlobal id = (s.chains.record id).countP (·.accepted) % 2 ^ 32 ∧
        l.nSwapsGlobal id = (s.chains.record id).countP (fun x => x.swapType = .accept) % 2 ^ 32 ∧
        l.nSwapAttemptsGlobal id =
          (1 + (s.chains.record id).countP fun x => x.swapType ≠ .noAttempt) % 2 ^ 32 ∧
        l.minEnergies id = ((s.chains.record id).tail.map (·.energy)).foldl Double.min infinity ∧
        l.energies id = ((s.chains.record id).tail.map (·.energy)).getLast?.getD 0.0 := by
  obtain ⟨hinv, hm⟩ := inv_of_reach hsize hint h
  rw [hp] at hinv hm
  obtain ⟨log, hrec, hlogger, hapi⟩ := hm
  have htells := fun id => (TableLogger.tells infinity c.nstacks c.ntemps log id).1
  refine ⟨_, hlogger, (TableLogger.tells infinity c.nstacks c.ntemps log 0).2, hapi, ?_, ?_⟩
  · intro id hid
    obtain ⟨a, ha, hlen⟩ := hrec
    rw [(htells id).length, ← (hlen id hid).1]
    exact ((ChainArray.Transparent.of_refines ha).length id).symm
  · intro id hid hcold
    obtain ⟨first, hrecord, haccepted, hswap⟩ := hrec.coldest hinv.1.ntemps hid hcold
    rw [hrecord, List.countP_cons, List.countP_cons, List.countP_cons, haccepted, hswap, List.tail_cons]
    refine ⟨?_, ?_, ?_, (htells id).minEnergy, (htells id).energy⟩
    · rw [(htells id).accepts, Nat.add_comm]
      rfl
    · exact (htells id).swaps
    · exact (htells id).attempts

/-- One step of the main loop of a program with one chain. -/
def oneStep : List (SamplerProgram.Act (Fin 1 → ℝ) ℝ) :=
  [.generate fun _ => 0, .retrieve ⟨0, [0], 0, 0, 0⟩, .start, .retrieve ⟨0, [0], 0, 0, 0⟩]

theorem oneStep_run (infinity : ℝ) : ∃ (m : LoggedProgram (Drawn ℝ 1) ℝ 1) (s : Sampler _ _ _),
    Reach (step Service.oneChain.toSetup infinity) (fun _ _ => True) init oneStep m ∧
    m.program = .sampling s 1 ∧ s.chains.isColdestInStack 0 ∧ m.api.isSome := by
  have h : Reach (step Service.oneChain.toSetup infinity) (fun _ _ => True)
    (init : LoggedProgram _ _ 1) [] _ := .start
  have h := h.next' (e := .generate fun _ => 0) trivial (by rfl)
  have h := h.next' (e := .retrieve ⟨0, [0], 0, 0, 0⟩) trivial (by rfl)
  have h := h.next' (e := .start) trivial (by rfl)
  have h := h.next' (e := .retrieve ⟨0, [0], 0, 0, 0⟩) trivial (by rfl)
  exact ⟨_, _, h, rfl, by rfl, by rfl⟩

/-- The API shows what the chain recorded. -/
theorem logger_reports_oneStep :
    ∃ (m : LoggedProgram (Drawn ℝ 1) ℝ 1) (s : Sampler _ _ _) (l : TableLogger ℝ 1),
      Reach (step Service.oneChain.toSetup 1000) (fun _ _ => True) init oneStep m ∧
      m.program = .sampling s 1 ∧ m.api = some (l.updateApi s.chains) ∧
      l.nAcceptsGlobal 0 = (s.chains.record 0).countP (·.accepted) % 2 ^ 32 := by
  obtain ⟨m, s, h, hp, hcold, hsome⟩ := oneStep_run 1000
  obtain ⟨l, -, -, hapi, -, hall⟩ := logger_reports (by decide) (by decide) h hp
  obtain ⟨api, hsome⟩ := Option.isSome_iff_exists.1 hsome
  exact ⟨m, s, l, h, hp, hapi api hsome ▸ hsome, (hall 0 (by decide) hcold).1⟩

/-! ## The convergence test -/

open EPSRDiagnostic (component) in
/-- **What the convergence test is of.** In exact arithmetic, the diagnostic has the number, the mean and
the squared deviations of the samples that the coldest chain of each stack recorded, without the
initial one; when all stacks recorded the same number of states, it computes from them the
potential scale reduction. -/
theorem logger_diagnoses {c : Setup P ℝ} {infinity : ℝ} [Proposal P (Fin d → ℝ) ℝ]
    {m : LoggedProgram P ℝ d} (hsize : c.nstacks * c.ntemps < 2 ^ 32) (hint : c.swapInterval ≠ 0)
    (hT : 0 < c.ntemps)
    {as : List (SamplerProgram.Act (Fin d → ℝ) ℝ)}
    (h : Reach (step c infinity) (fun _ _ => True) init as m) {s : Sampler P (Fin d → ℝ) ℝ} {n : ℕ}
    (hp : m.program = .sampling s n) :
    let xs := fun k i => component i ((s.chains.record (k * c.ntemps)).tail.map (·.sample))
    ∃ l, m.logger = some l ∧
      (∀ k < c.nstacks, l.diagnostic.numSamples k = (s.chains.record (k * c.ntemps)).tail.length ∧
        ∀ i, l.diagnostic.M k i = mean (xs k i) ∧ l.diagnostic.S k i = deviations (xs k i)) ∧
      (2 ≤ c.nstacks → ∀ N, 2 ≤ N →
        (∀ k < c.nstacks, (s.chains.record (k * c.ntemps)).tail.length = N) → ∀ i,
          let w := mean ((List.range c.nstacks).map fun k => variance (xs k i))
          let b := N * variance ((List.range c.nstacks).map fun k => mean (xs k i))
          l.diagnostic.rHat i ^ 2 = ((N - 1) / N * w + b / N) / (w + 1e-30)) := by
  intro xs
  obtain ⟨hinv, hm⟩ := inv_of_reach hsize hint h
  rw [hp] at hinv hm
  obtain ⟨log, hrec, hlogger, -⟩ := hm
  refine ⟨_, hlogger, ?_⟩
  rw [TableLogger.diagnostic_told]
  obtain ⟨htally, hstacks, -⟩ := EPSRDiagnostic.tallied_run c.nstacks hT 1.1 log
  -- what is logged of the coldest chains is what they recorded
  have hsamples : ∀ k < c.nstacks, EPSRDiagnostic.samplesOf c.ntemps k log =
      (s.chains.record (k * c.ntemps)).tail.map (·.sample) := by
    intro k hk
    have hid : k * c.ntemps < c.numChains := by
      rw [StatelineSettings.numChains_of_lt hsize, Nat.mul_comm]
      exact Nat.mul_lt_mul_of_pos_left hk hT
    have hcold : s.chains.isColdestInStack (k * c.ntemps) := decide_eq_true (by
      rw [ChainArray.chainIndex, ChainArray.numTemps_eq, hinv.1.ntemps, Nat.mul_mod_left])
    obtain ⟨first, hrecord, -⟩ := hrec.coldest hinv.1.ntemps hid hcold
    rw [hrecord, List.tail_cons, ofChain, List.map_map]
    rfl
  refine ⟨?_, ?_⟩
  · intro k hk
    refine ⟨?_, fun i => ⟨?_, ?_⟩⟩
    · have hn := htally.numSamples k
      rw [hsamples k hk, List.length_map] at hn
      exact hn
    · have hM := htally.M k i
      rw [hsamples k hk] at hM
      exact hM
    · have hS := htally.S k i
      rw [hsamples k hk] at hS
      exact hS
  · intro hS N hN hall i
    have hlen : ∀ k < c.nstacks, (EPSRDiagnostic.samplesOf c.ntemps k log).length = N := by
      intro k hk
      rw [hsamples k hk, List.length_map, hall k hk]
    have hr := htally.rHat_sq (by rw [hstacks]; exact hS) hN (by rw [hstacks]; exact hlen) i
    rw [hstacks] at hr
    have hxs : ∀ f : List ℝ → ℝ, (List.range c.nstacks).map (fun k =>
        f (component i (EPSRDiagnostic.samplesOf c.ntemps k log))) =
          (List.range c.nstacks).map fun k => f (xs k i) := by
      intro f
      refine List.map_congr_left ?_
      intro k hk
      rw [hsamples k (List.mem_range.1 hk)]
    rw [hxs variance, hxs mean] at hr
    exact hr

/-- One sample was recorded. -/
theorem logger_diagnoses_oneStep :
    ∃ (m : LoggedProgram (Drawn ℝ 1) ℝ 1) (s : Sampler _ _ _) (l : TableLogger ℝ 1),
      Reach (step Service.oneChain.toSetup 1000) (fun _ _ => True) init oneStep m ∧
      m.program = .sampling s 1 ∧ m.logger = some l ∧
      l.diagnostic.numSamples 0 = (s.chains.record 0).tail.length := by
  obtain ⟨m, s, h, hp, -⟩ := oneStep_run 1000
  obtain ⟨l, hl, hall, -⟩ := logger_diagnoses (by decide) (by decide) (by decide) h hp
  exact ⟨m, s, l, h, hp, hl, (hall 0 (by decide)).1⟩

end LoggedProgram

end Stateline
