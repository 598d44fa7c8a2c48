import Stateline.Proof.Markov
import Stateline.Proof.Start

/-!
# Stacks are isolated

The sampler addresses chains by flat indices and their neighbours by adding or
subtracting one. A step stays in the stack of its chain, since the hottest chain
of a stack is never locked.

* `stacks_isolated`: **a step changes nothing of another stack**, and the coldest
  chains keep the temperature that they start with.
-/

namespace Stateline

open Lib

variable {P V F : Type} [Double F]

/-- Removing an element that a filter drops. -/
theorem filter_eraseIdx {α : Type} {l : List α} {p : α → Bool} {k : ℕ} {x : α}
    (hk : l[k]? = some x) (hx : p x = false) :
    (l.eraseIdx k).filter p = l.filter p := by
  obtain ⟨hlt, hget⟩ := List.getElem?_eq_some_iff.1 hk
  rw [List.eraseIdx_eq_take_drop_succ]
  conv_rhs => rw [← List.take_append_drop k l, List.drop_eq_getElem_cons hlt, hget]
  rw [List.filter_append, List.filter_append,
    List.filter_cons_of_neg (by rw [hx]; exact Bool.false_ne_true)]

namespace Sampler

/-- Nothing changes but the chains of stack `k`. -/
structure Isolated (T k : ℕ) (s s' : Sampler P V F) : Prop where
  /-- The recorded states, on disk and in the caches. -/
  recorded : ∀ a, Refines s.chains a → ∃ a', Refines s'.chains a' ∧ ∀ j, j / T ≠ k →
    a'.states j = a.states j
  sigma : ∀ j, j / T ≠ k → s'.chains.sigma j = s.chains.sigma j
  beta : ∀ j, j / T ≠ k → s'.chains.beta j = s.chains.beta j
  locked : ∀ j, j / T ≠ k → s'.locked j = s.locked j
  proposals : ∀ j, j / T ≠ k → s'.propStates j = s.propStates j
  requests : s'.requester.filter (·.id / T ≠ k) = s.requester.filter (·.id / T ≠ k)
  sigmaValues : ∀ j, j / T ≠ k → s'.sigmaAdapter.values j = s.sigmaAdapter.values j
  betaValues : ∀ j, j / T ≠ k → s'.betaAdapter.values j = s.betaAdapter.values j

variable {s s' : Sampler P V F} {i : Input F} {r : Report V F} {T S : ℕ} {tuned : Prop}

/-- The chains of a step are of one stack. -/
theorem Effect.stack (h : Effect s i s' r) (hinv : s.cascade.Inv T (T * S)) :
    ∀ j ∈ r.chains, j / T = r.id / T ∧ j < T * S := by
  intro j hj
  have hid := hinv.lt _ (List.mem_of_getElem? h.flight)
  rw [Report.chains] at hj
  split at hj
  · rename_i hmove
    obtain ⟨hup, -, hdiv⟩ := h.above hinv hmove
    simp only [List.mem_cons, List.not_mem_nil, or_false] at hj
    rcases hj with rfl | rfl
    · exact ⟨rfl, hid⟩
    · exact ⟨hdiv, hup⟩
  · rw [List.mem_singleton.1 hj]
    exact ⟨rfl, hid⟩

/-- The adapter of the temperatures only changes its values above the coldest chain of a stack. -/
theorem Effect.betaAdapter (h : Effect s i s' r) (hT : s.chains.ntemps = T)
    (hn : s.betaAdapter.nTemps = T) :
    s'.betaAdapter.nTemps = T ∧
      ∀ j, j / T ≠ r.id / T ∨ j % T = 0 → s'.betaAdapter.values j = s.betaAdapter.values j := by
  by_cases hmove : r.move = .swap
  · obtain ⟨last, high, -, -, hrungs⟩ := h.outcome hmove
    rw [hrungs, rungs]
    split
    · rename_i hcold
      refine ⟨by rw [RegressionAdapter.computeBetaStack_nTemps]; exact hn, ?_⟩
      intro j hj
      rw [RegressionAdapter.computeBetaStack_values]
      · rfl
      · rw [RegressionAdapter.betaUpdate_nTemps, hn]
        rw [hT] at hcold
        rintro ⟨h1, h2⟩
        obtain ⟨h3, h4⟩ := Cascade.above_coldest hcold h1 h2
        rcases hj with hj | hj
        · exact hj h3
        · exact h4 hj
    · exact ⟨hn, fun _ _ => rfl⟩
  · rw [h.beta hmove]
    exact ⟨hn, fun _ _ => rfl⟩

/-- **A step stays in its stack.** -/
theorem Effect.isolated (h : Effect s i s' r) (hinv : Inv tuned T S s) (hn : s.betaAdapter.nTemps = T) :
    Isolated T (r.id / T) s s' := by
  have hstack := h.stack hinv.cascade
  -- the chains of the step are of one stack
  have hown : ∀ j, j / T ≠ r.id / T → j ∉ r.chains := fun j hj hmem => hj (hstack j hmem).1
  have hself : ∀ j, j / T ≠ r.id / T → j ≠ r.id := fun j hj he => hj (by rw [he])
  refine ⟨?_, ?_, ?_, ?_, fun j hj => h.samples j (hown j hj), ?_, fun j hj => h.sigma j (hself j hj),
    fun j hj => (h.betaAdapter hinv.ntemps hn).2 j (.inl hj)⟩
  · intro a ha
    obtain ⟨a', hops, ha'⟩ := ChainArray.refines_run ha h.chains
    exact ⟨a', ha', fun j hj => (Chains.same_run hops (ids_ops (hown j hj))).states⟩
  · intro j hj
    rw [h.sigmas, Function.update_of_ne (hself j hj)]
  · intro j hj
    rw [h.betas]
    split
    · rename_i hmove
      refine Function.update_of_ne ?_ _ _
      rintro rfl
      exact hown _ hj (by simp [Report.chains, hmove])
    · rfl
  · intro j hj
    refine h.locks_other (fun _ => hself j hj) ?_
    intro _ hcold hup
    -- the chain that is locked is below that of the step
    rw [hinv.ntemps, ← hup] at hcold
    rw [← hup, Nat.succ_div_of_not_dvd fun hd => hcold (Nat.mod_eq_zero_of_dvd hd)] at hj
    exact hj rfl
  · obtain ⟨q, hq, hid⟩ := h.request
    obtain ⟨sent, hsent, hids⟩ := h.requests
    rw [hsent, List.filter_append, filter_eraseIdx hq (by simp [hid])]
    refine (congrArg _ (List.filter_eq_nil_iff.2 ?_)).trans (List.append_nil _)
    intro q hq
    have hmem : q.id ∈ r.chains := sends_subset _ (hids ▸ List.mem_map_of_mem hq)
    simp only [ne_eq, decide_not, Bool.not_eq_true', decide_eq_false_iff_not, not_not]
    exact (hstack _ hmem).1

/-- What holds between the steps of a run besides the invariant of the sampler. -/
structure Based (T S : ℕ) (s : Sampler P V F) : Prop where
  nTemps : s.betaAdapter.nTemps = T
  coldest : ∀ k < S, s.chains.beta (k * T) = 1.0
  refines : ∃ a, Refines s.chains a

/-- **The coldest chains keep their temperature.** -/
theorem Effect.based (h : Effect s i s' r) (hinv : Inv tuned T S s) (hb : Based T S s) :
    Based T S s' := by
  refine ⟨(h.betaAdapter hinv.ntemps hb.nTemps).1, ?_, ?_⟩
  · intro k hk
    rw [h.betas]
    split
    · rename_i hmove
      have hmod := (h.above hinv.cascade hmove).2.1
      -- the chain that takes a new temperature is above another
      have hne : k * T ≠ r.id + 1 := by
        intro he
        rw [← he, Nat.mul_mod_left] at hmod
        omega
      rw [Function.update_of_ne hne]
      exact hb.coldest k hk
    · exact hb.coldest k hk
  · obtain ⟨a, ha⟩ := hb.refines
    obtain ⟨a', -, ha'⟩ := ChainArray.refines_run ha h.chains
    exact ⟨a', ha'⟩

end Sampler

section Run

variable [Sub V] [Inhabited V] [Proposal P V F]

/-- **Stacks are isolated.** In every state of a run of `runSampler` the coldest chains have the inverse
temperature 1, and a step for a chain of a stack changes nothing of another stack. All that it does to
the chain array is on chains of that stack. -/
theorem stacks_isolated (settings : StatelineSettings F) (hT : 0 < settings.ntemps)
    (hsize : settings.nstacks * settings.ntemps < 2 ^ 32) (hint : 0 < settings.swapInterval)
    (proposal : P) (samples : ℕ → V × F) (now : ℤ) :
    ∃ s₀ : Sampler P V F, RunSampler.runSampler settings proposal samples now = .ok s₀ ∧
      ∀ is s, Reach Sampler.next (fun _ _ => True) s₀ is s →
        (∃ a, Refines s.chains a) ∧ (∀ k < settings.nstacks,
          s.chains.beta (k * settings.ntemps) = 1.0) ∧
        ∀ i s' r, s.report i = .ok (s', r) →
          Sampler.Isolated settings.ntemps (r.id / settings.ntemps) s s' ∧
          (s.ops s' i r).foldlM ChainArray.apply s.chains = .ok s'.chains ∧
          ∀ op ∈ s.ops s' i r, ∀ j ∈ Chains.ids op,
            j / settings.ntemps = r.id / settings.ntemps ∧ j < settings.ntemps * settings.nstacks := by
  have hN := StatelineSettings.numChains_of_lt hsize
  obtain ⟨s₀, h₀, hinv₀, hbeta, hbetas, hrefines, -⟩ := RunSampler.start_ok hN hint.ne'
    (RunSampler.sigmaAdapter settings)
    (show (RunSampler.betaAdapter settings).nTemps = settings.ntemps from rfl)
    proposal samples now
  refine ⟨s₀, h₀, ?_⟩
  intro is s hrun
  have hb₀ : Sampler.Based settings.ntemps settings.nstacks s₀ := by
    refine ⟨by rw [hbeta]; rfl, ?_, hrefines⟩
    intro k hk
    have hlt : k * settings.ntemps < settings.ntemps * settings.nstacks := by
      rw [Nat.mul_comm]
      exact Nat.mul_lt_mul_of_pos_left hk hT
    rw [hbetas _ (hN ▸ hlt), hbeta]
    simp only [RegressionAdapter.ladder, Nat.mul_mod_left, ne_eq, not_true_eq_false,
      false_and, if_false]
    rfl
  have hs := Sampler.run_inv hinv₀ hrun
  obtain ⟨-, -, hb⟩ := Logged.invariant
    (Q := fun _ s => Sampler.Based settings.ntemps settings.nstacks s) hinv₀ hb₀
    (fun _ s i s' r hinv h hb => h.based hinv hb) hrun
  refine ⟨hb.refines, hb.coldest, ?_⟩
  intro i s' r hreport
  have h := Sampler.report_effect hs.interval hreport
  refine ⟨h.isolated hs hb.nTemps, h.chains, ?_⟩
  intro op hop j hj
  have hmem : j ∈ r.chains := by
    by_contra hno
    exact Sampler.ids_ops hno op hop hj
  exact h.stack hs.cascade j hmem

end Run

/-- The settings of the demo. -/
noncomputable def demo : StatelineSettings ℝ := ⟨2, 5, 3, 10, 0.234, 0.3874⟩

theorem stacks_isolated_demo :
    ∃ s₀ : Sampler Unit ℝ ℝ, RunSampler.runSampler demo () (fun _ => (0.5, 2.0)) 0 = .ok s₀ ∧
      ∀ is s, Reach Sampler.next (fun _ _ => True) s₀ is s →
        s.chains.beta 5 = 1.0 ∧
        ∀ i s' r, s.report i = .ok (s', r) → Sampler.Isolated 5 (r.id / 5) s s' := by
  obtain ⟨s₀, h₀, h⟩ :=
    stacks_isolated (P := Unit) (V := ℝ) demo (show 0 < 5 by omega)
    (show 2 * 5 < 2 ^ 32 by norm_num) (show 0 < 10 by omega) () (fun _ => (0.5, 2.0)) 0
  refine ⟨s₀, h₀, ?_⟩
  intro is s hrun
  obtain ⟨-, hbeta, hstep⟩ := h is s hrun
  exact ⟨hbeta 1 (show 1 < 2 by omega), fun i s' r hr => (hstep i s' r hr).1⟩

end Stateline
