import Stateline.Proof.Register

/-!
# The number of workers

`workerCount` is kept by hand beside the register of workers, and the constructor does not
initialise it: it starts from what the memory held (`c₀`).

* `counted_of_reach`: the number is `c₀` and the workers connected, modulo `2 ^ 32`, in every run.
* `countRight_iff`: **it is right exactly when `c₀ = 0`**, in every state that a run without a
  GOODBYE from the network reaches and in every state in which the rounds of a poll may drop a
  worker; there is no state after such a GOODBYE.
-/

namespace Stateline

open Std Lib

namespace Delegator

variable {d d' d₁ : Delegator} {e : Event} {es : List Event} {nJobTypes c₀ : ℕ}

/-- The number is that of the workers connected, and where `disconnectWorker` finds a worker to
remove there is one to subtract. -/
structure CountRight (d : Delegator) : Prop where
  count : d.workerCount = d.workers.size
  pos : ∀ x ∈ d.workers, 0 < d.workerCount

/-- The states in which an event that is handled in `d` may run `disconnectWorker`: `d` itself,
and in a poll, where the fallback of a send runs it, those between the rounds. -/
def Between (d : Delegator) : Event → Delegator → Prop
  | .recv _ _ _ _, d₁ => d₁ = d
  | .poll clock fails, d₁ => ∃ js rest out, d.jobQueue = js ++ rest ∧
      pollLoop clock fails 10 { d with jobQueue := [] } js = .ok (d₁, out)

/-- The number, from what the constructor left. -/
def Counted (c₀ : ℕ) (d : Delegator) : Prop := d.workerCount = (c₀ + d.workers.size) % 2 ^ 32

theorem SameWorkers.counted (h : SameWorkers d d') (hc : Counted c₀ d) : Counted c₀ d' := by
  unfold Counted
  rw [h.count, h.size]
  exact hc

/-- **A step** adds to the number what it adds to the workers. -/
theorem Turnover.counted (h : Turnover d e d') (hc : Counted c₀ d) : Counted c₀ d' := by
  unfold Counted at hc
  cases h with
  | connects _ _ hmem _ =>
    have hnew : ¬ d.workers.contains _ = true := fun h => hmem (ExtTreeMap.mem_iff_contains.2 h)
    unfold Counted
    simp only
    rw [ExtTreeMap.size_insert, if_neg hnew, hc]
    omega
  | answers _ _ hw _ _ _ _ _ =>
    have hold := ExtTreeMap.mem_iff_contains.1 (mem_iff_getElem?.2 ⟨_, hw⟩)
    unfold Counted
    simp only
    rw [ExtTreeMap.size_insert, if_pos hold, hc]
  | leaves _ hx hworkers hcount =>
    have hold := ExtTreeMap.mem_iff_contains.1 hx
    have hpos : d.workers.size ≠ 0 := by
      intro h0
      rw [ExtTreeMap.eq_empty_iff_size_eq_zero.2 h0] at hx
      exact ExtTreeMap.not_mem_empty hx
    unfold Counted
    rw [hcount, hworkers, ExtTreeMap.size_erase, if_pos hold, hc]
    omega
  | same _ hsame => exact hsame.counted hc

/-- **The number in every run.** -/
theorem counted_of_reach (hc₀ : c₀ < 2 ^ 32)
    (h : Reach next (fun _ _ => True) (init nJobTypes c₀) es d) : Counted c₀ d := by
  refine h.invariant (P := fun _ d => Counted c₀ d) ?_ ?_
  · show c₀ = (c₀ + (∅ : ExtTreeMap Str Worker).size) % 2 ^ 32
    rw [ExtTreeMap.size_empty, Nat.add_zero, Nat.mod_eq_of_lt hc₀]
  · intro es d e d' hr hc _ hs
    obtain ⟨out, hrun⟩ := next_eq_some hs
    exact (handle_turnover (keyed_of_reach hr) hrun).counted hc

theorem Counted.right_iff (hc : Counted c₀ d) (hc₀ : c₀ < 2 ^ 32) :
    d.CountRight ↔ c₀ = 0 ∧ d.workers.size < 2 ^ 32 := by
  unfold Counted at hc
  constructor
  · intro h
    have hcount := h.count
    omega
  · rintro ⟨rfl, hsize⟩
    rw [Nat.zero_add, Nat.mod_eq_of_lt hsize] at hc
    refine ⟨hc, ?_⟩
    intro x hx
    rw [hc]
    by_contra h0
    rw [ExtTreeMap.eq_empty_iff_size_eq_zero.2 (Nat.eq_zero_of_not_pos h0)] at hx
    exact ExtTreeMap.not_mem_empty hx

/-- There is no state after a GOODBYE from the network. -/
theorem next_networkGoodbye (d : Delegator) (h : e.NetworkGoodbye) : d.next e = none := by
  unfold next
  rw [handle_networkGoodbye h]

/-- **The number is right exactly when the constructor left zero**, as long as there are fewer
than `2 ^ 32` workers and no GOODBYE comes from the network: between the events, between the rounds
of a poll, and after the fallback of a send. A GOODBYE from the network has no state after it. -/
theorem countRight_iff (hc₀ : c₀ < 2 ^ 32)
    (h : Reach next (fun _ e => ¬ e.NetworkGoodbye) (init nJobTypes c₀) es d) :
    (d.CountRight ↔ c₀ = 0 ∧ d.workers.size < 2 ^ 32) ∧
      (∀ e d₁, d.Between e d₁ → (d₁.CountRight ↔ c₀ = 0 ∧ d₁.workers.size < 2 ^ 32) ∧
        ∀ m d₂, d₁.disconnectWorker m = .ok d₂ →
          (d₂.CountRight ↔ c₀ = 0 ∧ d₂.workers.size < 2 ^ 32)) ∧
      ∀ e, e.NetworkGoodbye → d.next e = none := by
  have h : Reach next (fun _ _ => True) (init nJobTypes c₀) es d := h.mono fun _ _ _ => trivial
  have hc := counted_of_reach hc₀ h
  refine ⟨hc.right_iff hc₀, ?_, fun e => d.next_networkGoodbye⟩
  intro e d₁ hbetween
  have hc₁ : Counted c₀ d₁ := by
    cases e with
    | recv sock m now fails =>
      obtain rfl : d₁ = d := hbetween
      exact hc
    | poll clock fails =>
      obtain ⟨js, rest, out, -, hloop⟩ := hbetween
      have hemptied : SameWorkers d { d with jobQueue := [] } := .of_eq rfl rfl
      have hsame := hemptied.trans (pollLoop_same (hemptied.keyed (keyed_of_reach h)) hloop)
      exact hsame.counted hc
  refine ⟨hc₁.right_iff hc₀, ?_⟩
  intro m d₂ hgone
  -- whatever the event, the fallback removes one worker or none
  have hturn : Turnover d₁ (.poll (fun _ => 0) fun _ => false) d₂ :=
    disconnectWorker_turnover trivial hgone
  exact (hturn.counted hc₁).right_iff hc₀

/-- The HELLO of a worker for all job types. -/
def helloAll : Event := .recv .network ⟨[['w']], .hello, [[]]⟩ 0 false

/-- A worker connects to a delegator whose memory was zero. -/
theorem countRight_iff_hello : ∃ d, Reach next (fun _ e => ¬ e.NetworkGoodbye) (init 1 0) [helloAll] d ∧
    d.workers.size = 1 ∧ d.CountRight := by
  have h : Reach next (fun _ e => ¬ e.NetworkGoodbye) (init 1 0) [] _ := .start
  have h := h.next' (e := helloAll) (by decide) (by decide)
  exact ⟨_, h, by decide, (countRight_iff (by decide) h).1.2 (by decide)⟩

/-- **The count starts from anything**: with 7 in the memory, a delegator counts 7 workers before
the first connects and 8 after it. -/
theorem uninitialised_count : ∃ d, Reach next (fun _ _ => True) (init 1 7) [helloAll] d ∧
    (init 1 7).workerCount = 7 ∧ (init 1 7).workers.size = 0 ∧ ¬ (init 1 7).CountRight ∧
    d.workerCount = 8 ∧ d.workers.size = 1 ∧ ¬ d.CountRight := by
  have h : Reach next (fun _ _ => True) (init 1 7) [] _ := .start
  have h := h.next' (e := helloAll) trivial (by decide)
  refine ⟨_, h, rfl, by decide, ?_, by decide, by decide, ?_⟩
  · intro hright
    exact absurd hright.count (by decide)
  · intro hright
    exact absurd hright.count (by decide)

end Delegator

end Stateline
