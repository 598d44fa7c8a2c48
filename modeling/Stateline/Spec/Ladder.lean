import Stateline.Spec.Cascade

/-!
# Ladders

The inverse temperatures of all chains, `T` for each stack: in every stack they
start with 1 and do not rise towards the hottest chain.

* `Ladder.update_iff`: **one rung may take a new value** if and only if that lies
  between the values of its neighbours.
-/

namespace Stateline

/-- In each of `S` stacks the temperatures are a ladder of `T` rungs. -/
structure Ladder (T S : ℕ) (beta : ℕ → ℝ) : Prop where
  coldest : ∀ k < S, beta (k * T) = 1
  step : ∀ k < S, ∀ j, j + 1 < T → beta (k * T + (j + 1)) ≤ beta (k * T + j)
  pos : ∀ k < S, ∀ j < T, 0 < beta (k * T + j)

variable {T S : ℕ} {beta : ℕ → ℝ}

/-- Rungs of two stacks are not the same. -/
theorem rung_inj {k k' i i' : ℕ} (hi : i < T) (hi' : i' < T) (h : k * T + i = k' * T + i') :
    k = k' ∧ i = i' := by
  have hi₁ : i = i' := by rw [← Cascade.level_mod k hi, h, Cascade.level_mod k' hi']
  subst hi₁
  exact ⟨Nat.eq_of_mul_eq_mul_right (by omega) (Nat.add_right_cancel h), rfl⟩

/-- Only the temperatures of chains matter. -/
theorem Ladder.congr {beta' : ℕ → ℝ} (h : Ladder T S beta) (hT : 0 < T)
    (heq : ∀ i < T * S, beta' i = beta i) :
    Ladder T S beta' := by
  have hrung : ∀ k < S, ∀ j < T, beta' (k * T + j) = beta (k * T + j) :=
    fun k hk j hj => heq _ (Cascade.level_lt hk hj)
  refine ⟨fun k hk => (hrung k hk 0 hT).trans (h.coldest k hk), ?_, ?_⟩
  · intro k hk j hj
    rw [hrung k hk _ hj, hrung k hk j (by omega)]
    exact h.step k hk j hj
  · intro k hk j hj
    rw [hrung k hk j hj]
    exact h.pos k hk j hj

/-- **One rung changes.** -/
theorem Ladder.update_iff (h : Ladder T S beta) {k j : ℕ} (hk : k < S) (hj : j + 1 < T) {v : ℝ}
    (hv : 0 < v) :
    Ladder T S (Function.update beta (k * T + (j + 1)) v) ↔
      v ≤ beta (k * T + j) ∧ (j + 2 < T → beta (k * T + (j + 2)) ≤ v) := by
  -- the other rungs keep their values
  have hother : ∀ k' i, i < T → (k' = k → i ≠ j + 1) →
      Function.update beta (k * T + (j + 1)) v (k' * T + i) = beta (k' * T + i) := by
    intro k' i hi hne
    refine Function.update_of_ne ?_ _ _
    intro he
    obtain ⟨h1, h2⟩ := rung_inj hi hj he
    exact hne h1 h2
  constructor
  · intro h'
    -- the two steps at the new rung
    have hlow := h'.step k hk j hj
    rw [Function.update_self, hother k j (by omega) fun _ => by omega] at hlow
    refine ⟨hlow, ?_⟩
    intro hj2
    have hup := h'.step k hk (j + 1) hj2
    rwa [Function.update_self, hother k (j + 1 + 1) hj2 fun _ => by omega] at hup
  · rintro ⟨hlow, hup⟩
    refine ⟨?_, ?_, ?_⟩
    · intro k' hk'
      calc Function.update beta (k * T + (j + 1)) v (k' * T) = beta (k' * T) :=
            hother k' 0 (by omega) fun _ => by omega
        _ = 1 := h.coldest k' hk'
    · intro k' hk' i hi
      by_cases hup' : k' = k ∧ i = j
      · obtain ⟨rfl, rfl⟩ := hup'
        rw [Function.update_self, hother k' i (by omega) fun _ => by omega]
        exact hlow
      · by_cases hlow' : k' = k ∧ i = j + 1
        · obtain ⟨rfl, rfl⟩ := hlow'
          rw [Function.update_self, hother k' (j + 1 + 1) hi fun _ => by omega]
          exact hup hi
        · rw [hother k' (i + 1) hi fun hk he => hup' ⟨hk, by omega⟩,
            hother k' i (by omega) fun hk he => hlow' ⟨hk, he⟩]
          exact h.step k' hk' i hi
    · intro k' hk' i hi
      by_cases hself : k' = k ∧ i = j + 1
      · obtain ⟨rfl, rfl⟩ := hself
        rw [Function.update_self]
        exact hv
      · rw [hother k' i hi fun hk he => hself ⟨hk, he⟩]
        exact h.pos k' hk' i hi

end Stateline
