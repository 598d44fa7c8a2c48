import Stateline.Proof.Markov
import Stateline.Proof.Step

/-!
# Cascades keep their order

How often the hottest chain of a stack started a cascade, and how often each pair
of adjacent chains attempted a swap (`starts`, `attempts`), against the locks. A
chain is locked once for every cascade that reaches the chain above and unlocked
by its own swap, so that the two counts differ by its lock (`Balanced`).

* `cascades_in_order`: **the counts of adjacent pairs differ by one while a
  cascade is between them, and are equal otherwise**; no lock is set twice.
-/

namespace Stateline

open Lib

variable {P V F : Type}

/-- The cascades that a chain has started. -/
def starts (log : List (Report V F)) (id : ℕ) : ℕ := log.countP fun r => r.id = id ∧ r.move = .start

/-- The swaps that a chain has attempted with the chain above. -/
def attempts (log : List (Report V F)) (id : ℕ) : ℕ := log.countP fun r => r.id = id ∧ r.move = .swap

variable {log : List (Report V F)} {r : Report V F} {id T S : ℕ}

theorem starts_append :
    starts (log ++ [r]) id = starts log id + if r.id = id ∧ r.move = .start then 1 else 0 := by
  simp only [starts, List.countP_append, List.countP_singleton, decide_eq_true_eq]

theorem attempts_append : attempts (log ++ [r]) id = attempts log id + if r.id = id ∧
    r.move = .swap then 1 else 0 := by
  simp only [attempts, List.countP_append, List.countP_singleton, decide_eq_true_eq]

/-- A chain was locked by the chain above once more than it has swapped, while it is locked. -/
structure Balanced (T N : ℕ) (locked : ℕ → Bool) (log : List (Report V F)) : Prop where
  balance : ∀ j, j + 1 < N → (j + 1) % T ≠ 0 →
    starts log (j + 1) + attempts log (j + 1) = attempts log j + (locked j).toNat
  hottest : ∀ j < N, j % T = T - 1 → attempts log j = 0
  others : ∀ j, j % T ≠ T - 1 → starts log j = 0

namespace Sampler

variable [Double F] {s s' : Sampler P V F} {i : Input F}

/-- A chain locks the chain below only when that is not locked. -/
theorem Effect.unlocked (h : Effect s i s' r) (hinv : s.cascade.Inv T (T * S)) (hid : r.id % T ≠ 0) :
    s.locked (r.id - 1) = false :=
  (hinv.free (List.mem_of_getElem? h.flight)).resolve_left hid

/-- **A step** moves a cascade down by one chain, or starts one. -/
theorem Effect.balanced (h : Effect s i s' r) (hinv : s.cascade.Inv T (T * S))
    (hT : s.chains.ntemps = T) (hb : Balanced T (T * S) s.locked log) :
      Balanced T (T * S) s'.locked (log ++ [r]) := by
  refine ⟨?_, ?_, ?_⟩
  · intro j hj hj'
    have hbal := hb.balance j hj hj'
    rw [starts_append, attempts_append, attempts_append]
    by_cases hup : r.id = j + 1 ∧ r.move ≠ .goOn
    · -- the cascade reaches this chain
      obtain ⟨he, hgo⟩ := hup
      have hl : s.locked j = false := by
        have hf := h.unlocked hinv (by rw [he]; exact hj')
        rwa [he, Nat.add_sub_cancel] at hf
      have hl' : s'.locked j = true := by
        have hlow := h.locks_below hgo (by rw [he, hT]; exact hj')
        rwa [he, Nat.add_sub_cancel] at hlow
      rw [hl] at hbal
      rw [hl']
      cases hm : r.move with
      | swap =>
        simp only [he, true_and, Nat.succ_ne_self, false_and, reduceCtorEq, if_true, if_false,
          Bool.toNat_true]
        simp only [Bool.toNat_false] at hbal
        omega
      | start =>
        simp only [he, true_and, Nat.succ_ne_self, false_and, reduceCtorEq, if_true, if_false,
          Bool.toNat_true]
        simp only [Bool.toNat_false] at hbal
        omega
      | goOn => exact (hgo hm).elim
    · rw [if_neg fun hs => hup ⟨hs.1, by rw [hs.2]; exact nofun⟩,
        if_neg fun hs => hup ⟨hs.1, by rw [hs.2]; exact nofun⟩]
      by_cases hown : r.id = j ∧ r.move = .swap
      · -- the cascade leaves it
        obtain ⟨rfl, hm⟩ := hown
        rw [h.swaps.1 hm, Bool.toNat_true] at hbal
        rw [h.unlocks hm, if_pos ⟨rfl, hm⟩, Bool.toNat_false]
        omega
      · rw [if_neg hown, h.locks_other (fun hm he => hown ⟨he.symm, hm⟩) fun hgo _ he => hup
          ⟨he.symm, hgo⟩]
        omega
  · intro j hj hhot
    have hl : s.locked j = false := hinv.hottest j hj hhot
    rw [attempts_append, hb.hottest j hj hhot, if_neg]
    rintro ⟨rfl, hmove⟩
    rw [h.swaps.1 hmove] at hl
    cases hl
  · intro j hj
    rw [starts_append, hb.others j hj, if_neg]
    rintro ⟨rfl, hmove⟩
    rw [← hT] at hj
    exact hj (h.starts.1 hmove).2.1

end Sampler

/-- The counts of the pairs of a stack. -/
theorem Balanced.levels {locked : ℕ → Bool} {k : ℕ} (h : Balanced T (T * S) locked log)
    (hT : 2 ≤ T) (hk : k < S) :
    starts log (k * T + (T - 1)) = attempts log (k * T + (T - 2)) + (locked (k * T + (T - 2))).toNat ∧
      ∀ j < T - 2, attempts log (k * T + (j + 1)) = attempts log (k * T + j) +
        (locked (k * T + j)).toNat := by
  have hmod : ∀ j, j + 1 < T → (k * T + (j + 1)) % T = j + 1 := fun j hj => Cascade.level_mod k hj
  have hlt : ∀ j, j + 1 < T → k * T + (j + 1) < T * S := fun j hj => Cascade.level_lt hk hj
  constructor
  · have htop : T - 2 + 1 = T - 1 := by omega
    have hm := hmod (T - 2) (by omega)
    have hbal := h.balance (k * T + (T - 2)) (hlt _ (by omega)) (by rw [Nat.add_assoc, hm]; omega)
    rw [Nat.add_assoc, htop] at hbal
    rw [htop] at hm
    rwa [h.hottest _ (Cascade.level_lt hk (by omega)) hm, Nat.add_zero] at hbal
  · intro j hj
    have hm := hmod j (by omega)
    have hbal := h.balance (k * T + j) (hlt j (by omega)) (by rw [Nat.add_assoc, hm]; omega)
    rw [Nat.add_assoc] at hbal
    rwa [h.others _ (by rw [hm]; omega), Nat.zero_add] at hbal

section Order

variable [Double F] [Sub V] [Inhabited V] [Proposal P V F]

/-- **Cascades run from the hottest pair to the coldest** and neither overtake nor merge. For every
stack, a pair of chains has attempted as many swaps as the pair above (or as many as cascades were
started), or one less if its lower chain is locked. A swap is then the first of its cascade on its
pair, and a chain that is locked was not locked before. -/
theorem cascades_in_order (jobTypes : List ℕ) {chains : ChainArray V F} (proposal : P)
    (sigmaAdapter betaAdapter : RegressionAdapter F) {swapInterval : ℕ} (hT : 2 ≤ chains.ntemps)
    (hsize : chains.ntemps * chains.nstacks < 2 ^ 32) (hint : 0 < swapInterval)
    (hlast : ∀ i < chains.numTotalChains, ∃ state, chains.lastState i = .ok state) :
    ∃ s₀, Sampler.init jobTypes chains proposal sigmaAdapter betaAdapter swapInterval = .ok s₀ ∧
      ∀ is s, Reach Sampler.next (fun _ _ => True) s₀ is s →
        ∃ log, Reach Logged.next (fun _ _ => True) ⟨s₀, []⟩ is ⟨s, log⟩ ∧
          (∀ k < chains.nstacks,
            starts log (k * chains.ntemps + (chains.ntemps - 1)) =
                attempts log (k * chains.ntemps + (chains.ntemps - 2)) +
                  (s.locked (k * chains.ntemps + (chains.ntemps - 2))).toNat ∧
              ∀ j < chains.ntemps - 2, attempts log (k * chains.ntemps + (j + 1)) =
                attempts log (k * chains.ntemps + j) + (s.locked (k * chains.ntemps + j)).toNat) ∧
          ∀ i s' r, s.report i = .ok (s', r) →
            (r.move = .swap ↔ s.locked r.id = true) ∧
            (r.move = .swap → starts log (r.id + 1) + attempts log (r.id + 1) = attempts log r.id + 1) ∧
            (r.move ≠ .goOn → r.id % chains.ntemps ≠ 0 → s.locked (r.id - 1) = false ∧
              s'.locked (r.id - 1) = true) := by
  obtain ⟨s₀, h₀, hinv₀⟩ :=
    Sampler.init_ok False jobTypes proposal sigmaAdapter betaAdapter hint.ne'
      (ChainArray.numTotalChains_of_lt hsize) hlast fun h => h.elim
  refine ⟨s₀, h₀, ?_⟩
  intro is s hrun
  have hs := Sampler.run_inv hinv₀ hrun
  have hempty :
      Balanced (V := V) (F := F) chains.ntemps (chains.ntemps * chains.nstacks) s₀.locked [] := by
    refine ⟨fun j _ _ => ?_, fun _ _ _ => rfl, fun _ _ => rfl⟩
    rw [(Sampler.init_effect h₀).2.2.2.2 j]
    rfl
  obtain ⟨log, hlog, hb⟩ := Logged.invariant
    (Q := fun log s => Balanced chains.ntemps (chains.ntemps * chains.nstacks) s.locked log)
    hinv₀ hempty
    (fun log s i s' r hinv h hb => h.balanced hinv.cascade hinv.ntemps hb) hrun
  refine ⟨log, hlog, fun k hk => hb.levels hT hk, ?_⟩
  intro i s' r hreport
  have h := Sampler.report_effect hs.interval hreport
  refine ⟨h.swaps, ?_, ?_⟩
  · intro hmove
    have hl : s.locked r.id = true := h.swaps.1 hmove
    obtain ⟨hup, hmod, -⟩ := h.above hs.cascade hmove
    rw [hb.balance _ hup (by rw [hmod]; exact Nat.succ_ne_zero _), hl]
    rfl
  · intro hgo hid
    exact ⟨h.unlocked hs.cascade hid, h.locks_below hgo (by rw [hs.ntemps]; exact hid)⟩

theorem cascades_in_order_twoChains :
    ∃ s₀, Sampler.init [0] twoChains () (.init 1 2 0.5 0.0 1.0) (.init 1 2 0.5 0.0 1.0) 10 = .ok s₀ ∧
      ∀ is s, Reach Sampler.next (fun _ _ => True) s₀ is s →
        ∃ log, Reach Logged.next (fun _ _ => True) ⟨s₀, []⟩ is ⟨s, log⟩ ∧
          starts log 1 = attempts log 0 + (s.locked 0).toNat := by
  obtain ⟨s₀, h₀, h⟩ := cascades_in_order [0] () (.init 1 2 0.5 0.0 1.0) (.init 1 2 0.5 0.0 1.0)
    (show 2 ≤ twoChains.ntemps from le_rfl) twoChains_size (show 0 < 10 by omega) twoChains_last
  refine ⟨s₀, h₀, ?_⟩
  intro is s hrun
  obtain ⟨log, hlog, hcount, -⟩ := h is s hrun
  exact ⟨log, hlog, (hcount 0 Nat.one_pos).1⟩

end Order

end Stateline
