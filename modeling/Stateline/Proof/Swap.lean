import Stateline.Proof.Record
import Stateline.Lib.Metropolis

/-!
# Swaps

A swap of two chains in exact arithmetic, with a uniform draw from `[0, 1)`. `swap` passes the
state of the higher id first, so the signs of both differences are turned around.

* `SameBut`: what an edit of the last states leaves alone.
* `swap_eq`: what a swap does to the last states, in either case.
* `swap_balanced`: **a swap is a parallel tempering move.**
-/

namespace Stateline.ChainArray

open Lib

variable {V F : Type} {c c' c'' : ChainArray V F} {i id id1 id2 : ℕ} {low high : State V F}

/-- The two arrays differ in the last states of the chains in `s` only. -/
structure SameBut (s : Set ℕ) (c c' : ChainArray V F) : Prop where
  chainFiles : c'.chainFiles = c.chainFiles
  nstacks : c'.nstacks = c.nstacks
  ntemps : c'.ntemps = c.ntemps
  lengthOnDisk : c'.lengthOnDisk = c.lengthOnDisk
  beta : c'.beta = c.beta
  sigma : c'.sigma = c.sigma
  lastFlushTime : c'.lastFlushTime = c.lastFlushTime
  cacheLength : ∀ i, (c'.cache i).length = (c.cache i).length
  earlier : ∀ i, (c'.cache i).dropLast = (c.cache i).dropLast
  other : ∀ i ∉ s, c'.cache i = c.cache i

theorem SameBut.trans {s t : Set ℕ} (h : SameBut s c c') (h' : SameBut t c' c'') :
    SameBut (s ∪ t) c c'' where
  chainFiles := h'.chainFiles.trans h.chainFiles
  nstacks := h'.nstacks.trans h.nstacks
  ntemps := h'.ntemps.trans h.ntemps
  lengthOnDisk := h'.lengthOnDisk.trans h.lengthOnDisk
  beta := h'.beta.trans h.beta
  sigma := h'.sigma.trans h.sigma
  lastFlushTime := h'.lastFlushTime.trans h.lastFlushTime
  cacheLength i := (h'.cacheLength i).trans (h.cacheLength i)
  earlier i := (h'.earlier i).trans (h.earlier i)
  other i hi := (h'.other i fun ht => hi (.inr ht)).trans (h.other i fun hs => hi (.inl hs))

theorem SameBut.mono {s t : Set ℕ} (h : SameBut s c c') (hst : s ⊆ t) : SameBut t c c' :=
  { h with other := fun i hi => h.other i fun hs => hi (hst hs) }

/-- The length that the array reports. -/
theorem SameBut.length {s : Set ℕ} (h : SameBut s c c') (i : ℕ) : c'.length i = c.length i := by
  unfold ChainArray.length
  rw [h.lengthOnDisk, h.cacheLength]

theorem sameBut_setBack (hne : c.cache id ≠ []) (state : State V F) :
    SameBut {id} c (c.setBack id state) where
  chainFiles := rfl
  nstacks := rfl
  ntemps := rfl
  lengthOnDisk := rfl
  beta := rfl
  sigma := rfl
  lastFlushTime := rfl
  cacheLength i := by
    unfold setBack
    rcases eq_or_ne i id with rfl | hi
    · have := List.length_pos_iff.2 hne
      simp only [Function.update_self, List.length_append, List.length_dropLast, List.length_singleton]
      omega
    · simp only [Function.update_of_ne hi]
  earlier i := by
    unfold setBack
    rcases eq_or_ne i id with rfl | hi
    · simp only [Function.update_self, List.dropLast_concat]
    · simp only [Function.update_of_ne hi]
  other i hi := by
    unfold setBack
    simp only [Function.update_of_ne (show i ≠ id from hi)]

theorem lastState_setBack_self (h : c.lastState id = .ok low) (state : State V F) :
    (c.setBack id state).lastState id = .ok state := by
  refine lastState_eq_ok.2 ⟨(lastState_eq_ok.1 h).1, ?_⟩
  simp only [setBack, Function.update_self, List.getLast?_concat]

theorem cache_ne_nil (h : c.lastState id = .ok low) : c.cache id ≠ [] := by
  intro hnil
  have hlast := (lastState_eq_ok.1 h).2
  rw [hnil] at hlast
  cases hlast

/-! ## The two cases -/

/-- A swap does not depend on the order of its arguments. -/
theorem swap_comm [Double F] (c : ChainArray V F) (id1 id2 : ℕ) (rand : F) :
    c.swap id2 id1 rand = c.swap id1 id2 rand := by
  unfold swap
  rw [max_comm, min_comm]

/-- **The last states after a swap**: the sample, the energy and the acceptance change places,
the marks do not. -/
theorem swap_eq [Double F] (hne : id1 ≠ id2) (hlow : c.lastState (min id1 id2) = .ok low)
    (hhigh : c.lastState (max id1 id2) = .ok high) (rand : F) :
    ∃ c' swapType, c.swap id1 id2 rand = .ok (c', swapType) ∧ SameBut {id1, id2} c c' ∧
      if acceptSwap high low (c.beta (max id1 id2)) (c.beta (min id1 id2)) rand then
        swapType = .accept ∧
        c'.lastState (min id1 id2) = .ok { low with
          sample := high.sample, energy := high.energy, accepted := high.accepted,
          swapType := .accept } ∧
        c'.lastState (max id1 id2) = .ok { high with
          sample := low.sample, energy := low.energy, accepted := low.accepted }
      else
        swapType = .reject ∧
        c'.lastState (min id1 id2) = .ok { low with swapType := .reject } ∧
        c'.lastState (max id1 id2) = .ok high := by
  have hids : min id1 id2 ≠ max id1 id2 := by omega
  have hmem : {max id1 id2} ∪ {min id1 id2} ⊆ ({id1, id2} : Set ℕ) := by
    rintro i (rfl | rfl)
    · rcases max_choice id1 id2 with h | h <;> simp [h]
    · rcases min_choice id1 id2 with h | h <;> simp [h]
  unfold swap
  dsimp only
  rw [hhigh, ok_bind, hlow, ok_bind]
  split
  · have hlow' := (lastState_setBack_of_ne (c := c) { high with
      sample := low.sample, energy := low.energy, accepted := low.accepted } hids).trans hlow
    refine ⟨_, _, rfl, ?_, rfl, lastState_setBack_self hlow' _, ?_⟩
    · exact ((sameBut_setBack (cache_ne_nil hhigh) _).trans
        (sameBut_setBack (cache_ne_nil hlow') _)).mono hmem
    · rw [lastState_setBack_of_ne _ hids.symm]
      exact lastState_setBack_self hhigh _
  · refine ⟨_, _, rfl, ?_, rfl, lastState_setBack_self hlow _, ?_⟩
    · exact (sameBut_setBack (cache_ne_nil hlow) _).mono fun i hi => hmem (.inr hi)
    · exact (lastState_setBack_of_ne _ hids.symm).trans hhigh

/-! ## The probability -/

/-- The probability that `swap` accepts. -/
noncomputable def swapProb (c : ChainArray V ℝ) (id1 id2 : ℕ) : ℝ :=
  drawProb {rand | ∃ c', c.swap id1 id2 rand = .ok (c', .accept)}

theorem swapProb_eq {c : ChainArray V ℝ} {low high : State V ℝ} (hne : id1 ≠ id2)
    (hlow : c.lastState (min id1 id2) = .ok low) (hhigh : c.lastState (max id1 id2) = .ok high) :
      swapProb c id1 id2 =
      min 1 (Real.exp ((low.energy - high.energy) *
        (c.beta (min id1 id2) - c.beta (max id1 id2)))) := by
  have hset : {rand | ∃ c', c.swap id1 id2 rand = .ok (c', .accept)} =
      {rand | rand < Real.exp ((low.energy - high.energy) *
        (c.beta (min id1 id2) - c.beta (max id1 id2)))} := by
    ext rand
    have hjudge : acceptSwap high low (c.beta (max id1 id2)) (c.beta (min id1 id2)) rand = true ↔
        rand < Real.exp ((low.energy - high.energy) *
          (c.beta (min id1 id2) - c.beta (max id1 id2))) := by
      simp only [acceptSwap, Double.lt, Double.exp, decide_eq_true_eq]
    obtain ⟨c', swapType, hrun, -, hcase⟩ := swap_eq hne hlow hhigh rand
    rw [Set.mem_ofPred_eq, Set.mem_ofPred_eq, ← hjudge, hrun]
    split at hcase
    · rename_i hacc
      rw [hcase.1, hacc]
      exact ⟨fun _ => rfl, fun _ => ⟨c', rfl⟩⟩
    · rename_i hacc
      rw [hcase.1]
      simp [hacc]
  unfold swapProb
  rw [hset, drawProb_lt_exp]

/-- **A swap is a parallel tempering move.** Its probability is in balance for the product of
the tempered weights, whatever the order of the arguments. An accepted swap exchanges the
samples, the energies and the acceptances of the two last states; the marks are on the lower
id, and nothing else changes. -/
theorem swap_balanced {c : ChainArray V ℝ} {low high : State V ℝ} (hne : id1 ≠ id2)
    (hlow : c.lastState (min id1 id2) = .ok low) (hhigh : c.lastState (max id1 id2) = .ok high) :
    (∀ (c₂ : ChainArray V ℝ) (low₂ high₂ : State V ℝ),
      c₂.beta (min id1 id2) = c.beta (min id1 id2) → c₂.beta (max id1 id2) = c.beta (max id1 id2) →
      c₂.lastState (min id1 id2) = .ok low₂ → c₂.lastState (max id1 id2) = .ok high₂ →
      low₂.energy = high.energy → high₂.energy = low.energy →
      swapProb c id1 id2 * Real.exp
        (-c.beta (min id1 id2) * low.energy - c.beta (max id1 id2) * high.energy) =
        swapProb c₂ id1 id2 * Real.exp
          (-c.beta (min id1 id2) * high.energy - c.beta (max id1 id2) * low.energy)) ∧
    swapProb c id2 id1 = swapProb c id1 id2 ∧
    ∀ rand, c.swap id2 id1 rand = c.swap id1 id2 rand ∧
      ∃ c' swapType, c.swap id1 id2 rand = .ok (c', swapType) ∧
        (swapType = .accept ∧
          c'.lastState (min id1 id2) = .ok { low with
            sample := high.sample, energy := high.energy, accepted := high.accepted,
            swapType := .accept } ∧
          c'.lastState (max id1 id2) = .ok { high with
            sample := low.sample, energy := low.energy, accepted := low.accepted } ∨
        swapType = .reject ∧
          c'.lastState (min id1 id2) = .ok { low with swapType := .reject } ∧
          c'.lastState (max id1 id2) = .ok high) ∧
        SameBut {id1, id2} c c' ∧ ∀ i, c'.length i = c.length i := by
  refine ⟨?_, ?_, fun rand => ⟨swap_comm c id1 id2 rand, ?_⟩⟩
  · intro c₂ low₂ high₂ hbl hbh hlow₂ hhigh₂ hel heh
    set a := -c.beta (min id1 id2) * low.energy - c.beta (max id1 id2) * high.energy with ha
    set b := -c.beta (min id1 id2) * high.energy - c.beta (max id1 id2) * low.energy with hb
    have hthere :
        (low.energy - high.energy) * (c.beta (min id1 id2) - c.beta (max id1 id2)) = b - a := by
      rw [ha, hb]
      ring
    have hback : (low₂.energy - high₂.energy) *
        (c₂.beta (min id1 id2) - c₂.beta (max id1 id2)) = a - b := by
      rw [hel, heh, hbl, hbh, ha, hb]
      ring
    rw [swapProb_eq hne hlow hhigh, swapProb_eq hne hlow₂ hhigh₂, hthere, hback, mul_comm,
      exp_mul_min, mul_comm]
  · unfold swapProb
    simp only [swap_comm c id1 id2]
  · obtain ⟨c', swapType, hrun, hsame, hcase⟩ := swap_eq hne hlow hhigh rand
    refine ⟨c', swapType, hrun, ?_, hsame, hsame.length⟩
    split at hcase
    · exact .inl hcase
    · exact .inr hcase

/-- A chain at a sample of the energy `2`, and a hotter one at a sample of the energy `1`. -/
noncomputable def hotAndCold : ChainArray ℕ ℝ :=
  ⟨fun _ => [], 1, 2, fun _ => 0, fun i => if i = 0 then 1 else 1 / 2, fun _ => 1,
    fun i => if i = 0 then [⟨3, 2, 1, 1, true, .noAttempt⟩]
      else [⟨4, 1, 1, 1 / 2, false, .noAttempt⟩], 0⟩

theorem swap_balanced_hotAndCold : swapProb hotAndCold 1 0 = swapProb hotAndCold 0 1 :=
  (swap_balanced (c := hotAndCold) (show 0 ≠ 1 by decide) rfl rfl).2.1

end Stateline.ChainArray
