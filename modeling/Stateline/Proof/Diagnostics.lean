import Stateline.Infer.Diagnostics
import Stateline.Lib.Moments
import Stateline.Lib.Run

/-!
# The convergence diagnostic

In exact arithmetic, `EPSRDiagnostic` keeps for each stack the number, the mean and the squared
deviations of the samples of its coldest chain (`Tallied`), whatever the order of the updates.

* `epsr_exact`: **the potential scale reduction** is that of the samples when all stacks have the
  same number of them.
* `within_iff`: **the variance within the chains is right** for stacks of different lengths exactly
  when the longer ones do not vary.
-/

namespace Stateline.EPSRDiagnostic

open Lib

variable {d : ℕ}

/-- An update. -/
abbrev Update (d : ℕ) := ℕ × State (Fin d → ℝ) ℝ

/-- The diagnostic after some updates. -/
noncomputable def run (e : EPSRDiagnostic ℝ d) (us : List (Update d)) : EPSRDiagnostic ℝ d :=
  us.foldl (fun e u => e.update u.1 u.2) e

/-- The samples of the coldest chain of the stack `k`. -/
def samplesOf (nChains k : ℕ) (us : List (Update d)) : List (Fin d → ℝ) :=
  (us.filter (·.1 = k * nChains)).map (·.2.sample)

/-- One component of some samples. -/
def component (i : Fin d) (xs : List (Fin d → ℝ)) : List ℝ := xs.map (· i)

/-! ## Bookkeeping -/

/-- **The counts, means and squared deviations** are those of the samples of each stack. -/
structure Tallied (e : EPSRDiagnostic ℝ d) (xs : ℕ → List (Fin d → ℝ)) : Prop where
  numSamples : ∀ k, e.numSamples k = (xs k).length
  M : ∀ k i, e.M k i = mean (component i (xs k))
  S : ∀ k i, e.S k i = deviations (component i (xs k))

variable {e : EPSRDiagnostic ℝ d} {xs : ℕ → List (Fin d → ℝ)} {nStacks nChains : ℕ}

theorem tallied_init (nStacks nChains : ℕ) (threshold : ℝ) :
    Tallied (init nStacks nChains threshold : EPSRDiagnostic ℝ d) fun _ => [] := by
  refine ⟨fun _ => rfl, fun k i => ?_, fun k i => ?_⟩
  · show (0.0 : ℝ) = 0 / (0 : ℕ)
    norm_num
  · exact Double.zero_eq

/-- The samples of a stack with one update more. -/
theorem samplesOf_cons (hC : 1 ≤ nChains) (k : ℕ) (u : Update d) (us : List (Update d)) :
    samplesOf nChains k (u :: us) =
      (if u.1 % nChains = 0 ∧ u.1 / nChains = k then [u.2.sample] else []) ++
        samplesOf nChains k us := by
  have hcold : u.1 = k * nChains ↔ u.1 % nChains = 0 ∧ u.1 / nChains = k := by
    constructor
    · intro h
      rw [h]
      exact ⟨Nat.mul_mod_left _ _, Nat.mul_div_cancel _ hC⟩
    · rintro ⟨hmod, rfl⟩
      exact (Nat.div_mul_cancel (Nat.dvd_of_mod_eq_zero hmod)).symm
  unfold samplesOf
  rw [List.filter_cons]
  simp only [decide_eq_true_eq, hcold]
  split <;> rfl

/-- **An update** adds a sample to its stack, if it is for the coldest chain. -/
theorem Tallied.update (h : Tallied e xs) (id : ℕ) (state : State (Fin d → ℝ) ℝ) :
    Tallied (e.update id state) fun k =>
      xs k ++ if id % e.nChains = 0 ∧ id / e.nChains = k then [state.sample] else [] := by
  by_cases hcold : id % e.nChains = 0
  · have hcast : ∀ n : ℕ, (Double.ofInt ((n + 1 : ℕ) : ℤ) : ℝ) = n + 1 := by
      intro n
      show (((n + 1 : ℕ) : ℤ) : ℝ) = _
      push_cast
      rfl
    have hcomp : ∀ k i, component i (xs k ++ [state.sample]) =
        component i (xs k) ++ [state.sample i] := by
      intro k i
      rw [component, List.map_append]
      rfl
    have hlen : ∀ k i, (xs k).length = (component i (xs k)).length := by
      intro k i
      rw [component, List.length_map]
    unfold EPSRDiagnostic.update
    simp only [hcold, if_true, true_and]
    refine ⟨fun k => ?_, fun k i => ?_, fun k i => ?_⟩ <;> dsimp only
    · rcases eq_or_ne (id / e.nChains) k with rfl | hne
      · rw [Function.update_self, if_pos rfl, h.numSamples, List.length_append, List.length_singleton]
      · rw [Function.update_of_ne hne.symm, if_neg hne, List.append_nil, h.numSamples]
    · rcases eq_or_ne (id / e.nChains) k with rfl | hne
      · rw [Function.update_self, if_pos rfl, hcomp, mean_concat, h.M, h.numSamples, hcast, ← hlen]
      · rw [Function.update_of_ne hne.symm, if_neg hne, List.append_nil, h.M]
    · rcases eq_or_ne (id / e.nChains) k with rfl | hne
      · rw [Function.update_self, if_pos rfl, hcomp, deviations_concat, mean_concat, h.M,
          h.S, h.numSamples, hcast, ← hlen]
      · rw [Function.update_of_ne hne.symm, if_neg hne, List.append_nil, h.S]
  · unfold EPSRDiagnostic.update
    simp only [hcold, if_false, false_and, List.append_nil]
    exact h

/-- **After any updates**, in any order. -/
theorem Tallied.run (h : Tallied e xs) (hC : 1 ≤ e.nChains) (us : List (Update d)) :
    Tallied (e.run us) (fun k => xs k ++ samplesOf e.nChains k us) ∧
      (e.run us).nStacks = e.nStacks ∧ (e.run us).threshold = e.threshold := by
  induction us generalizing e xs with
  | nil =>
    simp only [samplesOf, List.filter_nil, List.map_nil, List.append_nil]
    exact ⟨h, rfl, rfl⟩
  | cons u us ih =>
    have hsame : (e.update u.1 u.2).nChains = e.nChains ∧ (e.update u.1 u.2).nStacks = e.nStacks ∧
        (e.update u.1 u.2).threshold = e.threshold := by
      unfold EPSRDiagnostic.update
      split <;> exact ⟨rfl, rfl, rfl⟩
    obtain ⟨htally, hstacks, hthreshold⟩ := ih (h.update u.1 u.2) (by rw [hsame.1]; exact hC)
    refine ⟨?_, hstacks.trans hsame.2.1, hthreshold.trans hsame.2.2⟩
    simp only [samplesOf_cons hC, ← List.append_assoc]
    rw [hsame.1] at htally
    exact htally

theorem tallied_run (nStacks : ℕ) (hC : 1 ≤ nChains) (threshold : ℝ) (us : List (Update d)) :
    Tallied ((init nStacks nChains threshold).run us) (fun k => samplesOf nChains k us) ∧
      ((init nStacks nChains threshold : EPSRDiagnostic ℝ d).run us).nStacks = nStacks ∧
      ((init nStacks nChains threshold : EPSRDiagnostic ℝ d).run us).threshold = threshold := by
  have h := (tallied_init nStacks nChains threshold).run (d := d) hC us
  simp only [List.nil_append] at h
  exact h

/-! ## The potential scale reduction -/

theorem sumStacks_eq (e : EPSRDiagnostic ℝ d) (f : ℕ → ℝ) :
    e.sumStacks f = ((List.range e.nStacks).map f).sum := by
  unfold sumStacks
  rw [foldl_add]
  norm_num

/-- The least of some numbers. -/
theorem foldl_min_spec (f : ℕ → ℕ) (l : List ℕ) (n : ℕ) :
    let r := l.foldl (fun n k => min n (f k)) n
    r ≤ n ∧ (∀ k ∈ l, r ≤ f k) ∧ (r = n ∨ ∃ k ∈ l, r = f k) := by
  induction l generalizing n with
  | nil => exact ⟨le_rfl, by simp, .inl rfl⟩
  | cons a l ih =>
    obtain ⟨hle, hall, hin⟩ := ih (min n (f a))
    refine ⟨hle.trans (min_le_left _ _), ?_, ?_⟩
    · intro k hk
      rcases List.mem_cons.1 hk with rfl | hk
      · exact hle.trans (min_le_right _ _)
      · exact hall k hk
    · rcases hin with heq | ⟨k, hk, heq⟩
      · rcases min_choice n (f a) with hmin | hmin
        · exact .inl (heq.trans hmin)
        · exact .inr ⟨a, List.mem_cons_self, heq.trans hmin⟩
      · exact .inr ⟨k, List.mem_cons_of_mem _ hk, heq⟩

/-- The length of the shortest chain. -/
theorem minSamples_spec (e : EPSRDiagnostic ℝ d) (hS : 1 ≤ e.nStacks) :
    (∀ k < e.nStacks, e.minSamples ≤ e.numSamples k) ∧
      ∃ k < e.nStacks, e.minSamples = e.numSamples k := by
  obtain ⟨-, hall, hin⟩ := foldl_min_spec e.numSamples (List.range e.nStacks) (e.numSamples 0)
  refine ⟨fun k hk => hall k (List.mem_range.2 hk), ?_⟩
  rcases hin with heq | ⟨k, hk, heq⟩
  · exact ⟨0, hS, heq⟩
  · exact ⟨k, List.mem_range.1 hk, heq⟩

/-- The variance between the chains is that of their means. -/
theorem Tallied.between (h : Tallied e xs) (i : Fin d) : e.between i =
    e.minSamples * variance ((List.range e.nStacks).map fun k => mean (component i (xs k))) := by
  unfold EPSRDiagnostic.between variance deviations
  simp only [sumStacks_eq, Double.ofInt_natCast, h.M, Double.one_eq, List.length_map, List.length_range,
    ← sq]
  rw [Lib.mean, List.length_map, List.length_range, List.map_map]
  exact div_mul_eq_mul_div _ _ _ |>.trans (mul_div_assoc _ _ _)

/-- The variance within the chains, from their squared deviations. -/
theorem Tallied.within (h : Tallied e xs) (i : Fin d) : e.within i =
    ((List.range e.nStacks).map fun k => deviations (component i (xs k)) / (e.minSamples - 1)).sum /
      e.nStacks := by
  have hterm : ∀ k, 1 / (e.nStacks : ℝ) * deviations (component i (xs k)) / (e.minSamples - 1) =
      1 / (e.nStacks : ℝ) * (deviations (component i (xs k)) / (e.minSamples - 1)) :=
    fun k => mul_div_assoc _ _ _
  unfold EPSRDiagnostic.within
  simp only [sumStacks_eq, Double.ofInt_natCast, h.S, Double.one_eq, hterm]
  rw [List.sum_map_mul_left, one_div, inv_mul_eq_div]

/-- Everything depends on the samples of each stack only, in whatever order. -/
theorem Tallied.rHat_perm {e' : EPSRDiagnostic ℝ d} {xs' : ℕ → List (Fin d → ℝ)} (h : Tallied e xs)
    (h' : Tallied e' xs') (hS : e'.nStacks = e.nStacks) (hpos : 1 ≤ e.nStacks)
    (hperm : ∀ k < e.nStacks, (xs' k).Perm (xs k)) (i : Fin d) : e'.rHat i = e.rHat i := by
  have hcount : ∀ k < e.nStacks, e'.numSamples k = e.numSamples k := by
    intro k hk
    rw [h.numSamples, h'.numSamples, (hperm k hk).length_eq]
  have hmin : e'.minSamples = e.minSamples := by
    obtain ⟨hle, k, hk, heq⟩ := minSamples_spec e hpos
    obtain ⟨hle', k', hk', heq'⟩ := minSamples_spec e' (hS ▸ hpos)
    rw [hS] at hle' hk'
    refine le_antisymm ?_ ?_
    · rw [heq, ← hcount k hk]
      exact hle' k hk
    · rw [heq', hcount k' hk']
      exact hle k' hk'
  have hcomp : ∀ k < e.nStacks, (component i (xs' k)).Perm (component i (xs k)) :=
    fun k hk => (hperm k hk).map _
  have hbetween : e'.between i = e.between i := by
    rw [h.between, h'.between, hmin, hS]
    congr 2
    exact List.map_congr_left fun k hk => mean_perm (hcomp k (List.mem_range.1 hk))
  have hwithin : e'.within i = e.within i := by
    rw [h.within, h'.within, hmin, hS]
    congr 2
    refine List.map_congr_left fun k hk => ?_
    rw [deviations_perm (hcomp k (List.mem_range.1 hk))]
  unfold rHat
  simp only [hmin, hbetween, hwithin]

theorem variance_nonneg {ys : List ℝ} (h : 1 ≤ ys.length) : 0 ≤ variance ys :=
  div_nonneg (deviations_nonneg ys) (sub_nonneg.2 (Nat.one_le_cast.2 h))

/-- With the same number of samples in all stacks, the shortest chain is as long as the others. -/
theorem Tallied.equal (h : Tallied e xs) (hS : 1 ≤ e.nStacks) {n : ℕ}
    (hn : ∀ k < e.nStacks, (xs k).length = n) (i : Fin d) : e.minSamples = n ∧ e.within i =
    mean ((List.range e.nStacks).map fun k => variance (component i (xs k))) := by
  have hmin : e.minSamples = n := by
    obtain ⟨-, k, hk, heq⟩ := minSamples_spec e hS
    rw [heq, h.numSamples, hn k hk]
  refine ⟨hmin, ?_⟩
  rw [h.within, Lib.mean, List.length_map, List.length_range, hmin]
  congr 2
  refine List.map_congr_left fun k hk => ?_
  rw [variance, component, List.length_map, hn k (List.mem_range.1 hk)]

/-- **The statistic for stacks of equal length** is the one of its definition. -/
theorem Tallied.rHat_sq (h : Tallied e xs) (hS : 2 ≤ e.nStacks) {n : ℕ} (hn : 2 ≤ n)
    (hall : ∀ k < e.nStacks, (xs k).length = n) (i : Fin d) :
    let w := mean ((List.range e.nStacks).map fun k => variance (component i (xs k)))
    let b := n * variance ((List.range e.nStacks).map fun k => mean (component i (xs k)))
    e.rHat i ^ 2 = ((n - 1) / n * w + b / n) / (w + 1e-30) := by
  intro w b
  obtain ⟨hmin, hw⟩ := h.equal (by omega) hall i
  have hb := h.between i
  rw [hmin] at hb
  have hn' : (1 : ℝ) ≤ n := Nat.one_le_cast.2 (by omega)
  have hw₀ : 0 ≤ w := by
    refine div_nonneg (List.sum_nonneg ?_) (Nat.cast_nonneg _)
    intro v hv
    obtain ⟨k, hk, rfl⟩ := List.mem_map.1 hv
    refine variance_nonneg ?_
    show 1 ≤ ((xs k).map (· i)).length
    rw [List.length_map, hall k (List.mem_range.1 hk)]
    omega
  have hb₀ : 0 ≤ b := by
    refine mul_nonneg (Nat.cast_nonneg _) (variance_nonneg ?_)
    rw [List.length_map, List.length_range]
    omega
  have hr : e.rHat i = √(((n - 1) / n * w + 1 / n * b) / (w + 1e-30)) := by
    unfold rHat
    simp only [hmin, Double.ofInt_natCast, Double.one_eq, hw, hb]
    rfl
  rw [hr, Real.sq_sqrt, one_div, inv_mul_eq_div]
  have hn₀ : (0 : ℝ) ≤ n - 1 := sub_nonneg.2 hn'
  positivity

/-- **The diagnostic is exact and order-independent.** -/
theorem epsr_exact (hS : 2 ≤ nStacks) (hC : 1 ≤ nChains) (threshold : ℝ) (us : List (Update d)) :
    let e := (init nStacks nChains threshold).run us
    let xs := fun k i => component i (samplesOf nChains k us)
    (∀ k, e.numSamples k = (samplesOf nChains k us).length ∧ ∀ i,
      e.M k i = mean (xs k i) ∧ e.S k i = deviations (xs k i)) ∧
    (∀ id state, id % nChains ≠ 0 → ∀ e : EPSRDiagnostic ℝ d, e.nChains = nChains →
      e.update id state = e) ∧
    (∀ n, 2 ≤ n → (∀ k < nStacks, (samplesOf nChains k us).length = n) → ∀ i,
      let w := mean ((List.range nStacks).map fun k => variance (xs k i))
      let b := n * variance ((List.range nStacks).map fun k => mean (xs k i))
      e.rHat i ^ 2 = ((n - 1) / n * w + b / n) / (w + 1e-30)) ∧
    ∀ us', (∀ k < nStacks, (samplesOf nChains k us').Perm (samplesOf nChains k us)) →
      (∀ i, ((init nStacks nChains threshold).run us').rHat i = e.rHat i) ∧
      ((init nStacks nChains threshold).run us').hasConverged = e.hasConverged := by
  intro e xs
  obtain ⟨h, hstacks, hthreshold⟩ :
      Tallied e (fun k => samplesOf nChains k us) ∧ e.nStacks = nStacks ∧ e.threshold = threshold :=
    tallied_run nStacks hC threshold us
  refine ⟨fun k => ⟨h.numSamples k, fun i => ⟨h.M k i, h.S k i⟩⟩, ?_, ?_, ?_⟩
  · rintro id state hid e rfl
    unfold EPSRDiagnostic.update
    rw [if_neg hid]
  · intro n hn hall i
    rw [← hstacks] at hall hS ⊢
    exact h.rHat_sq hS hn hall i
  · intro us' hperm
    obtain ⟨h', hstacks', hthreshold'⟩ := tallied_run nStacks hC threshold us'
    have hrHat := h.rHat_perm h' (hstacks'.trans hstacks.symm) (by omega) (by rw [hstacks]; exact hperm)
    refine ⟨hrHat, ?_⟩
    unfold hasConverged
    simp only [hrHat, hthreshold, hthreshold']

/-- A sample of a chain, in one dimension. -/
noncomputable def sampled (id : ℕ) (x : ℝ) : Update 1 := (id, ⟨fun _ => x, 0, 0, 0, true, .noAttempt⟩)

/-- Two stacks of two chains: only the coldest count, in whatever order they come. -/
theorem epsr_exact_twoStacks :
    ((init 2 2 1.1).run [sampled 0 0, sampled 1 7, sampled 2 1, sampled 2 3, sampled 0 4]).M 0 0 = 2 ∧
    ((init 2 2 1.1).run [sampled 0 0, sampled 2 1, sampled 0 4, sampled 2 3]).rHat 0 =
      ((init 2 2 1.1).run
        [sampled 0 0, sampled 1 7, sampled 2 1, sampled 2 3, sampled 0 4]).rHat 0 := by
  obtain ⟨htally, -, -, horder⟩ := epsr_exact (le_rfl : 2 ≤ 2) (by decide : 1 ≤ 2) 1.1
    [sampled 0 0, sampled 1 7, sampled 2 1, sampled 2 3, sampled 0 4]
  refine ⟨?_, (horder _ ?_).1 0⟩
  · rw [((htally 0).2 0).1]
    show mean [(0 : ℝ), 4] = 2
    norm_num [mean]
  · intro k hk
    interval_cases k
    · exact .refl _
    · exact .refl _

/-! ## Chains of different lengths -/

/-- What is too much when a sum is divided by the smaller of two numbers. -/
theorem excess_nonneg {s a b : ℝ} (hs : 0 ≤ s) (ha : 0 < a) (hab : a ≤ b) :
    0 ≤ s / a - s / b ∧ (s / a - s / b = 0 ↔ a = b ∨ s = 0) := by
  have hb : 0 < b := ha.trans_le hab
  refine ⟨sub_nonneg.2 (div_le_div_of_nonneg_left hs ha hab), ?_⟩
  rw [sub_eq_zero, div_eq_div_iff ha.ne' hb.ne']
  constructor
  · intro heq
    have hprod : s * (b - a) = 0 := by linarith
    rcases mul_eq_zero.1 hprod with hzero | hzero
    · exact .inr hzero
    · exact .inl (by linarith)
  · rintro (heq | hzero)
    · rw [heq]
    · rw [hzero, zero_mul, zero_mul]

/-- Dividing by a common lower bound of the denominators adds nothing to a mean only where the bound is
attained, or the numerator is zero. -/
theorem mean_div_eq_iff {S : ℕ} (hS : 0 < S) {dev len : ℕ → ℝ} {n : ℝ} (hn : 0 < n)
    (hdev : ∀ k, 0 ≤ dev k) (hlen : ∀ k < S, n ≤ len k) :
    ((List.range S).map fun k => dev k / n).sum / S = mean ((List.range S).map fun k => dev k / len k) ↔
      ∀ k < S, n = len k ∨ dev k = 0 := by
  have hterm := fun k hk => excess_nonneg (hdev k) hn (hlen k hk)
  have hS₀ : (S : ℝ) ≠ 0 := Nat.cast_ne_zero.2 hS.ne'
  have hsplit := Multiset.sum_map_sub (m := (List.range S : Multiset ℕ))
    (f := fun k => dev k / n) (g := fun k => dev k / len k)
  simp only [Multiset.map_coe, Multiset.sum_coe] at hsplit
  rw [mean, List.length_map, List.length_range, div_left_inj' hS₀, ← sub_eq_zero, ← hsplit]
  -- a sum of excesses is zero when each of them is
  constructor
  · intro hzero k hk
    have hall := List.all_zero_of_le_zero_le_of_sum_eq_zero (fun v hv => by
      obtain ⟨k, hk, rfl⟩ := List.mem_map.1 hv
      exact (hterm k (List.mem_range.1 hk)).1) hzero (List.mem_map_of_mem (List.mem_range.2 hk))
    exact (hterm k hk).2.1 hall
  · intro hall
    refine List.sum_eq_zero ?_
    intro v hv
    obtain ⟨k, hk, rfl⟩ := List.mem_map.1 hv
    have hk := List.mem_range.1 hk
    exact (hterm k hk).2.2 (hall k hk)

/-- **The variance within the chains is right** exactly when the stacks with more samples than the
shortest do not vary: their squared deviations are of all samples, but divided by the length of the
shortest. -/
theorem within_iff (hS : 2 ≤ nStacks) (hC : 1 ≤ nChains) (threshold : ℝ) (us : List (Update d))
    (hn : ∀ k < nStacks, 2 ≤ (samplesOf nChains k us).length) (i : Fin d) :
    ((init nStacks nChains threshold).run us).within i =
      mean ((List.range nStacks).map fun k => variance (component i (samplesOf nChains k us))) ↔
    ∀ k < nStacks,
      (∃ k' < nStacks, (samplesOf nChains k' us).length < (samplesOf nChains k us).length) →
      ∀ x ∈ samplesOf nChains k us, ∀ y ∈ samplesOf nChains k us, x i = y i := by
  obtain ⟨h, hstacks, -⟩ := tallied_run (d := d) nStacks hC threshold us
  generalize (init nStacks nChains threshold).run us = e at h hstacks
  obtain ⟨hle, k₀, hk₀, hmin⟩ := minSamples_spec e (by omega)
  rw [hstacks] at hle hk₀
  set n := e.minSamples
  set len := fun k => (samplesOf nChains k us).length
  have hcount : ∀ k, e.numSamples k = len k := h.numSamples
  have hshort : (0 : ℝ) < n - 1 := by
    have htwo : (2 : ℝ) ≤ n := by
      rw [hmin, hcount]
      exact_mod_cast hn k₀ hk₀
    linarith
  have hlonger : ∀ k < nStacks, (n : ℝ) ≤ len k := by
    intro k hk
    rw [← hcount]
    exact_mod_cast hle k hk
  have hvar : ∀ k, variance (component i (samplesOf nChains k us)) =
      deviations (component i (samplesOf nChains k us)) / (len k - 1) := by
    intro k
    rw [variance, component, List.length_map]
  rw [h.within, hstacks]
  simp only [hvar]
  rw [mean_div_eq_iff (by omega) hshort (fun k => deviations_nonneg _)
    fun k hk => sub_le_sub_right (hlonger k hk) 1]
  refine forall₂_congr ?_
  intro k hk
  rw [sub_left_inj, component, deviations_eq_zero_iff, List.forall_mem_map]
  simp only [List.forall_mem_map]
  -- a stack is as short as the shortest, or there is a shorter one
  rcases (hlonger k hk).eq_or_lt with heq | hlt
  · refine iff_of_true (.inl heq) ?_
    rintro ⟨k', hk', hlt⟩
    have hlong := hlonger k' hk'
    rw [heq] at hlong
    exact absurd (Nat.cast_le.1 hlong) (Nat.not_le.2 hlt)
  · have hshorter : ∃ k' < nStacks, len k' < len k := by
      refine ⟨k₀, hk₀, ?_⟩
      rw [hmin, hcount] at hlt
      exact Nat.cast_lt.1 hlt
    rw [or_iff_right hlt.ne]
    exact ⟨fun hall _ => hall, fun hall => hall hshorter⟩

/-- The longer of two stacks does not vary. -/
theorem within_iff_constant :
    ((init 2 1 1.1).run [sampled 0 0, sampled 1 1, sampled 0 2, sampled 1 1, sampled 1 1]).within 0 =
      mean [variance [0, 2], variance [1, 1, 1]] := by
  refine (within_iff (le_rfl : 2 ≤ 2) (le_rfl : 1 ≤ 1) 1.1 _ ?_ 0).2 ?_
  · intro k hk
    interval_cases k
    · exact le_rfl
    · exact Nat.le_succ 2
  · rintro k hk ⟨k', hk', hlt⟩ x hx y hy
    interval_cases k
    · interval_cases k'
      · exact absurd hlt (lt_irrefl _)
      · exact absurd hlt (by show ¬ 3 < 2; decide)
    · have hone : ∀ z ∈ samplesOf 1 1
          [sampled 0 0, sampled 1 1, sampled 0 2, sampled 1 1, sampled 1 1], z 0 = 1 := by
        intro z hz
        have hz : z ∈ [fun _ => (1 : ℝ), fun _ => 1, fun _ => 1] := hz
        simp only [List.mem_cons, List.not_mem_nil, or_false, or_self] at hz
        rw [hz]
      rw [hone x hx, hone y hy]

/-- **A longer chain counts for too much**: the samples of both stacks have the variance 2, and the
variance within the chains is 4. -/
theorem within_too_large :
    ((init 2 1 1.1).run [sampled 0 0, sampled 1 1, sampled 0 2, sampled 1 1, sampled 1 (-2),
      sampled 1 0]).within 0 = 4 ∧ variance [(0 : ℝ), 2] = 2 ∧ variance [(1 : ℝ), 1, -2, 0] = 2 := by
  refine ⟨?_, by norm_num [variance, deviations, mean], by norm_num [variance, deviations, mean]⟩
  obtain ⟨h, hstacks, -⟩ := tallied_run 2 (le_rfl : 1 ≤ 1) 1.1
    [sampled 0 0, sampled 1 1, sampled 0 2, sampled 1 1, sampled 1 (-2), sampled 1 0]
  rw [h.within, hstacks]
  show ([deviations [(0 : ℝ), 2] / (((2 : ℕ) : ℝ) - 1),
    deviations [(1 : ℝ), 1, -2, 0] / (((2 : ℕ) : ℝ) - 1)] : List ℝ).sum / ((2 : ℕ) : ℝ) = 4
  norm_num [deviations, mean]

end Stateline.EPSRDiagnostic
