import Stateline.Spec.Chains

/-!
# Flushing

`ChainArray` refines the recorded chains of `Spec.Chains`: what is in the file of
a stack, followed by the cache of its cold chain, is all that the chain recorded
(`Refines`). The cache keeps at least the newest state, so that a swap may still
edit it; nothing in a file changes.

* `flush_transparent`: **in every run of operations the two agree**, wherever the
  flushes are, and files only grow.
* `file_complete_iff`: the file of a stack holds all the states of its cold chain
  after the destruction of the array only if there are none.
-/

namespace Stateline

open Lib
open ChainArray (Op)

variable {V F : Type}

/-- The chain array holds the recorded chains, in its files and caches. -/
structure Refines (c : ChainArray V F) (s : Chains V F) : Prop where
  nstacks : c.nstacks = s.nstacks
  ntemps : c.ntemps = s.ntemps
  beta : c.beta = s.beta
  sigma : c.sigma = s.sigma
  /-- The cache of a chain is the end of what it recorded, after what is in its file. -/
  cache : ∀ id, ∃ gone, gone ++ c.cache id = s.states id ∧
    (c.lengthOnDisk id + (c.cache id).length) % 2 ^ 32 = (s.states id).length % 2 ^ 32 ∧
    (c.chainIndex id = 0 → gone = c.chainFiles (id / c.ntemps))
  /-- The newest state is in the cache. -/
  newest : ∀ id, c.cache id = [] → s.states id = []
  files : ∀ k, c.nstacks ≤ k → c.chainFiles k = []

/-- The same index is a chain of both. -/
theorem Refines.check {c : ChainArray V F} {s : Chains V F} (h : Refines c s) (id : ℕ) :
    Sim (fun _ _ => id < c.numTotalChains) (c.check id) (s.check id) := by
  unfold ChainArray.check Chains.check Chains.size
  rw [ChainArray.numTotalChains_eq, ← h.nstacks, ← h.ntemps]
  split
  · assumption
  · trivial

/-- **The last states agree.** -/
theorem Refines.last {c : ChainArray V F} {s : Chains V F} (h : Refines c s) (id : ℕ) :
    Sim (fun a b => a = b ∧ id < c.numTotalChains ∧ c.cache id ≠ []) (c.lastState id)
      (s.last id) := by
  refine (h.check id).bind ?_
  intro _ _ hid
  obtain ⟨gone, hgone, -⟩ := h.cache id
  rcases eq_or_ne (c.cache id) [] with hnil | hne
  · rw [hnil, h.newest id hnil]
    trivial
  · unfold back
    rw [← hgone, List.getLast?_append_of_ne_nil gone hne, List.getLast?_eq_some_getLast hne]
    exact ⟨rfl, hid, hne⟩

namespace ChainArray

variable {c : ChainArray V F} {s : Chains V F} {id : ℕ}

/-- Appending to a cache records a state. -/
theorem refines_push (h : Refines c s) (state : State V F) :
    Refines { c with cache := Function.update c.cache id (c.cache id ++ [state]) }
      (s.push id state) := by
  refine ⟨h.nstacks, h.ntemps, h.beta, h.sigma, ?_, ?_, h.files⟩
  · intro i
    obtain ⟨gone, hgone, hlen, hfile⟩ := h.cache i
    refine ⟨gone, ?_, ?_, hfile⟩
    · rcases eq_or_ne i id with rfl | hne
      · simp only [Chains.push, Function.update_self, ← hgone, List.append_assoc]
      · simpa only [Chains.push, Function.update_of_ne hne] using hgone
    · rcases eq_or_ne i id with rfl | hne
      · simp only [Chains.push, Function.update_self, List.length_append, List.length_singleton]
        omega
      · simpa only [Chains.push, Function.update_of_ne hne] using hlen
  · intro i hi
    rcases eq_or_ne i id with rfl | hne
    · simp only [Function.update_self] at hi
      exact absurd hi (by simp)
    · simp only [Function.update_of_ne hne] at hi
      simpa only [Chains.push, Function.update_of_ne hne] using h.newest i hi

/-- Editing the newest state, which is in the cache. -/
theorem refines_setBack (h : Refines c s) (hne : c.cache id ≠ []) (state : State V F) :
    Refines (c.setBack id state) (s.edit id state) := by
  refine ⟨h.nstacks, h.ntemps, h.beta, h.sigma, ?_, ?_, h.files⟩
  · intro i
    obtain ⟨gone, hgone, hlen, hfile⟩ := h.cache i
    refine ⟨gone, ?_, ?_, hfile⟩
    · rcases eq_or_ne i id with rfl | hi
      · simp only [setBack, Chains.edit, Function.update_self, ← hgone, ← List.append_assoc,
          List.dropLast_append_of_ne_nil hne]
      · simpa only [setBack, Chains.edit, Function.update_of_ne hi] using hgone
    · rcases eq_or_ne i id with rfl | hi
      · have h1 := List.length_pos_of_ne_nil hne
        have h2 := congrArg List.length hgone
        rw [List.length_append] at h2
        simp only [setBack, Chains.edit, Function.update_self, List.length_append, List.length_dropLast,
          List.length_singleton]
        omega
      · simpa only [setBack, Chains.edit, Function.update_of_ne hi] using hlen
  · intro i hi
    rcases eq_or_ne i id with rfl | hi'
    · simp only [setBack, Function.update_self] at hi
      exact absurd hi (by simp)
    · simp only [setBack, Function.update_of_ne hi'] at hi
      simpa only [Chains.edit, Function.update_of_ne hi'] using h.newest i hi

/-- Two cold chains of one stack are the same. -/
theorem cold_inj {i j n : ℕ} (hi : i % n = 0) (hj : j % n = 0) (h : i / n = j / n) : i = j := by
  have h1 := Nat.div_add_mod i n
  have h2 := Nat.div_add_mod j n
  rw [hi, h] at h1
  rw [hj] at h2
  omega

/-- **Flushing a chain** moves its states to the file and keeps the newest. -/
theorem refines_flushed (h : Refines c s) (hid : id < c.numTotalChains) :
    Refines (c.flushed id) s := by
  unfold flushed
  dsimp only
  split
  · exact h
  · rename_i hlen0
    have hne : c.cache id ≠ [] := by
      intro hnil
      rw [hnil] at hlen0
      exact hlen0 rfl
    have hlast : (c.cache id).getLast?.toList = [(c.cache id).getLast hne] := by
      rw [List.getLast?_eq_some_getLast hne, Option.toList_some]
    refine ⟨h.nstacks, h.ntemps, h.beta, h.sigma, ?_, ?_, ?_⟩
    · intro i
      obtain ⟨gone, hgone, hlen, hfile⟩ := h.cache i
      rcases eq_or_ne i id with rfl | hi
      -- what leaves the cache is what is written
      · refine ⟨gone ++ (c.cache i).dropLast, ?_, ?_, ?_⟩
        · simp only [Function.update_self, hlast, List.append_assoc, List.dropLast_append_getLast]
          exact hgone
        · simp only [Function.update_self, hlast, List.length_singleton]
          omega
        · intro hcold
          have hcold' : c.chainIndex i = 0 := hcold
          simp only [hcold', if_true, Function.update_self, hfile hcold', numTemps_eq]
      · refine ⟨gone, ?_, ?_, ?_⟩
        · simpa only [Function.update_of_ne hi] using hgone
        · simpa only [Function.update_of_ne hi] using hlen
        · intro hcold
          have hcold' : c.chainIndex i = 0 := hcold
          rw [hfile hcold']
          simp only [numTemps_eq]
          split
          · rename_i hc
            -- two coldest chains have two files
            have hne' : i / c.ntemps ≠ id / c.ntemps := fun he => hi (cold_inj hcold' hc he)
            rw [Function.update_of_ne hne']
          · rfl
    · intro i hi
      rcases eq_or_ne i id with rfl | hi'
      · simp only [Function.update_self, hlast] at hi
        cases hi
      · simp only [Function.update_of_ne hi'] at hi
        exact h.newest i hi
    · intro k hk
      have hk₀ : c.nstacks ≤ k := hk
      have hk' : k ≠ id / c.ntemps := by
        have : id / c.ntemps < c.nstacks := Nat.div_lt_of_lt_mul (hid.trans_le (Nat.mod_le _ _))
        rintro rfl
        omega
      simp only [numTemps_eq]
      split
      · rw [Function.update_of_ne hk']
        exact h.files k hk
      · exact h.files k hk

/-- A property that flushing a chain keeps is kept by flushing all. -/
theorem flushAll_induction {P : ChainArray V F → Prop} (h : P c)
    (hstep : ∀ (c : ChainArray V F) (id : ℕ), P c → P (c.flushed id)) : P c.flushAll := by
  unfold flushAll
  generalize List.range c.numTotalChains = l
  induction l generalizing c with
  | nil => exact h
  | cons id l ih => exact ih (hstep c id h)

theorem flushed_nstacks : (c.flushed id).nstacks = c.nstacks := by
  unfold flushed
  dsimp only
  split <;> rfl

theorem flushed_ntemps : (c.flushed id).ntemps = c.ntemps := by
  unfold flushed
  dsimp only
  split <;> rfl

theorem refines_flushAll (h : Refines c s) : Refines c.flushAll s := by
  have key : ∀ (l : List ℕ) (c : ChainArray V F), Refines c s → (∀ id ∈ l, id < c.numTotalChains) →
      Refines (l.foldl flushed c) s := by
    intro l
    induction l with
    | nil => intro c h _; exact h
    | cons id l ih =>
      intro c h hl
      refine ih _ (refines_flushed h (hl id List.mem_cons_self)) ?_
      intro i hi
      rw [numTotalChains_eq, flushed_nstacks, flushed_ntemps]
      exact hl i (List.mem_cons_of_mem _ hi)
  exact key _ c h fun id hid => List.mem_range.1 hid

theorem refines_timedFlush (h : Refines c s) (now : ℤ) : Refines (c.timedFlush now) s := by
  unfold timedFlush
  dsimp only
  split
  · have h' : Refines { c with lastFlushTime := now } s :=
      ⟨h.nstacks, h.ntemps, h.beta, h.sigma, h.cache, h.newest, h.files⟩
    exact refines_flushAll h'
  · exact h

/-! ## Files only grow -/

theorem files_flushed (c : ChainArray V F) (id k : ℕ) : c.chainFiles k <+:
    (c.flushed id).chainFiles k := by
  unfold flushed
  dsimp only
  split
  · exact List.prefix_rfl
  · dsimp only
    split
    · rcases eq_or_ne k (id / c.numTemps) with rfl | hne
      · rw [Function.update_self]
        exact List.prefix_append _ _
      · rw [Function.update_of_ne hne]
    · exact List.prefix_rfl

theorem files_flushAll (c : ChainArray V F) (k : ℕ) : c.chainFiles k <+: c.flushAll.chainFiles k :=
  flushAll_induction (P := fun c' => c.chainFiles k <+: c'.chainFiles k) List.prefix_rfl
    fun c' id h => h.trans (files_flushed c' id k)

theorem files_timedFlush (file : List (State V F)) (c : ChainArray V F) (now : ℤ) (k : ℕ)
    (h : file <+: c.chainFiles k) : file <+: (c.timedFlush now).chainFiles k := by
  unfold timedFlush
  dsimp only
  split
  · exact h.trans (files_flushAll { c with lastFlushTime := now } k)
  · exact h

variable [Double F]

/-- An operation adds to the files. -/
theorem files_apply {c' : ChainArray V F} {op : Op V F} (h : c.apply op = .ok c') (k : ℕ) :
    c.chainFiles k <+: c'.chainFiles k := by
  cases op with
  | initialise id sample energy sigma beta =>
    rw [apply, initialise_eq] at h
    obtain ⟨-, -, h⟩ := bind_eq_ok h
    cases h
    exact List.prefix_rfl
  | append id sample energy rand now =>
    rw [apply, append_eq, bind_assoc] at h
    obtain ⟨last, -, h⟩ := bind_eq_ok h
    cases h
    exact files_timedFlush _ _ now k List.prefix_rfl
  | setSigma id sigma =>
    obtain ⟨-, -, h⟩ := bind_eq_ok h
    cases h
    exact List.prefix_rfl
  | setBeta id beta =>
    obtain ⟨-, -, h⟩ := bind_eq_ok h
    cases h
    exact List.prefix_rfl
  | swap id1 id2 rand =>
    obtain ⟨⟨c₁, swapType⟩, h₁, h⟩ := bind_eq_ok h
    obtain ⟨stateh, -, h₁⟩ := bind_eq_ok h₁
    obtain ⟨statel, -, h₁⟩ := bind_eq_ok h₁
    cases h
    -- both branches of a swap only replace states in caches
    dsimp only at h₁
    split at h₁
    · cases h₁
      exact List.prefix_rfl
    · cases h₁
      exact List.prefix_rfl
  | flushToDisk id =>
    obtain ⟨-, -, h⟩ := bind_eq_ok h
    cases h
    exact files_flushed c id k

/-! ## The simulation -/

/-- **Every operation** does the same to the array and to the recorded chains, or fails on both. -/
theorem refines_apply (h : Refines c s) (op : Op V F) : Sim Refines (c.apply op) (s.apply op) := by
  cases op with
  | initialise id sample energy sigma beta =>
    rw [apply, initialise_eq]
    refine (h.check id).bind ?_
    intro _ _ _
    have h' : Refines
        { c with sigma := Function.update c.sigma id sigma, beta := Function.update c.beta id beta }
        { s with beta := Function.update s.beta id beta, sigma := Function.update s.sigma id sigma } :=
      ⟨h.nstacks, h.ntemps, by simp only [h.beta], by simp only [h.sigma], h.cache, h.newest, h.files⟩
    exact refines_push h' _
  | append id sample energy rand now =>
    rw [apply, append_eq, bind_assoc]
    refine (h.last id).bind ?_
    intro a b hab
    obtain ⟨rfl, -, -⟩ := hab
    simp only [← h.beta, ← h.sigma]
    exact refines_timedFlush (refines_push h _) now
  | setSigma id sigma =>
    exact (h.check id).bind fun _ _ _ =>
      ⟨h.nstacks, h.ntemps, h.beta, by simp only [h.sigma], h.cache, h.newest, h.files⟩
  | setBeta id beta =>
    exact (h.check id).bind fun _ _ _ =>
      ⟨h.nstacks, h.ntemps, by simp only [h.beta], h.sigma, h.cache, h.newest, h.files⟩
  | swap id1 id2 rand =>
    rw [apply, swap, Chains.apply]
    dsimp only
    rw [bind_assoc]
    refine (h.last (max id1 id2)).bind ?_
    intro hi hi' hhi
    obtain ⟨rfl, -, hhi⟩ := hhi
    rw [bind_assoc]
    refine (h.last (min id1 id2)).bind ?_
    intro lo lo' hlo
    obtain ⟨rfl, -, hlo⟩ := hlo
    simp only [← h.beta]
    cases acceptSwap hi lo (c.beta (max id1 id2)) (c.beta (min id1 id2)) rand with
    | false => exact refines_setBack h hlo _
    | true =>
      -- the lower chain still has a newest state after the edit of the higher one
      refine refines_setBack (refines_setBack h hhi _) ?_ _
      rcases eq_or_ne (min id1 id2) (max id1 id2) with heq | hne
      · simp only [setBack, heq, Function.update_self]
        exact List.append_ne_nil_of_right_ne_nil _ (List.cons_ne_nil _ _)
      · simpa only [setBack, Function.update_of_ne hne] using hlo
  | flushToDisk id => exact (h.check id).bind fun _ _ hid => refines_flushed h hid

/-- An operation that returns does the same to the recorded chains. -/
theorem refines_step {c' : ChainArray V F} {op : Op V F} (h : Refines c s) (hop : c.apply op = .ok c') :
    ∃ s', s.apply op = .ok s' ∧ Refines c' s' := by
  have hsim := refines_apply h op
  rw [hop] at hsim
  cases hs : s.apply op with
  | error e =>
    rw [hs] at hsim
    exact hsim.elim
  | ok s' =>
    rw [hs] at hsim
    exact ⟨s', rfl, hsim⟩

theorem refines_run {c' : ChainArray V F} {ops : List (Op V F)} (h : Refines c s)
    (hops : ops.foldlM apply c = .ok c') :
    ∃ s', ops.foldlM Chains.apply s = .ok s' ∧ Refines c' s' := by
  induction ops generalizing c s with
  | nil =>
    cases hops
    exact ⟨s, rfl, h⟩
  | cons op ops ih =>
    rw [List.foldlM_cons] at hops
    obtain ⟨c₁, h₁, hops⟩ := bind_eq_ok hops
    obtain ⟨s₁, hs₁, hr₁⟩ := refines_step h h₁
    obtain ⟨s', hs', hr⟩ := ih hr₁ hops
    exact ⟨s', by rw [List.foldlM_cons, hs₁, ok_bind, hs'], hr⟩

theorem refines_init (nStacks nTemps : ℕ) (now : ℤ) :
    Refines (init nStacks nTemps now : ChainArray V F) (Chains.init nStacks nTemps) :=
  ⟨rfl, rfl, rfl, rfl, fun _ => ⟨[], rfl, rfl, fun _ => rfl⟩, fun _ _ => rfl, fun _ _ => rfl⟩

/-- What a client of the array, or a reader of its files, sees of the recorded chains. -/
structure Transparent (c : ChainArray V F) (s : Chains V F) : Prop where
  length : ∀ id, c.length id = s.length id
  lastState : ∀ id state, c.lastState id = .ok state ↔ s.last id = .ok state
  /-- A cold chain is in the file of its stack, in order, up to what is in its cache. -/
  cold : ∀ id, c.isColdestInStack id → c.chainFiles (c.stackIndex id) ++ c.cache id = s.states id
  files : ∀ k, c.numStacks ≤ k → c.chainFiles k = []
  /-- Nothing in a file is changed later. -/
  final : ∀ (ops : List (Op V F)) (c' : ChainArray V F), ops.foldlM apply c = .ok c' →
    ∀ k, c.chainFiles k <+: c'.chainFiles k

theorem files_run {ops : List (Op V F)} {c' : ChainArray V F}
    (h : ops.foldlM apply c = .ok c') (k : ℕ) :
    c.chainFiles k <+: c'.chainFiles k :=
  foldlM_keeps (P := fun c' => c.chainFiles k <+: c'.chainFiles k)
    (fun _ _ _ h₁ h₂ => h₂.trans (files_apply h₁ k)) h
    List.prefix_rfl

theorem Transparent.of_refines (h : Refines c s) : Transparent c s := by
  refine ⟨?_, ?_, ?_, h.files, fun ops c' hops k => files_run hops k⟩
  · intro id
    obtain ⟨-, -, hlen, -⟩ := h.cache id
    exact hlen
  · intro id state
    have hlast := h.last id
    cases hc : c.lastState id with
    | error e =>
      cases hs : s.last id with
      | error e' => simp
      | ok b => rw [hc, hs] at hlast; exact hlast.elim
    | ok a =>
      cases hs : s.last id with
      | error e' => rw [hc, hs] at hlast; exact hlast.elim
      | ok b => rw [hc, hs] at hlast; rw [hlast.1]
  · intro id hcold
    obtain ⟨gone, hgone, -, hfile⟩ := h.cache id
    rw [← hgone, hfile (of_decide_eq_true hcold)]
    rfl

/-- **Flushing is transparent.** A sequence of operations is valid for the array if it is for the
recorded chains, wherever it flushes, and then the two agree. -/
theorem flush_transparent (nStacks nTemps : ℕ) (now : ℤ) (ops : List (Op V F)) :
    Sim Transparent (ops.foldlM apply (init nStacks nTemps now))
      (ops.foldlM Chains.apply (Chains.init nStacks nTemps)) :=
  (foldlM_sim (fun _ _ op h => refines_apply h op) ops (refines_init nStacks nTemps now)).mono
    fun _ _ => Transparent.of_refines

/-! ## The end of a run -/

/-- **The newest state of a chain is never written.** After the destruction of the array, the file
of a stack is all that its cold chain recorded if and only if that is nothing. -/
theorem file_complete_iff {nStacks nTemps : ℕ} {now : ℤ} {ops : List (Op V F)} {c : ChainArray V F}
    {s : Chains V F} (hT : 0 < nTemps) (hc : ops.foldlM apply (init nStacks nTemps now) = .ok c)
    (hs : ops.foldlM Chains.apply (Chains.init nStacks nTemps) = .ok s) (k : ℕ) :
    c.destroy.chainFiles k = s.states (k * nTemps) ↔ ∀ op ∈ ops,
      Chains.initialises (k * nTemps) op = false := by
  have hrun := foldlM_sim (fun _ _ op h => refines_apply h op) ops
      (refines_init (V := V) (F := F) nStacks nTemps now)
  rw [hc, hs] at hrun
  have h : Refines c.destroy s := refines_flushAll hrun
  have hn : c.destroy.ntemps = nTemps := h.ntemps.trans (Chains.size_run hs).2
  obtain ⟨gone, hgone, -, hfile⟩ := h.cache (k * nTemps)
  have hcold : c.destroy.chainIndex (k * nTemps) = 0 := by
    rw [chainIndex, numTemps_eq, hn, Nat.mul_mod_left]
  have hgone' : gone = c.destroy.chainFiles k := by
    rw [hfile hcold, hn, Nat.mul_div_cancel k hT]
  have hnil : c.destroy.cache (k * nTemps) = [] ↔ s.states (k * nTemps) = [] := by
    refine ⟨h.newest _, ?_⟩
    intro he
    rw [← hgone, List.append_eq_nil_iff] at he
    exact he.2
  calc c.destroy.chainFiles k = s.states (k * nTemps)
      ↔ gone = gone ++ c.destroy.cache (k * nTemps) := by rw [hgone, hgone']
    _ ↔ s.states (k * nTemps) = [] := by rw [List.self_eq_append_right, hnil]
    _ ↔ ∀ op ∈ ops, Chains.initialises (k * nTemps) op = false := by
      rw [Chains.states_run hs]
      exact and_iff_right rfl

/-- A chain is initialised, gets a second state and is flushed. -/
noncomputable def shortRun : List (Op ℝ ℝ) :=
  [.initialise 0 0.5 1 1 1, .append 0 0.25 2 0 3000000000, .flushToDisk 0]

theorem file_complete_short_run :
    ∃ c s, shortRun.foldlM apply (init 1 1 0) = .ok c ∧
      shortRun.foldlM Chains.apply (Chains.init 1 1) = .ok s ∧
      (c.destroy.chainFiles 0 = s.states (0 * 1) ↔ ∀ op ∈ shortRun,
        Chains.initialises (0 * 1) op = false) := by
  obtain ⟨c, hc⟩ : ∃ c, shortRun.foldlM apply (init 1 1 0) = .ok c := ⟨_, rfl⟩
  obtain ⟨s, hs⟩ : ∃ s, shortRun.foldlM Chains.apply (Chains.init 1 1) = .ok s := ⟨_, rfl⟩
  exact ⟨c, s, hc, hs, file_complete_iff Nat.one_pos hc hs 0⟩

/-- Two states are recorded, whether or not the second is an acceptance, and one is in the file. -/
theorem last_state_lost :
    ∃ c s, shortRun.foldlM apply (init 1 1 0) = .ok c ∧
      shortRun.foldlM Chains.apply (Chains.init 1 1) = .ok s ∧
      (c.destroy.chainFiles 0).length = 1 ∧ (s.states 0).length = 2 ∧
        c.destroy.chainFiles 0 ≠ s.states 0 := by
  refine ⟨_, _, rfl, rfl, rfl, rfl, ?_⟩
  intro h
  exact absurd (congrArg List.length h) (by decide : (1 : ℕ) ≠ 2)

end ChainArray

end Stateline
