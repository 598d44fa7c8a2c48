import Stateline.Proof.Flush

/-!
# The last states

What each operation of the chain array does to the last states, the step sizes
and the temperatures. Flushing does nothing to them (`View`).

* `recorded_iff`: **the state that `append` records carries the step size and
  temperature in force** if and only if the proposal is accepted or the last
  state already carried them.
-/

namespace Stateline.ChainArray

variable {V F : Type} {c c' : ChainArray V F} {id i j : ℕ} {last : State V F}

/-- The two arrays show the same, and differ in files and caches only. -/
structure View (c c' : ChainArray V F) : Prop where
  nstacks : c'.nstacks = c.nstacks
  ntemps : c'.ntemps = c.ntemps
  beta : c'.beta = c.beta
  sigma : c'.sigma = c.sigma
  last : ∀ i, c'.lastState i = c.lastState i

/-- The last state of a chain is the end of its cache. -/
theorem lastState_congr (hn : c'.numTotalChains = c.numTotalChains)
    (hc : (c'.cache i).getLast? = (c.cache i).getLast?) : c'.lastState i = c.lastState i := by
  unfold lastState check back
  rw [hn, hc]

theorem lastState_eq_ok :
    c.lastState i = .ok last ↔ i < c.numTotalChains ∧ (c.cache i).getLast? = some last := by
  unfold lastState check back
  split
  · rename_i hi
    rw [ok_bind]
    cases (c.cache i).getLast? with
    | none => simp
    | some x => simp only [hi, true_and, Except.ok.injEq, Option.some.injEq]
  · rename_i hi
    simp only [error_bind, reduceCtorEq, hi, false_and]

theorem view_flushed (c : ChainArray V F) (id : ℕ) : View c (c.flushed id) := by
  refine ⟨flushed_nstacks, flushed_ntemps, ?_, ?_, fun i => lastState_congr ?_ ?_⟩
  · unfold flushed
    dsimp only
    split <;> rfl
  · unfold flushed
    dsimp only
    split <;> rfl
  · rw [numTotalChains_eq, numTotalChains_eq, flushed_nstacks, flushed_ntemps]
  · unfold flushed
    dsimp only
    split
    · rfl
    · rcases eq_or_ne i id with rfl | hne
      · simp only [Function.update_self]
        cases (c.cache i).getLast? with
        | none => rfl
        | some x => rfl
      · simp only [Function.update_of_ne hne]

theorem View.trans {c'' : ChainArray V F} (h : View c c') (h' : View c' c'') : View c c'' :=
  ⟨h'.nstacks.trans h.nstacks, h'.ntemps.trans h.ntemps, h'.beta.trans h.beta, h'.sigma.trans h.sigma,
    fun i => (h'.last i).trans (h.last i)⟩

theorem view_flushAll (c : ChainArray V F) : View c c.flushAll :=
  flushAll_induction
    (P := View c) ⟨rfl, rfl, rfl, rfl, fun _ => rfl⟩ fun c' id h => h.trans (view_flushed c' id)

theorem view_timedFlush (c : ChainArray V F) (now : ℤ) : View c (c.timedFlush now) := by
  unfold timedFlush
  dsimp only
  split
  · have h := view_flushAll { c with lastFlushTime := now }
    exact ⟨h.nstacks, h.ntemps, h.beta, h.sigma, h.last⟩
  · exact ⟨rfl, rfl, rfl, rfl, fun _ => rfl⟩

/-- **What is recorded carries the step size and the temperature of the proposal** if and only if
that is accepted or the last state carried them. -/
theorem recorded_iff (newState last : State V F) (accepted : Bool) :
    ((recorded newState last accepted).sigma = newState.sigma ∧
      (recorded newState last accepted).beta = newState.beta) ↔
      accepted = true ∨ (last.sigma = newState.sigma ∧ last.beta = newState.beta) := by
  cases accepted with
  | true => simp [recorded]
  | false => simp [recorded]

theorem setSigma_ok (hid : id < c.numTotalChains) (sigma : F) :
    c.setSigma id sigma = .ok { c with sigma := Function.update c.sigma id sigma } := by
  unfold setSigma check
  rw [if_pos hid]
  rfl

theorem setBeta_ok (hid : id < c.numTotalChains) (beta : F) :
    c.setBeta id beta = .ok { c with beta := Function.update c.beta id beta } := by
  unfold setBeta check
  rw [if_pos hid]
  rfl

theorem lastState_setBack_of_ne (state : State V F) (hi : i ≠ id) :
    (c.setBack id state).lastState i = c.lastState i :=
  lastState_congr rfl (by simp only [setBack, Function.update_of_ne hi])

theorem lastState_setBack (h : c.lastState i = .ok last) (state : State V F) :
    ∃ state', (c.setBack id state).lastState i = .ok state' := by
  rcases eq_or_ne i id with rfl | hi
  · refine ⟨state, lastState_eq_ok.2 ⟨(lastState_eq_ok.1 h).1, ?_⟩⟩
    simp only [setBack, Function.update_self, List.getLast?_concat]
  · exact ⟨last, (lastState_setBack_of_ne state hi).trans h⟩

variable [Double F]

/-- **A proposal** becomes the last state of its chain, or the last state is recorded again. -/
theorem append_ok (h : c.lastState id = .ok last) (sample : V) (energy rand : F) (now : ℤ) :
    ∃ c' accepted, c.append id sample energy rand now = .ok (c', accepted) ∧
      accepted = acceptProposal ⟨sample, energy, c.sigma id, c.beta id, false, .noAttempt⟩ last
        (c.beta id) rand ∧
      c'.nstacks = c.nstacks ∧ c'.ntemps = c.ntemps ∧ c'.beta = c.beta ∧ c'.sigma = c.sigma ∧
      c'.lastState id = .ok
        (recorded ⟨sample, energy, c.sigma id, c.beta id, false, .noAttempt⟩ last accepted) ∧
      ∀ i, i ≠ id → c'.lastState i = c.lastState i := by
  rw [append_eq, h]
  refine ⟨_, _, rfl, rfl, ?_⟩
  generalize hp : ({ c with cache := _ } : ChainArray V F) = p
  have hv := view_timedFlush p now
  subst hp
  refine ⟨hv.nstacks, hv.ntemps, hv.beta, hv.sigma, ?_, ?_⟩
  -- a flush keeps the last state in the cache
  · rw [hv.last, lastState_eq_ok]
    simp only [Function.update_self, List.getLast?_concat]
    exact ⟨(lastState_eq_ok.1 h).1, trivial⟩
  · intro i hi
    rw [hv.last]
    exact lastState_congr rfl (by simp only [Function.update_of_ne hi])

/-- **A swap** leaves the other chains alone. -/
theorem swap_ok {id1 id2 : ℕ} {last1 last2 : State V F} (h1 : c.lastState id1 = .ok last1)
    (h2 : c.lastState id2 = .ok last2) (rand : F) :
    ∃ c' swapType, c.swap id1 id2 rand = .ok (c', swapType) ∧
      c'.nstacks = c.nstacks ∧ c'.ntemps = c.ntemps ∧ c'.beta = c.beta ∧ c'.sigma = c.sigma ∧
      (∀ i, i ≠ id1 → i ≠ id2 → c'.lastState i = c.lastState i) ∧
      ∀ i state, c.lastState i = .ok state → ∃ state', c'.lastState i = .ok state' := by
  have hmax : ∀ i, i ≠ id1 → i ≠ id2 → i ≠ max id1 id2 ∧ i ≠ min id1 id2 := by
    intro i hi1 hi2
    omega
  obtain ⟨lastH, hH⟩ : ∃ state, c.lastState (max id1 id2) = .ok state := by
    rcases max_choice id1 id2 with he | he
    · exact ⟨last1, by rw [he]; exact h1⟩
    · exact ⟨last2, by rw [he]; exact h2⟩
  obtain ⟨lastL, hL⟩ : ∃ state, c.lastState (min id1 id2) = .ok state := by
    rcases min_choice id1 id2 with he | he
    · exact ⟨last1, by rw [he]; exact h1⟩
    · exact ⟨last2, by rw [he]; exact h2⟩
  unfold swap
  dsimp only
  rw [hH, ok_bind, hL, ok_bind]
  split
  · refine ⟨_, _, rfl, rfl, rfl, rfl, rfl, ?_, ?_⟩
    · intro i hi1 hi2
      obtain ⟨hne1, hne2⟩ := hmax i hi1 hi2
      rw [lastState_setBack_of_ne _ hne2, lastState_setBack_of_ne _ hne1]
    · intro i state hi
      obtain ⟨state', hi'⟩ := lastState_setBack hi _
      exact lastState_setBack hi' _
  · refine ⟨_, _, rfl, rfl, rfl, rfl, rfl, ?_, fun i state hi => lastState_setBack hi _⟩
    intro i hi1 hi2
    exact lastState_setBack_of_ne _ (hmax i hi1 hi2).2

/-- **A swap is judged** by the last states and the temperatures. -/
theorem swap_effect {id1 id2 : ℕ} {rand : F} {swapType : SwapType}
    (h : c.swap id1 id2 rand = .ok (c', swapType)) :
    ∃ high low, c.lastState (max id1 id2) = .ok high ∧ c.lastState (min id1 id2) = .ok low ∧
      decide (swapType = .accept) = acceptSwap high low (c.beta (max id1 id2))
        (c.beta (min id1 id2)) rand ∧
      c'.ntemps = c.ntemps ∧ c'.beta = c.beta ∧ c'.sigma = c.sigma := by
  obtain ⟨high, hhigh, h⟩ := bind_eq_ok h
  obtain ⟨low, hlow, h⟩ := bind_eq_ok h
  refine ⟨high, low, hhigh, hlow, ?_⟩
  dsimp only at h
  split at h
  · rename_i hacc
    obtain ⟨rfl, rfl⟩ := ok_pair_inj h
    rw [hacc]
    exact ⟨rfl, rfl, rfl, rfl⟩
  · rename_i hacc
    obtain ⟨rfl, rfl⟩ := ok_pair_inj h
    rw [Bool.not_eq_true] at hacc
    rw [hacc]
    exact ⟨rfl, rfl, rfl, rfl⟩

/-- No operation changes the numbers of stacks and temperatures. -/
theorem size_apply {op : Op V F} (h : c.apply op = .ok c') :
    c'.nstacks = c.nstacks ∧ c'.ntemps = c.ntemps := by
  cases op with
  | initialise id sample energy sigma beta =>
    rw [apply, initialise_eq] at h
    obtain ⟨-, -, h⟩ := bind_eq_ok h
    cases h
    exact ⟨rfl, rfl⟩
  | append id sample energy rand now =>
    rw [apply, append_eq, bind_assoc] at h
    obtain ⟨last, -, h⟩ := bind_eq_ok h
    cases h
    exact ⟨(view_timedFlush _ now).nstacks, (view_timedFlush _ now).ntemps⟩
  | setSigma | setBeta =>
    obtain ⟨-, -, h⟩ := bind_eq_ok h
    cases h
    exact ⟨rfl, rfl⟩
  | swap id1 id2 rand =>
    obtain ⟨⟨c₁, swapType⟩, h₁, h⟩ := bind_eq_ok h
    obtain ⟨high, -, h₁⟩ := bind_eq_ok h₁
    obtain ⟨low, -, h₁⟩ := bind_eq_ok h₁
    cases h
    dsimp only at h₁
    split at h₁
    · cases h₁
      exact ⟨rfl, rfl⟩
    · cases h₁
      exact ⟨rfl, rfl⟩
  | flushToDisk id =>
    obtain ⟨-, -, h⟩ := bind_eq_ok h
    cases h
    exact ⟨flushed_nstacks, flushed_ntemps⟩

theorem size_run {ops : List (Op V F)} (h : ops.foldlM apply c = .ok c') :
    c'.nstacks = c.nstacks ∧ c'.ntemps = c.ntemps := by
  refine Lib.foldlM_keeps (P := fun c' => c'.nstacks = c.nstacks ∧ c'.ntemps = c.ntemps) ?_ h ⟨rfl, rfl⟩
  intro c₁ op c₂ h₂ ⟨h₃, h₄⟩
  obtain ⟨h₅, h₆⟩ := size_apply h₂
  exact ⟨h₅.trans h₃, h₆.trans h₄⟩

end Stateline.ChainArray
