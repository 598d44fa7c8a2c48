import Stateline.Infer.ChainArray
import Stateline.Lib.Run

/-!
# Recorded chains

What a chain array is for: the list of all states ever recorded in each chain.
Appending records one state, a swap edits the last states of two chains, and
flushing does nothing.
-/

namespace Stateline

open ChainArray (Op)

variable {V F : Type}

/-- All the states of each chain, in memory. -/
structure Chains (V F : Type) where
  nstacks : ℕ
  ntemps : ℕ
  states : ℕ → List (State V F)
  beta : ℕ → F
  sigma : ℕ → F

namespace Chains

/-- Nothing recorded. -/
def init [Double F] (nStacks nTemps : ℕ) : Chains V F :=
  ⟨nStacks, nTemps, fun _ => [], fun _ => 0.0, fun _ => 0.0⟩

variable (s : Chains V F) (id : ℕ)

/-- The number of chains, a `uint`. -/
def size : ℕ := (s.ntemps * s.nstacks) % 2 ^ 32

def check : Except Fault Unit := if id < s.size then .ok () else .error .undefined

/-- The length of a chain, a `uint`. -/
def length : ℕ := (s.states id).length % 2 ^ 32

/-- The last recorded state. -/
def last : Except Fault (State V F) := do
  s.check id
  back (s.states id)

/-- Record a state. -/
def push (state : State V F) : Chains V F :=
  { s with states := Function.update s.states id (s.states id ++ [state]) }

/-- Edit the last state. -/
def edit (state : State V F) : Chains V F :=
  { s with states := Function.update s.states id ((s.states id).dropLast ++ [state]) }

/-- The recorded chains after an operation. -/
def apply [Double F] (s : Chains V F) : Op V F → Except Fault (Chains V F)
  | .initialise id sample energy sigma beta => do
    s.check id
    return { s with beta := Function.update s.beta id beta,
                    sigma := Function.update s.sigma id sigma }.push id
      ⟨sample, energy, sigma, beta, true, .noAttempt⟩
  | .append id sample energy rand _ => do
    let last ← s.last id
    let proposed : State V F := ⟨sample, energy, s.sigma id, s.beta id, false, .noAttempt⟩
    return s.push id (recorded proposed last (acceptProposal proposed last (s.beta id) rand))
  | .setSigma id sigma => do
    s.check id
    return { s with sigma := Function.update s.sigma id sigma }
  | .setBeta id beta => do
    s.check id
    return { s with beta := Function.update s.beta id beta }
  | .swap id1 id2 rand => do
    let h ← s.last (max id1 id2)
    let l ← s.last (min id1 id2)
    if acceptSwap h l (s.beta (max id1 id2)) (s.beta (min id1 id2)) rand then
      return (s.edit (max id1 id2) { h with sample := l.sample, energy := l.energy,
                                            accepted := l.accepted }).edit
        (min id1 id2) { l with
          sample := h.sample, energy := h.energy, accepted := h.accepted, swapType := .accept }
    else return s.edit (min id1 id2) { l with swapType := .reject }
  | .flushToDisk id => do
    s.check id
    return s

variable {s : Chains V F} {id : ℕ}

/-- The operation starts a chain, or starts it again. -/
def initialises (id : ℕ) : Op V F → Bool
  | .initialise id' _ _ _ _ => id' = id
  | _ => false

/-- The chains that an operation is on. -/
def ids : Op V F → List ℕ
  | .initialise id _ _ _ _ => [id]
  | .append id _ _ _ _ => [id]
  | .setSigma id _ => [id]
  | .setBeta id _ => [id]
  | .swap id1 id2 _ => [id1, id2]
  | .flushToDisk id => [id]

theorem last_ne_nil {state : State V F} (h : s.last id = .ok state) : s.states id ≠ [] := by
  obtain ⟨-, -, h⟩ := bind_eq_ok h
  intro hnil
  rw [hnil] at h
  cases h

theorem push_states {i : ℕ} {state : State V F} :
    (s.push i state).states id = [] ↔ s.states id = [] ∧ i ≠ id := by
  rcases eq_or_ne i id with rfl | hne
  · simp [push]
  · simp [push, Function.update_of_ne hne.symm, hne]

theorem edit_states {i : ℕ} {state : State V F} :
    (s.edit i state).states id = [] ↔ s.states id = [] ∧ i ≠ id := by
  rcases eq_or_ne i id with rfl | hne
  · simp [edit]
  · simp [edit, Function.update_of_ne hne.symm, hne]

variable [Double F]

/-- A chain has a state once it was started. -/
theorem states_apply {s' : Chains V F} {op : Op V F} (h : s.apply op = .ok s') (id : ℕ) :
    s'.states id = [] ↔ s.states id = [] ∧ initialises id op = false := by
  cases op with
  | initialise i sample energy sigma beta =>
    obtain ⟨-, -, h⟩ := bind_eq_ok h
    cases h
    rw [push_states]
    simp [initialises]
  | append i sample energy rand now =>
    obtain ⟨last, hlast, h⟩ := bind_eq_ok h
    have hne := last_ne_nil hlast
    cases h
    rw [push_states]
    exact ⟨fun hs => ⟨hs.1, rfl⟩, fun hs => ⟨hs.1, fun hi => hne (hi ▸ hs.1)⟩⟩
  | setSigma i sigma =>
    obtain ⟨-, -, h⟩ := bind_eq_ok h
    cases h
    simp [initialises]
  | setBeta i beta =>
    obtain ⟨-, -, h⟩ := bind_eq_ok h
    cases h
    simp [initialises]
  | swap id1 id2 rand =>
    obtain ⟨hi, hhi, h⟩ := bind_eq_ok h
    obtain ⟨lo, hlo, h⟩ := bind_eq_ok h
    have hh := last_ne_nil hhi
    have hl := last_ne_nil hlo
    split at h
    · cases h
      rw [edit_states, edit_states]
      exact ⟨fun hs => ⟨hs.1.1, rfl⟩,
        fun hs => ⟨⟨hs.1, fun he => hh (he ▸ hs.1)⟩, fun he => hl (he ▸ hs.1)⟩⟩
    · cases h
      rw [edit_states]
      exact ⟨fun hs => ⟨hs.1, rfl⟩, fun hs => ⟨hs.1, fun he => hl (he ▸ hs.1)⟩⟩
  | flushToDisk i =>
    obtain ⟨-, -, h⟩ := bind_eq_ok h
    cases h
    simp [initialises]

theorem states_run {ops : List (Op V F)} {s' : Chains V F} (h : ops.foldlM apply s = .ok s') (id : ℕ) :
    s'.states id = [] ↔ s.states id = [] ∧ ∀ op ∈ ops, initialises id op = false := by
  induction ops generalizing s with
  | nil =>
    cases h
    simp
  | cons op ops ih =>
    rw [List.foldlM_cons] at h
    obtain ⟨s₁, h₁, h⟩ := bind_eq_ok h
    rw [ih h, states_apply h₁, List.forall_mem_cons, and_assoc]

theorem append_states {s' : Chains V F} {sample : V} {energy rand : F} {now : ℤ}
    (h : s.apply (.append id sample energy rand now) = .ok s') : ∃ state, s' = s.push id state := by
  obtain ⟨last, -, h⟩ := bind_eq_ok h
  cases h
  exact ⟨_, rfl⟩

/-- The lower of two chains that swap has its last state edited. -/
theorem swap_states {s' : Chains V F} {id1 id2 : ℕ} {rand : F}
    (h : s.apply (.swap id1 id2 rand) = .ok s') :
    ∃ state, s'.states (min id1 id2) = (s.states (min id1 id2)).dropLast ++ [state] := by
  obtain ⟨hi, -, h⟩ := bind_eq_ok h
  obtain ⟨lo, -, h⟩ := bind_eq_ok h
  split at h
  · cases h
    refine ⟨{ lo with sample := hi.sample, energy := hi.energy, accepted := hi.accepted,
                      swapType := .accept }, ?_⟩
    simp only [edit, Function.update_self]
    -- the two chains may be the same
    rcases eq_or_ne (min id1 id2) (max id1 id2) with he | hne
    · rw [← he, Function.update_self, List.dropLast_concat]
    · rw [Function.update_of_ne hne]
  · cases h
    exact ⟨{ lo with swapType := .reject }, Function.update_self ..⟩

theorem setSigma_states {s' : Chains V F} {sigma : F} (h : s.apply (.setSigma id sigma) = .ok s') :
    s'.states = s.states := by
  obtain ⟨-, -, h⟩ := bind_eq_ok h
  cases h
  rfl

theorem setBeta_states {s' : Chains V F} {beta : F} (h : s.apply (.setBeta id beta) = .ok s') :
    s'.states = s.states := by
  obtain ⟨-, -, h⟩ := bind_eq_ok h
  cases h
  rfl

/-- The two hold the same of a chain. -/
structure Same (id : ℕ) (s s' : Chains V F) : Prop where
  states : s'.states id = s.states id
  beta : s'.beta id = s.beta id
  sigma : s'.sigma id = s.sigma id

omit [Double F] in
theorem Same.trans {s' s'' : Chains V F} (h : Same id s s') (h' : Same id s' s'') : Same id s s'' :=
  ⟨h'.states.trans h.states, h'.beta.trans h.beta, h'.sigma.trans h.sigma⟩

/-- **An operation is on its chains only.** -/
theorem same_apply {s' : Chains V F} {op : Op V F} (h : s.apply op = .ok s') (hid : id ∉ ids op) :
    Same id s s' := by
  cases op with
  | initialise i sample energy sigma beta =>
    have hne : id ≠ i := List.ne_of_not_mem_cons hid
    obtain ⟨-, -, h⟩ := bind_eq_ok h
    cases h
    exact ⟨Function.update_of_ne hne _ _, Function.update_of_ne hne _ _, Function.update_of_ne hne _ _⟩
  | append i sample energy rand now =>
    obtain ⟨last, -, h⟩ := bind_eq_ok h
    cases h
    exact ⟨Function.update_of_ne (List.ne_of_not_mem_cons hid) _ _, rfl, rfl⟩
  | setSigma i sigma =>
    obtain ⟨-, -, h⟩ := bind_eq_ok h
    cases h
    exact ⟨rfl, rfl, Function.update_of_ne (List.ne_of_not_mem_cons hid) _ _⟩
  | setBeta i beta =>
    obtain ⟨-, -, h⟩ := bind_eq_ok h
    cases h
    exact ⟨rfl, Function.update_of_ne (List.ne_of_not_mem_cons hid) _ _, rfl⟩
  | swap id1 id2 rand =>
    obtain ⟨h1, h2⟩ : id ≠ max id1 id2 ∧ id ≠ min id1 id2 := by
      simp only [ids, List.mem_cons, List.not_mem_nil, or_false, not_or] at hid
      omega
    obtain ⟨hi, -, h⟩ := bind_eq_ok h
    obtain ⟨lo, -, h⟩ := bind_eq_ok h
    split at h
    · cases h
      exact ⟨(Function.update_of_ne h2 _ _).trans (Function.update_of_ne h1 _ _), rfl, rfl⟩
    · cases h
      exact ⟨Function.update_of_ne h2 _ _, rfl, rfl⟩
  | flushToDisk i =>
    obtain ⟨-, -, h⟩ := bind_eq_ok h
    cases h
    exact ⟨rfl, rfl, rfl⟩

theorem same_run {ops : List (Op V F)} {s' : Chains V F} (h : ops.foldlM apply s = .ok s')
    (hid : ∀ op ∈ ops, id ∉ ids op) : Same id s s' := by
  induction ops generalizing s with
  | nil =>
    cases h
    exact ⟨rfl, rfl, rfl⟩
  | cons op ops ih =>
    rw [List.forall_mem_cons] at hid
    rw [List.foldlM_cons] at h
    obtain ⟨s₁, h₁, h⟩ := bind_eq_ok h
    exact (same_apply h₁ hid.1).trans (ih h hid.2)

/-- No operation changes the numbers of stacks and temperatures. -/
theorem size_apply {s' : Chains V F} {op : Op V F} (h : s.apply op = .ok s') :
    s'.nstacks = s.nstacks ∧ s'.ntemps = s.ntemps := by
  cases op with
  | swap id1 id2 rand =>
    obtain ⟨hi, -, h⟩ := bind_eq_ok h
    obtain ⟨lo, -, h⟩ := bind_eq_ok h
    split at h
    · cases h
      exact ⟨rfl, rfl⟩
    · cases h
      exact ⟨rfl, rfl⟩
  | append id sample energy rand now =>
    obtain ⟨last, -, h⟩ := bind_eq_ok h
    cases h
    exact ⟨rfl, rfl⟩
  | initialise | setSigma | setBeta | flushToDisk =>
    obtain ⟨-, -, h⟩ := bind_eq_ok h
    cases h
    exact ⟨rfl, rfl⟩

theorem size_run {ops : List (Op V F)} {s' : Chains V F} (h : ops.foldlM apply s = .ok s') :
    s'.nstacks = s.nstacks ∧ s'.ntemps = s.ntemps := by
  refine Lib.foldlM_keeps (P := fun s' => s'.nstacks = s.nstacks ∧ s'.ntemps = s.ntemps) ?_ h ⟨rfl, rfl⟩
  intro s₁ op s₂ h₂ ⟨h₃, h₄⟩
  obtain ⟨h₅, h₆⟩ := size_apply h₂
  exact ⟨h₅.trans h₃, h₆.trans h₄⟩

end Chains

end Stateline
