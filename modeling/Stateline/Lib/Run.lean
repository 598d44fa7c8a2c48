import Mathlib

/-!
# Runs of a fallible step function

`Reach step ok s₀ es s`: the run over the events `es` from `s₀` ends in `s`, no
step failed, and every event was admissible (`ok`) in the state it met. An
invariant is proved once, over the last step (`Reach.invariant`), and a
simulation of an abstract relation step by step (`Reach.simulates`). Runs whose steps all
make a measure smaller are bounded (`Reach.length_le`) and can be driven to their end
(`Reach.exists_end`). `foldlM_ok`
is the rule for a loop whose body does not fail, `foldlM_keeps` and `foldlM_mem` those for a
loop that returned, `foldlM_sim` the one for two runs in step, `foldl_finRange` the one for
a loop with a counter, `foldl_add` and `foldl_add_mod` those for a loop that adds up,
`foldlM_update_eq_ok` the one for a loop that computes entries.
-/

namespace Stateline.Lib

variable {σ ε α : Type*}

/-- The runs of `step` from `s₀` whose events are all admissible. -/
inductive Reach (step : σ → ε → Option σ) (ok : σ → ε → Prop) (s₀ : σ) : List ε → σ → Prop
  | start : Reach step ok s₀ [] s₀
  | next {es : List ε} {s s' : σ} {e : ε} : Reach step ok s₀ es s → ok s e → step s e = some s' →
      Reach step ok s₀ (es ++ [e]) s'

variable {step : σ → ε → Option σ} {ok ok' : σ → ε → Prop} {s₀ s s' : σ} {es : List ε}

/-- A run goes on with the next state, where there is one. -/
theorem Reach.next' {e : ε} (h : Reach step ok s₀ es s) (hok : ok s e) (hs : (step s e).isSome) :
    Reach step ok s₀ (es ++ [e]) ((step s e).get hs) :=
  .next h hok (Option.some_get hs).symm

/-- **Invariants.** What holds at the start and is kept by every admissible
step of a run holds at the end of it. -/
theorem Reach.invariant {P : List ε → σ → Prop} (h : Reach step ok s₀ es s) (h0 : P [] s₀)
    (hstep : ∀ es s e s', Reach step ok s₀ es s → P es s → ok s e → step s e = some s' →
      P (es ++ [e]) s') : P es s := by
  induction h with
  | start => exact h0
  | next hr hok hs ih => exact hstep _ _ _ _ hr ih hok hs

/-- A run stays a run under a weaker admissibility. -/
theorem Reach.mono (h : Reach step ok s₀ es s) (hok : ∀ s e, ok s e → ok' s e) :
    Reach step ok' s₀ es s := by
  induction h with
  | start => exact .start
  | next _ ho hs ih => exact .next ih (hok _ _ ho) hs

/-- **Bounded runs.** A bound on a quantity that never decreases, at the end of a run, holds at
every step of it. -/
theorem Reach.bounded {μ : σ → ℕ} {B : ℕ} (h : Reach step ok s₀ es s)
    (hmono : ∀ s e s', step s e = some s' → μ s ≤ μ s') (hB : μ s < B) :
    Reach step (fun s e => ok s e ∧ ∀ s', step s e = some s' → μ s' < B) s₀ es s := by
  induction h with
  | start => exact .start
  | next _ ho hs ih =>
    refine .next (ih ((hmono _ _ _ hs).trans_lt hB)) ⟨ho, ?_⟩ hs
    intro s' hs'
    rw [hs] at hs'; injection hs' with hs'; exact hs' ▸ hB

/-- **Bounded runs.** Where every step keeps `P` and makes `μ` smaller, a run has at most as many
steps as `μ` was. -/
theorem Reach.length_le {P : σ → Prop} {μ : σ → ℕ} (h : Reach step ok s₀ es s) (h0 : P s₀)
    (hstep : ∀ s e s', P s → ok s e → step s e = some s' → P s' ∧ μ s' < μ s) :
    P s ∧ es.length + μ s ≤ μ s₀ := by
  induction h with
  | start => exact ⟨h0, by simp⟩
  | next _ ho hs ih =>
    obtain ⟨hp, hlt⟩ := hstep _ _ _ ih.1 ho hs
    refine ⟨hp, ?_⟩
    rw [List.length_append, List.length_singleton]
    omega

/-- **Runs that end.** Then some run ends where no admissible step is possible. -/
theorem Reach.exists_end {P : σ → Prop} {μ : σ → ℕ} (h0 : P s₀)
    (hstep : ∀ s e s', P s → ok s e → step s e = some s' → P s' ∧ μ s' < μ s) :
    ∃ es s, Reach step ok s₀ es s ∧ ∀ e, ok s e → step s e = none := by
  -- the state of least measure among those that are reached
  obtain ⟨s, ⟨es, hs⟩, hmin⟩ := (measure μ).wf.has_min {s | ∃ es, Reach step ok s₀ es s} ⟨s₀, [], .start⟩
  refine ⟨es, s, hs, ?_⟩
  intro e he
  rw [Option.eq_none_iff_forall_ne_some]
  intro s' hs'
  exact hmin s' ⟨_, hs.next he hs'⟩ (hstep s e s' (hs.length_le h0 hstep).1 he hs').2

/-- **Simulation.** If every step of the run is matched by at most one abstract
step, the abstraction of the run is an abstract run. -/
theorem Reach.simulates {astep : α → α → Prop} (h : Reach step ok s₀ es s) (abs : σ → α)
    (hsim : ∀ es s e s', Reach step ok s₀ es s → ok s e → step s e = some s' →
      abs s' = abs s ∨ astep (abs s) (abs s')) :
    Relation.ReflTransGen astep (abs s₀) (abs s) := by
  induction h with
  | start => exact .refl
  | next hr ho hs ih =>
    rcases hsim _ _ _ _ hr ho hs with he | hst
    · rw [he]; exact ih
    · exact ih.tail hst

/-- **A loop that cannot fail.** If under `P` the body succeeds on every element and
keeps `P`, so does the loop. -/
theorem foldlM_ok {E α β : Type*} {f : β → α → Except E β} {P : β → Prop} {l : List α}
    (hf : ∀ b, P b → ∀ a ∈ l, ∃ b', f b a = .ok b' ∧ P b') {b : β} (hb : P b) :
    ∃ b', l.foldlM f b = .ok b' ∧ P b' := by
  induction l generalizing b with
  | nil => exact ⟨b, rfl, hb⟩
  | cons a l ih =>
    obtain ⟨b', h1, h2⟩ := hf b hb a List.mem_cons_self
    obtain ⟨b'', h3, h4⟩ := ih (fun b hb x hx => hf b hb x (List.mem_cons_of_mem _ hx)) h2
    exact ⟨b'', by rw [List.foldlM_cons, h1]; exact h3, h4⟩

/-- **A loop that returns** keeps what every round that returns keeps. -/
theorem foldlM_keeps {E α β : Type*} {f : β → α → Except E β} {P : β → Prop}
    (hf : ∀ b a b', f b a = .ok b' → P b → P b') {l : List α} {b b' : β}
    (h : l.foldlM f b = .ok b') (hb : P b) :
    P b' := by
  induction l generalizing b with
  | nil => cases h; exact hb
  | cons a l ih =>
    rw [List.foldlM_cons] at h
    cases hc : f b a with
    | error e => rw [hc] at h; cases h
    | ok c => rw [hc] at h; exact ih h (hf b a c hc hb)

/-- Of a loop that returns, every round returned. -/
theorem foldlM_mem {E α β : Type*} {f : β → α → Except E β} {l : List α} {b b' : β}
    (h : l.foldlM f b = .ok b') {a : α} (ha : a ∈ l) : ∃ b₁ b₂, f b₁ a = .ok b₂ := by
  induction l generalizing b with
  | nil => cases ha
  | cons x l ih =>
    rw [List.foldlM_cons] at h
    cases hc : f b x with
    | error e => rw [hc] at h; cases h
    | ok c =>
      rw [hc] at h
      rcases List.mem_cons.1 ha with rfl | ha
      · exact ⟨b, c, hc⟩
      · exact ih h ha

/-- **A loop that computes entries**, one in each round: it returns when each of them is computed. -/
theorem foldlM_update_eq_ok {E ι β : Type} [DecidableEq ι] {f : ι → Except E β} {l : List ι}
    (hnd : l.Nodup) {v r : ι → β} :
      l.foldlM (fun w i => do return Function.update w i (← f i)) v = .ok r ↔
      (∀ i ∈ l, f i = .ok (r i)) ∧ ∀ i, i ∉ l → r i = v i := by
  induction l generalizing v with
  | nil =>
    simp only [List.foldlM_nil, List.not_mem_nil, false_implies, implies_true, not_false_eq_true,
      true_and, forall_const]
    constructor
    · rintro h
      cases h
      exact fun _ => rfl
    · intro h
      rw [funext h]
      rfl
  | cons i l ih =>
    obtain ⟨hi, hnd⟩ := List.nodup_cons.1 hnd
    rw [List.foldlM_cons, List.forall_mem_cons]
    cases hf : f i with
    | error e => exact iff_of_false (fun h => by cases h) fun h => by cases h.1.1
    | ok b =>
      refine (ih hnd).trans ?_
      constructor
      · rintro ⟨hl, hrest⟩
        refine ⟨⟨?_, hl⟩, ?_⟩
        · rw [hrest i hi, Function.update_self]
        · intro j hj
          obtain ⟨hji, hjl⟩ := not_or.1 (fun h => hj (List.mem_cons.2 h))
          rw [hrest j hjl, Function.update_of_ne hji]
      · rintro ⟨⟨hb, hl⟩, hrest⟩
        refine ⟨hl, ?_⟩
        intro j hj
        by_cases hji : j = i
        · subst hji
          injection hb with hb
          rw [Function.update_self, hb]
        · rw [Function.update_of_ne hji]
          exact hrest j fun h => (List.mem_cons.1 h).elim hji hj

/-- **A loop with a counter.** What holds at `0` and goes from `k` to `k + 1` in the round for
`k` holds at the end. -/
theorem foldl_finRange {β : Type*} {d : ℕ} {f : β → Fin d → β} {P : ℕ → β → Prop}
    (hf : ∀ b (k : Fin d), P k b → P (k + 1) (f b k)) {b : β} (hb : P 0 b) :
      P d ((List.finRange d).foldl f b) := by
  induction d with
  | zero => simpa using hb
  | succ d ih =>
    rw [List.finRange_succ_last, List.foldl_append, List.foldl_map]
    exact hf _ (Fin.last d) (ih (f := fun b k => f b k.castSucc) fun b k h => hf b k.castSucc h)

/-- **A loop that adds up.** -/
theorem foldl_add {M ι : Type*} [AddMonoid M] (f : ι → M) (l : List ι) (a : M) :
    l.foldl (fun acc i => acc + f i) a = a + (l.map f).sum := by
  induction l generalizing a with
  | nil => exact (add_zero a).symm
  | cons i l ih => rw [List.foldl_cons, ih, List.map_cons, List.sum_cons, add_assoc]

/-- A sum that is reduced in each round. -/
theorem foldl_add_mod (l : List ℕ) (m acc : ℕ) :
    l.foldl (fun t x => (t + x) % m) (acc % m) = (acc + l.sum) % m := by
  induction l generalizing acc with
  | nil => simp
  | cons x l ih => rw [List.foldl_cons, Nat.mod_add_mod, ih, List.sum_cons, Nat.add_assoc]

theorem foldl_finRange_add {M : Type*} [AddCommMonoid M] {d : ℕ} (f : Fin d → M) (a : M) :
    (List.finRange d).foldl (fun acc i => acc + f i) a = a + ∑ i, f i := by
  rw [foldl_add, Fin.sum_univ_def]

/-- Two computations that fail together, or end in related results. -/
def Sim {E α β : Type*} (R : α → β → Prop) : Except E α → Except E β → Prop
  | .ok a, .ok b => R a b
  | .error _, .error _ => True
  | _, _ => False

theorem Sim.mono {E α β : Type*} {R S : α → β → Prop} {x : Except E α} {y : Except E β} (h : Sim R x y)
    (hRS : ∀ a b, R a b → S a b) : Sim S x y := by
  cases x with
  | error e =>
    cases y with
    | error e' => trivial
    | ok b => exact h.elim
  | ok a =>
    cases y with
    | error e' => exact h.elim
    | ok b => exact hRS a b h

theorem Sim.bind {E α β α' β' : Type} {R : α → β → Prop} {S : α' → β' → Prop} {x : Except E α}
    {y : Except E β} {f : α → Except E α'} {g : β → Except E β'} (h : Sim R x y)
    (hfg : ∀ a b, R a b → Sim S (f a) (g b)) :
    Sim S (x >>= f) (y >>= g) := by
  cases x with
  | error e =>
    cases y with
    | error e' => trivial
    | ok b => exact h.elim
  | ok a =>
    cases y with
    | error e' => exact h.elim
    | ok b => exact hfg a b h

/-- **Two runs in step.** If every operation keeps a relation between two states, or fails on
both, so does every sequence of operations. -/
theorem foldlM_sim {E α β γ : Type*} {R : α → β → Prop} {f : α → γ → Except E α}
    {g : β → γ → Except E β} (hfg : ∀ a b x, R a b → Sim R (f a x) (g b x)) (l : List γ) {a : α}
    {b : β} (h : R a b) :
    Sim R (l.foldlM f a) (l.foldlM g b) := by
  induction l generalizing a b with
  | nil => exact h
  | cons x l ih =>
    have hx := hfg a b x h
    rw [List.foldlM_cons, List.foldlM_cons]
    cases hf : f a x with
    | error e =>
      cases hg : g b x with
      | error e' => trivial
      | ok b' => rw [hf, hg] at hx; exact hx.elim
    | ok a' =>
      cases hg : g b x with
      | error e' => rw [hf, hg] at hx; exact hx.elim
      | ok b' => rw [hf, hg] at hx; exact ih hx

end Stateline.Lib
