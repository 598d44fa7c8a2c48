import Mathlib

/-!
# Scatter and gather

An abstract ledger of requests that are answered in parts. A request is numbered
by its place in `asked`; its parts are answered one at a time, in any order, each
at most once; with the answer of the last part its reply is recorded, made of the
answers in the order of the parts.

* `Gather.sound`: in every reachable ledger a request has at most one reply, and
  it has one exactly when all its parts are answered.
-/

namespace Stateline.Lib

/-- Requests, the answers to their parts, and the replies with the numbers of their requests. -/
structure Gather (Q A R : Type*) where
  asked : List Q
  answers : ℕ → ℕ → Option A
  replies : List (ℕ × R)

namespace Gather

variable {Q A R : Type*}

/-- Nothing asked yet. -/
def empty : Gather Q A R := ⟨[], fun _ _ => none, []⟩

/-- The answers with part `i` of request `k` answered by `a`. -/
def record (answers : ℕ → ℕ → Option A) (k i : ℕ) (a : A) : ℕ → ℕ → Option A :=
  fun k' i' => if k' = k ∧ i' = i then some a else answers k' i'

/-- All `n` parts of request `k` are answered. -/
def Complete (answers : ℕ → ℕ → Option A) (k n : ℕ) : Prop := ∀ i < n, (answers k i).isSome

/-- The answers to the first `n` parts of request `k`, in order. -/
def collect (answers : ℕ → ℕ → Option A) (k n : ℕ) : List A := (List.range n).filterMap (answers k)

variable {answers : ℕ → ℕ → Option A} {k k' i i' n : ℕ} {a : A}

@[simp] theorem record_self : record answers k i a k i = some a := by simp [record]

theorem record_of_ne (h : k' ≠ k) : record answers k i a k' i' = answers k' i' := by simp [record, h]

theorem record_of_ne_part (h : i' ≠ i) : record answers k i a k i' = answers k i' := by simp [record, h]

theorem complete_record_of_ne (h : k' ≠ k) :
    Complete (record answers k i a) k' n ↔ Complete answers k' n := by
  simp only [Complete, record_of_ne h]

theorem collect_record_of_ne (h : k' ≠ k) :
    collect (record answers k i a) k' n = collect answers k' n := by
  have : record answers k i a k' = answers k' := funext fun i' => record_of_ne h
  rw [collect, this, collect]

theorem collect_succ (h : answers k n = some a) :
    collect answers k (n + 1) = collect answers k n ++ [a] := by
  simp [collect, List.range_succ, List.filterMap_append, h]

theorem length_collect (h : Complete answers k n) : (collect answers k n).length = n := by
  induction n with
  | zero => rfl
  | succ n ih =>
    obtain ⟨a, ha⟩ := Option.isSome_iff_exists.1 (h n (by omega))
    rw [collect_succ ha, List.length_append, ih fun j hj => h j (by omega), List.length_singleton]

/-- The part at a place of a complete collection. -/
theorem getElem?_collect (h : Complete answers k n) (hi : i < n) :
    (collect answers k n)[i]? = answers k i := by
  induction n with
  | zero => omega
  | succ n ih =>
    have hn : Complete answers k n := fun j hj => h j (by omega)
    obtain ⟨a, ha⟩ := Option.isSome_iff_exists.1 (h n (by omega))
    rw [collect_succ ha]
    rcases Nat.lt_succ_iff_lt_or_eq.1 hi with hlt | rfl
    · rw [List.getElem?_append_left (by rw [length_collect hn]; exact hlt), ih hn hlt]
    · rw [List.getElem?_append_right (by rw [length_collect hn]), length_collect hn, ha]; simp

variable (size : Q → ℕ) (reply : Q → List A → R)

/-- The steps of a ledger. -/
inductive Step : Gather Q A R → Gather Q A R → Prop
  /-- A request with at least one part. -/
  | ask {g : Gather Q A R} {q : Q} : 0 < size q → Step g { g with asked := g.asked ++ [q] }
  /-- An answer that is not the last one. -/
  | answer {g : Gather Q A R} {q : Q} {k i : ℕ} {a : A} : g.asked[k]? = some q → i < size q →
      g.answers k i = none → ¬ Complete (record g.answers k i a) k (size q) →
      Step g { g with answers := record g.answers k i a }
  /-- The last answer, with the reply. -/
  | finish {g : Gather Q A R} {q : Q} {k i : ℕ} {a : A} : g.asked[k]? = some q → i < size q →
      g.answers k i = none → Complete (record g.answers k i a) k (size q) →
      Step g { g with
        answers := record g.answers k i a
        replies := g.replies ++ [(k, reply q (collect (record g.answers k i a) k (size q)))] }

/-- What is true of a ledger at any time. -/
structure Sound (g : Gather Q A R) : Prop where
  unasked : ∀ k, g.asked.length ≤ k → ∀ i, g.answers k i = none
  nodup : (g.replies.map Prod.fst).Nodup
  replied : ∀ p ∈ g.replies, ∃ q, g.asked[p.1]? = some q ∧ Complete g.answers p.1 (size q) ∧
    p.2 = reply q (collect g.answers p.1 (size q))
  complete : ∀ k q, g.asked[k]? = some q → Complete g.answers k (size q) → k ∈ g.replies.map Prod.fst

variable {size reply} {g g' : Gather Q A R}

theorem Sound.empty : Sound size reply (.empty : Gather Q A R) where
  unasked _ _ _ := rfl
  nodup := by simp [Gather.empty]
  replied p hp := by simp [Gather.empty] at hp
  complete k q hq := by simp [Gather.empty] at hq

/-- A request with an open part has no reply. -/
theorem Sound.not_replied (hg : Sound size reply g) {q : Q} (hq : g.asked[k]? = some q)
    (hi : i < size q) (hn : g.answers k i = none) : k ∉ g.replies.map Prod.fst := by
  intro hmem
  obtain ⟨p, hp, rfl⟩ := List.mem_map.1 hmem
  obtain ⟨q', hq', hc, -⟩ := hg.replied p hp
  rw [hq] at hq'; injection hq' with hq'; subst hq'
  have := hc i hi
  rw [hn] at this; simp at this

theorem Sound.step (hg : Sound size reply g) (hs : Step size reply g g') : Sound size reply g' := by
  cases hs with
  | @ask q hq =>
    refine ⟨fun k hk i => hg.unasked k ?_ i, hg.nodup, ?_, ?_⟩
    · simp only [List.length_append, List.length_singleton] at hk; omega
    · intro p hp
      obtain ⟨q', h1, h2⟩ := hg.replied p hp
      exact ⟨q', by rw [List.getElem?_append_left (List.getElem?_eq_some_iff.1 h1).1, h1], h2⟩
    · intro k q' hq' hc
      rw [List.getElem?_append] at hq'
      split at hq'
      · exact hg.complete k q' hq' hc
      · -- the new request has an open part
        rename_i hk
        obtain ⟨-, rfl⟩ : k - g.asked.length = 0 ∧ q = q' := by
          simpa [List.getElem?_singleton] using hq'
        have := hc 0 hq
        rw [hg.unasked k (by omega)] at this; simp at this
  | @answer q k i a hq hi hn hc =>
    have hk := (List.getElem?_eq_some_iff.1 hq).1
    refine ⟨?_, hg.nodup, ?_, ?_⟩
    · intro k' hk' i'
      exact (record_of_ne (by simp only at hk'; omega)).trans (hg.unasked k' hk' i')
    · intro p hp
      -- a request with an open part was not replied to
      have hne : p.1 ≠ k := fun h => hg.not_replied hq hi hn (h ▸ List.mem_map_of_mem hp)
      obtain ⟨q', h1, h2, h3⟩ := hg.replied p hp
      exact ⟨q', h1, (complete_record_of_ne hne).2 h2, by rw [collect_record_of_ne hne]; exact h3⟩
    · intro k' q' hq' hc'
      rcases eq_or_ne k' k with rfl | hne
      · rw [hq] at hq'; injection hq' with hq'; subst hq'; exact absurd hc' hc
      · exact hg.complete k' q' hq' ((complete_record_of_ne hne).1 hc')
  | @finish q k i a hq hi hn hc =>
    have hk := (List.getElem?_eq_some_iff.1 hq).1
    have hnot := hg.not_replied hq hi hn
    refine ⟨?_, ?_, ?_, ?_⟩
    · intro k' hk' i'
      exact (record_of_ne (by simp only at hk'; omega)).trans (hg.unasked k' hk' i')
    · rw [List.map_append, List.map_cons, List.map_nil, List.nodup_append]
      refine ⟨hg.nodup, by simp, ?_⟩
      rintro x hx y hy rfl
      -- this reply is the first to its request
      obtain rfl : x = k := List.mem_singleton.1 hy
      exact hnot hx
    · intro p hp
      rcases List.mem_append.1 hp with hp | hp
      · have hne : p.1 ≠ k := fun h => hnot (h ▸ List.mem_map_of_mem hp)
        obtain ⟨q', h1, h2, h3⟩ := hg.replied p hp
        exact ⟨q', h1, (complete_record_of_ne hne).2 h2, by rw [collect_record_of_ne hne]; exact h3⟩
      · rw [List.mem_singleton] at hp; subst hp
        exact ⟨q, hq, hc, rfl⟩
    · intro k' q' hq' hc'
      rw [List.map_append, List.mem_append]
      rcases eq_or_ne k' k with rfl | hne
      · exact .inr (by simp)
      · exact .inl (hg.complete k' q' hq' ((complete_record_of_ne hne).1 hc'))

/-- **Exactly one reply**: every reachable ledger is sound. -/
theorem sound (h : Relation.ReflTransGen (Step size reply) .empty g) : Sound size reply g := by
  induction h with
  | refl => exact .empty
  | tail _ hs ih => exact ih.step hs

end Gather

end Stateline.Lib
