import Mathlib

/-!
# Searching for the least element

A scan of a list for an element of least value among those that qualify. It
starts from a sentinel and replaces the best element so far by a strictly better
one, so that the first of several least elements is found, and none when no value
is below the sentinel.

* `scan_cases`: what the scan finds.
-/

namespace Stateline.Lib

variable {α β : Type*} [LinearOrder β] (p : α → Prop) (f : α → β)

/-- One element of the scan, with the best one so far and its value. -/
def closer [DecidablePred p] (best : Option α × β) (a : α) : Option α × β :=
  if p a ∧ f a < best.2 then (some a, f a) else best

/-- The first least of the elements of a list that qualify, with a value below the sentinel. -/
structure FirstLeast (l : List α) (a : α) : Prop where
  qualifies : p a
  split : ∃ l₁ l₂, l = l₁ ++ a :: l₂ ∧ (∀ b ∈ l₁, p b → f a < f b) ∧ ∀ b ∈ l₂, p b → f a ≤ f b

variable {p f} {l : List α} {a b : α}

theorem FirstLeast.mem (h : FirstLeast p f l a) : a ∈ l := by
  obtain ⟨l₁, l₂, rfl, -, -⟩ := h.split
  simp

theorem FirstLeast.le (h : FirstLeast p f l a) (hb : b ∈ l) (hp : p b) : f a ≤ f b := by
  obtain ⟨l₁, l₂, rfl, h₁, h₂⟩ := h.split
  rcases List.mem_append.1 hb with hb | hb
  · exact (h₁ b hb hp).le
  · rcases List.mem_cons.1 hb with rfl | hb
    · exact le_rfl
    · exact h₂ b hb hp

/-- **What the scan finds**: nothing, if no value is below the sentinel, or the first least element. -/
theorem scan_cases (p : α → Prop) [DecidablePred p] (f : α → β) (l : List α) (m : β) :
    (l.foldl (closer p f) (none, m) = (none, m) ∧ ∀ b ∈ l, p b → m ≤ f b) ∨
      ∃ a, l.foldl (closer p f) (none, m) = (some a, f a) ∧ f a < m ∧ FirstLeast p f l a := by
  induction l using List.reverseRecOn with
  | nil => exact .inl ⟨rfl, List.forall_mem_nil _⟩
  | append_singleton l b ih =>
    rw [List.foldl_append, List.foldl_cons, List.foldl_nil]
    rcases ih with ⟨hfold, hall⟩ | ⟨a, hfold, hlt, hp, l₁, l₂, rfl, h₁, h₂⟩
    · rw [hfold]
      by_cases hb : p b ∧ f b < m
      · -- the first element below the sentinel
        refine .inr ⟨b, if_pos hb, hb.2, hb.1, l, [], rfl, ?_, List.forall_mem_nil _⟩
        intro c hc hpc
        exact hb.2.trans_le (hall c hc hpc)
      · refine .inl ⟨if_neg hb, ?_⟩
        intro c hc hpc
        rcases List.mem_append.1 hc with hc | hc
        · exact hall c hc hpc
        · obtain rfl := List.mem_singleton.1 hc
          exact not_lt.1 fun hlt => hb ⟨hpc, hlt⟩
    · rw [hfold]
      by_cases hb : p b ∧ f b < f a
      · -- a better element, and the last one
        refine .inr ⟨b, if_pos hb, hb.2.trans hlt, hb.1, l₁ ++ a :: l₂, [], rfl, ?_,
          List.forall_mem_nil _⟩
        intro c hc hpc
        have hle : f a ≤ f c := FirstLeast.le ⟨hp, l₁, l₂, rfl, h₁, h₂⟩ hc hpc
        exact hb.2.trans_le hle
      · refine .inr ⟨a, if_neg hb, hlt, hp, l₁, l₂ ++ [b], by simp, h₁, ?_⟩
        intro c hc hpc
        rcases List.mem_append.1 hc with hc | hc
        · exact h₂ c hc hpc
        · obtain rfl := List.mem_singleton.1 hc
          exact not_lt.1 fun hlt => hb ⟨hpc, hlt⟩

/-- There is only one first least element. -/
theorem FirstLeast.unique (ha : FirstLeast p f l a) (hb : FirstLeast p f l b) : a = b := by
  have hab : f a = f b := le_antisymm (ha.le hb.mem hb.qualifies) (hb.le ha.mem ha.qualifies)
  obtain ⟨l₁, l₂, rfl, h₁, -⟩ := ha.split
  obtain ⟨r₁, r₂, he, h₂, -⟩ := hb.split
  -- neither is in front of the other
  rcases List.append_eq_append_iff.1 he with ⟨t, rfl, ht⟩ | ⟨t, rfl, ht⟩
  · cases t with
    | nil =>
      rw [List.nil_append] at ht
      injection ht
    | cons c t =>
      injection ht with hc ht
      subst hc
      exact absurd (h₂ a (by simp) ha.qualifies) (not_lt.2 hab.le)
  · cases t with
    | nil =>
      rw [List.nil_append] at ht
      injection ht with hc ht
      exact hc.symm
    | cons c t =>
      injection ht with hc ht
      subst hc
      exact absurd (h₁ b (by simp) hb.qualifies) (not_lt.2 hab.ge)

/-- Some element is the first least one, if any qualifies. -/
theorem FirstLeast.exists [NoMaxOrder β] (hb : ∃ b ∈ l, p b) : ∃ a, FirstLeast p f l a := by
  classical
  obtain ⟨b, hb, hp⟩ := hb
  obtain ⟨m, hm⟩ := exists_gt (f b)
  rcases scan_cases p f l m with ⟨-, hall⟩ | ⟨a, -, -, ha⟩
  · exact absurd (hall b hb hp) (not_le.2 hm)
  · exact ⟨a, ha⟩

end Stateline.Lib
