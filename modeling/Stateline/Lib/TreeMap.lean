import Mathlib

/-!
# Ordered maps and sets

Facts about `Std.ExtTreeMap` read as a multiset of entries: what an insertion
and an erasure do to the list of values (`vals`), to a sum over all values
(`total`), and how a property of all entries is kept (`All`). `subscript` is the
lookup that creates a default entry when the key is absent. Last, the size of an
`ExtTreeSet` filled from a list.
-/

namespace Stateline.Lib

open Std

variable {α β : Type*} {cmp : α → α → Ordering} [TransCmp cmp]

/-- The values of a map, in key order. -/
def vals (m : ExtTreeMap α β cmp) : List β := m.toList.map Prod.snd

/-- The lookup that inserts a default value under an absent key. -/
def subscript [Inhabited β] (m : ExtTreeMap α β cmp) (k : α) : β × ExtTreeMap α β cmp :=
  match m[k]? with
  | some v => (v, m)
  | none => (default, m.insert k default)

/-- Every entry of the map satisfies `P`. -/
def All (P : α → β → Prop) (m : ExtTreeMap α β cmp) : Prop := ∀ k v, m[k]? = some v → P k v

theorem subscript_of_some [Inhabited β] {m : ExtTreeMap α β cmp} {k : α} {v : β} (h : m[k]? = some v) :
    subscript m k = (v, m) := by
  simp [subscript, h]

theorem subscript_of_none [Inhabited β] {m : ExtTreeMap α β cmp} {k : α} (h : m[k]? = none) :
    subscript m k = (default, m.insert k default) := by
  simp [subscript, h]

/-- What the lookup reads. -/
theorem subscript_fst [Inhabited β] (m : ExtTreeMap α β cmp) (k : α) :
    (subscript m k).1 = m[k]?.getD default := by
  cases h : m[k]? with
  | none => rw [subscript_of_none h]; rfl
  | some v => rw [subscript_of_some h]; rfl

theorem mem_iff_getElem? {m : ExtTreeMap α β cmp} {k : α} : k ∈ m ↔ ∃ v, m[k]? = some v := by
  rw [ExtTreeMap.mem_iff_isSome_getElem?, Option.isSome_iff_exists]

@[simp] theorem vals_empty : vals (∅ : ExtTreeMap α β cmp) = [] := by simp [vals]

theorem length_vals (m : ExtTreeMap α β cmp) : (vals m).length = m.size := by
  rw [vals, List.length_map, ExtTreeMap.length_toList]

theorem All.empty {P : α → β → Prop} : All P (∅ : ExtTreeMap α β cmp) := fun k v h => by simp at h

variable [LawfulEqCmp cmp]

theorem getElem?_insert_eq [DecidableEq α] (m : ExtTreeMap α β cmp) (k a : α) (v : β) :
    (m.insert k v)[a]? = if k = a then some v else m[a]? := by
  rw [ExtTreeMap.getElem?_insert]; simp only [LawfulEqCmp.compare_eq_iff_eq]

theorem getElem?_erase_eq [DecidableEq α] (m : ExtTreeMap α β cmp) (k a : α) :
    (m.erase k)[a]? = if k = a then none else m[a]? := by
  rw [ExtTreeMap.getElem?_erase]; simp only [LawfulEqCmp.compare_eq_iff_eq]

/-- The lookup does not change what later lookups read. -/
theorem getD_subscript [DecidableEq α] [Inhabited β] (m : ExtTreeMap α β cmp) (k a : α) :
    (subscript m k).2[a]?.getD default = m[a]?.getD default := by
  cases h : m[k]? with
  | some v => rw [subscript_of_some h]
  | none =>
    rw [subscript_of_none h, getElem?_insert_eq]
    split
    · rename_i hka
      rw [← hka, h]
      rfl
    · rfl

/-- The keys, when an entry is replaced. -/
theorem mem_insert_of_mem {m : ExtTreeMap α β cmp} {k a : α} {v : β} (h : k ∈ m) :
    a ∈ m.insert k v ↔ a ∈ m := by
  rw [ExtTreeMap.mem_insert, LawfulEqCmp.compare_eq_iff_eq]
  refine ⟨?_, .inr⟩
  rintro (rfl | ha)
  · exact h
  · exact ha

theorem insertIfNew_of_not_mem {m : ExtTreeMap α β cmp} {k : α} {v : β} (h : k ∉ m) :
    m.insertIfNew k v = m.insert k v := by
  classical
  apply ExtTreeMap.ext_getElem?
  intro a
  rw [getElem?_insert_eq, ExtTreeMap.getElem?_insertIfNew]
  simp only [LawfulEqCmp.compare_eq_iff_eq]
  by_cases ha : k = a
  · subst ha; simp [h]
  · simp [ha]

theorem nodup_toList (m : ExtTreeMap α β cmp) : m.toList.Nodup :=
  (ExtTreeMap.distinct_keys_toList (t := m)).imp fun h he => h (by rw [he]; exact ReflCmp.compare_self)

theorem mem_vals {m : ExtTreeMap α β cmp} {v : β} : v ∈ vals m ↔ ∃ k : α, m[k]? = some v := by
  simp [vals, ExtTreeMap.mem_toList_iff_getElem?_eq_some]

/-- **An insertion replaces the entry under its key.** -/
theorem toList_insert_perm (m : ExtTreeMap α β cmp) (k : α) (v : β) :
    (m.insert k v).toList.Perm ((k, v) :: (m.erase k).toList) := by
  classical
  rw [List.perm_ext_iff_of_nodup (nodup_toList _)]
  · rintro ⟨a, b⟩
    simp only [List.mem_cons, ExtTreeMap.mem_toList_iff_getElem?_eq_some, getElem?_insert_eq,
      getElem?_erase_eq, Prod.mk.injEq]
    by_cases ha : k = a
    · subst ha; simp [eq_comm]
    · simp [ha, Ne.symm ha]
  · refine List.nodup_cons.2 ⟨?_, nodup_toList _⟩
    simp [ExtTreeMap.mem_toList_iff_getElem?_eq_some]

theorem insert_eq_self {m : ExtTreeMap α β cmp} {k : α} {v : β} (h : m[k]? = some v) :
    m.insert k v = m := by
  classical
  apply ExtTreeMap.ext_getElem?
  intro a
  rw [getElem?_insert_eq]
  by_cases ha : k = a
  · subst ha; simp [h]
  · simp [ha]

theorem erase_eq_self {m : ExtTreeMap α β cmp} {k : α} (h : k ∉ m) : m.erase k = m := by
  classical
  apply ExtTreeMap.ext_getElem?
  intro a
  rw [getElem?_erase_eq]
  by_cases ha : k = a
  · subst ha; simp [h]
  · simp [ha]

theorem vals_insert_perm (m : ExtTreeMap α β cmp) (k : α) (v : β) :
    (vals (m.insert k v)).Perm (v :: vals (m.erase k)) :=
  (toList_insert_perm m k v).map Prod.snd

/-- An entry of the map, and the rest of it. -/
theorem vals_perm_cons {m : ExtTreeMap α β cmp} {k : α} {v : β} (h : m[k]? = some v) :
    (vals m).Perm (v :: vals (m.erase k)) := by
  have := vals_insert_perm m k v
  rwa [insert_eq_self h] at this

theorem vals_insert_new {m : ExtTreeMap α β cmp} {k : α} (v : β) (h : k ∉ m) :
    (vals (m.insert k v)).Perm (v :: vals m) := by
  have := vals_insert_perm m k v
  rwa [erase_eq_self h] at this

theorem All.insert {P : α → β → Prop} {m : ExtTreeMap α β cmp} {k : α} {v : β} (h : All P m)
    (hv : P k v) : All P (m.insert k v) := by
  classical
  intro a b hab
  rw [getElem?_insert_eq] at hab
  split at hab
  · rename_i hka; subst hka; injection hab with hab; subst hab; exact hv
  · exact h a b hab

theorem All.erase {P : α → β → Prop} {m : ExtTreeMap α β cmp} {k : α} (h : All P m) :
    All P (m.erase k) := by
  classical
  intro a b hab
  rw [getElem?_erase_eq] at hab
  split at hab
  · simp at hab
  · exact h a b hab

/-! ## Sums over a map -/

section Total

variable {M : Type*} [AddCommMonoid M] (f : β → M) {m : ExtTreeMap α β cmp} {k : α} {v w : β}

/-- The sum of `f` over the values of a map. -/
def total (m : ExtTreeMap α β cmp) : M := ((vals m).map f).sum

omit [LawfulEqCmp cmp] in
@[simp] theorem total_empty : total f (∅ : ExtTreeMap α β cmp) = 0 := by simp [total]

/-- An entry, and the sum over the rest of the map. -/
theorem total_erase (h : m[k]? = some v) : total f m = f v + total f (m.erase k) := by
  unfold total; rw [((vals_perm_cons h).map f).sum_eq, List.map_cons, List.sum_cons]

theorem total_insert (w : β) : total f (m.insert k w) = f w + total f (m.erase k) := by
  unfold total; rw [((vals_insert_perm m k w).map f).sum_eq, List.map_cons, List.sum_cons]

theorem total_insert_new (w : β) (h : k ∉ m) : total f (m.insert k w) = f w + total f m := by
  rw [total_insert, erase_eq_self h]

/-- **A sum that is one** comes from exactly one entry. -/
theorem exists_unique_of_total_eq_one {f : β → ℕ} (h : total f m = 1) :
    ∃ (k : α) (v : β), m[k]? = some v ∧ f v = 1 ∧ ∀ (k' : α) (v' : β), k' ≠ k → m[k']? = some v' →
      f v' = 0 := by
  classical
  obtain ⟨v, hv, hne⟩ : ∃ v ∈ vals m, f v ≠ 0 := by
    by_contra hall
    push Not at hall
    have h0 : total f m = 0 := List.sum_eq_zero fun x hx => by
      obtain ⟨v, hv, rfl⟩ := List.mem_map.1 hx
      exact hall v hv
    omega
  obtain ⟨k, hk⟩ := mem_vals.1 hv
  rw [total_erase f hk] at h
  refine ⟨k, v, hk, by omega, ?_⟩
  intro k' v' hne' hk'
  have he : (m.erase k)[k']? = some v' := by rw [getElem?_erase_eq, if_neg (Ne.symm hne')]; exact hk'
  rw [total_erase f he] at h
  omega

end Total

/-! ## Sets filled from a list -/

section Set

variable {s : ExtTreeSet α cmp} {us : List α}

theorem mem_foldl_insert {a : α} : a ∈ us.foldl (fun s u => s.insert u) s ↔ a ∈ s ∨ a ∈ us := by
  induction us generalizing s with
  | nil => simp
  | cons u us ih =>
    rw [List.foldl_cons, ih, ExtTreeSet.mem_insert, LawfulEqCmp.compare_eq_iff_eq, List.mem_cons]
    constructor
    · rintro ((rfl | h) | h)
      · exact .inr (.inl rfl)
      · exact .inl h
      · exact .inr (.inr h)
    · rintro (h | rfl | h)
      · exact .inl (.inr h)
      · exact .inl (.inl rfl)
      · exact .inr h

/-- A list without duplicates adds its length. -/
theorem size_foldl_insert (hus : us.Nodup) (hs : ∀ u ∈ us, u ∉ s) :
    (us.foldl (fun s u => s.insert u) s).size = s.size + us.length := by
  induction us generalizing s with
  | nil => simp
  | cons u us ih =>
    obtain ⟨hu, hus⟩ := List.nodup_cons.1 hus
    have hc : ¬ s.contains u = true := fun h => hs u List.mem_cons_self h
    rw [List.foldl_cons, ih hus, ExtTreeSet.size_insert, if_neg hc, List.length_cons]
    · omega
    · intro x hx hm
      rw [ExtTreeSet.mem_insert, LawfulEqCmp.compare_eq_iff_eq] at hm
      rcases hm with rfl | hm
      · exact hu hx
      · exact hs x (List.mem_cons_of_mem _ hx) hm

theorem nodup_toList_set (s : ExtTreeSet α cmp) : s.toList.Nodup :=
  (ExtTreeSet.distinct_toList (t := s)).imp fun h he => h (by rw [he]; exact ReflCmp.compare_self)

end Set

end Stateline.Lib
