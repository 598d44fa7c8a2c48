import Mathlib

/-!
# Swap cascades

The lock discipline of the sampler, with nothing of its samples. `flight` are
the chains that have a job in flight. A chain that is locked will swap with the
chain above, which has no job in flight but waits for it.

* `Cascade.Inv.proceed`: **a chain has one job in flight, or none and the chain
  below is locked.**
-/

namespace Stateline

structure Cascade where
  flight : List ℕ
  locked : ℕ → Bool

namespace Cascade

/-- What becomes of the locks and jobs once a job of chain `id` is done; `start` tells whether a
hottest chain that is not locked starts a cascade. -/
def proceed (T id : ℕ) (start : Bool) (c : Cascade) : Cascade :=
  if c.locked id then
    let locked := Function.update c.locked id false
    if id % T ≠ 0 then ⟨c.flight ++ [id + 1], Function.update locked (id - 1) true⟩
    else ⟨c.flight ++ [id + 1] ++ [id], locked⟩
  else if start then ⟨c.flight, Function.update c.locked (id - 1) true⟩
  else ⟨c.flight ++ [id], c.locked⟩

/-- The job at position `k` is done. -/
def done (k : ℕ) (c : Cascade) : Cascade := { c with flight := c.flight.eraseIdx k }

/-- Every chain has a job in flight but those that wait for the chain below. -/
structure Inv (T N : ℕ) (c : Cascade) : Prop where
  lt : ∀ id ∈ c.flight, id < N
  count : ∀ id < N, c.flight.count id = if id % T = 0 ∨ c.locked (id - 1) = false then 1 else 0
  hottest : ∀ id < N, id % T = T - 1 → c.locked id = false

/-- The same of all chains but `id`, whose job was done. -/
structure Idle (T N id : ℕ) (c : Cascade) : Prop where
  lt : ∀ i ∈ c.flight, i < N
  count : ∀ i < N, c.flight.count i = if i ≠ id ∧ (i % T = 0 ∨ c.locked (i - 1) = false) then 1 else 0
  hottest : ∀ i < N, i % T = T - 1 → c.locked i = false
  free : id % T = 0 ∨ c.locked (id - 1) = false

variable {T N S k id : ℕ} {start : Bool} {c : Cascade}

/-- Every chain has a job in flight, and none is locked. -/
theorem Inv.initial (hflight : c.flight = (List.range N).reverse)
    (hlocked : ∀ i, c.locked i = false) : Inv T N c := by
  refine ⟨?_, ?_, fun i _ _ => hlocked i⟩
  · intro i hi
    rw [hflight, List.mem_reverse] at hi
    exact List.mem_range.1 hi
  · intro i hi
    rw [hflight, List.count_reverse, List.count_eq_one_of_mem List.nodup_range (List.mem_range.2 hi),
      if_pos (.inr (hlocked _))]

theorem Inv.nodup (h : Inv T N c) : c.flight.Nodup := by
  rw [List.nodup_iff_count_le_one]
  intro i
  by_cases hi : i ∈ c.flight
  · rw [h.count i (h.lt i hi)]
    split <;> omega
  · rw [List.count_eq_zero_of_not_mem hi]
    omega

/-- A chain in flight has nothing to wait for. -/
theorem Inv.free (h : Inv T N c) (hid : id ∈ c.flight) : id % T = 0 ∨ c.locked (id - 1) = false := by
  by_contra hno
  have hc := h.count id (h.lt id hid)
  rw [if_neg hno] at hc
  exact List.count_eq_zero.1 hc hid

/-- **A job that is done** leaves its chain idle. -/
theorem Inv.done (h : Inv T N c) (hk : c.flight[k]? = some id) : Idle T N id (c.done k) := by
  refine ⟨fun i hi => h.lt i (List.mem_of_mem_eraseIdx hi), ?_, h.hottest,
    h.free (List.mem_of_getElem? hk)⟩
  intro i hi
  obtain ⟨hlt, hget⟩ := List.getElem?_eq_some_iff.1 hk
  have hperm := (List.getElem_cons_eraseIdx_perm hlt).count_eq i
  have hle := List.nodup_iff_count_le_one.1 h.nodup i
  rw [hget, List.count_cons] at hperm
  unfold Cascade.done
  by_cases he : i = id
  · simp only [he, beq_self_eq_true, if_true, ne_eq, not_true_eq_false, false_and,
      if_false] at hperm hle ⊢
    omega
  · simp only [beq_iff_eq, Ne.symm he, if_false, Nat.add_zero] at hperm
    simp only [ne_eq, he, not_false_eq_true, true_and]
    rw [hperm, h.count i hi]

theorem Idle.not_mem (h : Idle T N id c) : id ∉ c.flight := by
  intro hid
  have hc := h.count id (h.lt id hid)
  rw [if_neg (by simp)] at hc
  exact List.count_eq_zero.1 hc hid

/-- The levels of a stack. -/
theorem level_mod {i : ℕ} (k : ℕ) (hi : i < T) : (k * T + i) % T = i := by
  rw [Nat.mul_comm, Nat.mul_add_mod, Nat.mod_eq_of_lt hi]

theorem level_div {i : ℕ} (k : ℕ) (hi : i < T) : (k * T + i) / T = k := by
  rw [Nat.mul_comm, Nat.mul_add_div (by omega), Nat.div_eq_of_lt hi, Nat.add_zero]

theorem level_lt {k i : ℕ} (hk : k < S) (hi : i < T) : k * T + i < T * S := by
  calc k * T + i < k * T + T := by omega
    _ = T * (k + 1) := by rw [Nat.mul_add, Nat.mul_one, Nat.mul_comm]
    _ ≤ T * S := Nat.mul_le_mul_left T hk

/-- The chain above a chain that is not the hottest is in the same stack. -/
theorem above (hT : 0 < T) (hid : id < T * S) (hhot : id % T ≠ T - 1) :
    id + 1 < T * S ∧ (id + 1) % T = id % T + 1 := by
  have hlt := Nat.mod_lt id hT
  have hmod : (id + 1) % T = id % T + 1 := by
    rw [Nat.add_mod]
    rcases Nat.lt_or_ge 1 T with h1 | h1
    · rw [Nat.mod_eq_of_lt h1, Nat.mod_eq_of_lt (by omega)]
    · omega
  refine ⟨lt_of_le_of_ne hid ?_, hmod⟩
  intro he
  rw [he, Nat.mul_mod_right] at hmod
  omega

/-- The chains above the coldest of a stack. -/
theorem above_coldest {j : ℕ} (hcold : id % T = 0) (h1 : id < j) (h2 : j < id + T) :
    j / T = id / T ∧ j % T ≠ 0 := by
  obtain ⟨m, rfl⟩ := Nat.exists_eq_add_of_lt h1
  have hid := Nat.div_add_mod id T
  rw [hcold, Nat.add_zero] at hid
  have hlt : m + 1 < T := by omega
  rw [Nat.add_assoc, ← hid, Nat.mul_add_div (by omega), Nat.mul_add_mod, Nat.div_eq_of_lt hlt,
    Nat.mod_eq_of_lt hlt, Nat.mul_div_cancel_left _ (by omega)]
  exact ⟨rfl, Nat.succ_ne_zero m⟩

/-- A locked chain is not the hottest, so that the chain above is of its stack. -/
theorem above_locked {locked : ℕ → Bool} (hottest : ∀ i < T * S, i % T = T - 1 → locked i = false)
    (hid : id < T * S) (hl : locked id = true) :
    id % T ≠ T - 1 ∧ id + 1 < T * S ∧ (id + 1) % T = id % T + 1 ∧ (id + 1) / T = id / T := by
  have hT : 0 < T := Nat.pos_of_mul_pos_right (Nat.zero_lt_of_lt hid)
  have hhot : id % T ≠ T - 1 := by
    intro he
    rw [hottest id hid he] at hl
    cases hl
  obtain ⟨hup, hmod⟩ := above hT hid hhot
  refine ⟨hhot, hup, hmod, ?_⟩
  have h1 := Nat.div_add_mod (id + 1) T
  have h2 := Nat.div_add_mod id T
  exact Nat.eq_of_mul_eq_mul_left hT (by omega)

/-- The chain below a chain that is not the coldest is not the hottest. -/
theorem below (hT : 0 < T) (hcold : id % T ≠ 0) : 0 < id ∧ (id - 1) % T ≠ T - 1 := by
  have hlt := Nat.mod_lt id hT
  have hid : id - 1 = T * (id / T) + (id % T - 1) := by
    have := Nat.div_add_mod id T
    omega
  have hpos : 0 < id := by
    apply Nat.pos_of_ne_zero
    intro h0
    rw [h0, Nat.zero_mod] at hcold
    exact hcold rfl
  refine ⟨hpos, ?_⟩
  rw [hid, Nat.mul_add_mod, Nat.mod_eq_of_lt (by omega)]
  omega

/-- **A locked chain** is not the hottest, and the chain above it waits. -/
theorem Idle.waits (h : Idle T (T * S) id c) (hid : id < T * S) (hl : c.locked id = true) :
    id % T ≠ T - 1 ∧ id + 1 < T * S ∧ id + 1 ∉ c.flight := by
  obtain ⟨hhot, hup, hmod, -⟩ := above_locked h.hottest hid hl
  refine ⟨hhot, hup, ?_⟩
  have hc := h.count (id + 1) hup
  rw [Nat.add_sub_cancel, hl, if_neg (by simp [hmod])] at hc
  exact List.count_eq_zero.1 hc

/-- Only the chain above looks at the lock of a chain. -/
theorem locked_update {i j : ℕ} (locked : ℕ → Bool) (b : Bool) (hij : i ≠ j + 1) :
    (i % T = 0 ∨ Function.update locked j b (i - 1) = false) ↔
      (i % T = 0 ∨ locked (i - 1) = false) := by
  rcases Nat.eq_zero_or_pos i with rfl | hi
  · simp
  · rw [Function.update_of_ne (by omega)]

theorem lt_append {n i : ℕ} {l : List ℕ} (hl : ∀ i ∈ l, i < n) (hi : i < n) :
    ∀ j ∈ l ++ [i], j < n := by
  intro j hj
  rcases List.mem_append.1 hj with hj | hj
  · exact hl j hj
  · rw [List.mem_singleton.1 hj]
    exact hi

/-- The idle chain goes on. -/
theorem Idle.goOn (h : Idle T N id c) (hid : id < N) : Inv T N ⟨c.flight ++ [id], c.locked⟩ := by
  refine ⟨lt_append h.lt hid, ?_, h.hottest⟩
  intro i hi
  rw [List.count_append, h.count i hi]
  by_cases he : i = id
  · subst he
    simp [h.free]
  · simp [he, Ne.symm he]

/-- The chain above an idle chain that was locked goes on, which itself is still idle. -/
theorem Idle.unlock (hT : 0 < T) (h : Idle T (T * S) id c) (hid : id < T * S)
    (hl : c.locked id = true) :
    Idle T (T * S) id ⟨c.flight ++ [id + 1], Function.update c.locked id false⟩ := by
  obtain ⟨hhot, hup, hnot⟩ := h.waits hid hl
  refine ⟨lt_append h.lt hup, ?_, ?_, ?_⟩
  · intro i hi
    rw [List.count_append, h.count i hi]
    by_cases he : i = id + 1
    · subst he
      simp [hl, above hT hid hhot]
    · simp only [locked_update c.locked false he]
      simp [Ne.symm he]
  · intro i hi hh
    have hne : i ≠ id := fun he => hhot (he ▸ hh)
    simpa only [Function.update_of_ne hne] using h.hottest i hi hh
  · simpa only [locked_update c.locked false (show id ≠ id + 1 by omega)] using h.free

/-- An idle chain that is not the coldest waits for the chain below. -/
theorem Idle.descend (hT : 0 < T) (h : Idle T N id c) (hcold : id % T ≠ 0) :
    Inv T N ⟨c.flight, Function.update c.locked (id - 1) true⟩ := by
  obtain ⟨hpos, hlow⟩ := below hT hcold
  refine ⟨h.lt, ?_, ?_⟩
  · intro i hi
    rw [h.count i hi]
    by_cases he : i = id
    · subst he
      simp [hcold]
    · simp only [locked_update c.locked true (show i ≠ id - 1 + 1 by omega)]
      simp [he]
  · intro i hi hh
    have hne : i ≠ id - 1 := fun he => hlow (he ▸ hh)
    simpa only [Function.update_of_ne hne] using h.hottest i hi hh

/-- **What follows a job that is done** keeps the discipline. -/
theorem Inv.proceed (hT : 0 < T) (h : Inv T (T * S) c) (hk : c.flight[k]? = some id)
    (hstart : start = true → id % T = T - 1 ∧ 1 < T) :
      Inv T (T * S) ((c.done k).proceed T id start) := by
  have hid := h.lt id (List.mem_of_getElem? hk)
  have hidle := h.done hk
  unfold Cascade.proceed
  split
  · rename_i hl
    dsimp only
    split
    · rename_i hcold
      -- a swap, and the cascade moves on
      exact (hidle.unlock hT hid hl).descend hT hcold
    -- a swap, and the cascade ends
    · exact (hidle.unlock hT hid hl).goOn hid
  · split
    · rename_i hs
      -- the hottest chain starts a cascade
      obtain ⟨hhot, h1⟩ := hstart hs
      exact hidle.descend hT (show id % T ≠ 0 by omega)
    · exact hidle.goOn hid

/-- **Every stack has a job in flight**, that of its coldest chain. -/
theorem Inv.coldest (h : Inv T (T * S) c) {j : ℕ} (hT : 0 < T) (hj : j < S) : j * T ∈ c.flight := by
  have hlt : j * T < T * S := by
    rw [Nat.mul_comm]
    exact Nat.mul_lt_mul_of_pos_left hj hT
  rw [← List.count_pos_iff, h.count _ hlt, if_pos (.inl (Nat.mul_mod_left j T))]
  exact Nat.one_pos

end Cascade

end Stateline
