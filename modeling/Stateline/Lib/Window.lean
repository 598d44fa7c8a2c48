import Mathlib.Data.List.DropRight
import Mathlib.Algebra.BigOperators.Group.List.Basic

/-!
# Windows

A buffer that keeps the last `c` values: `push c` appends a value and drops the oldest when there
are more than `c`. From any start that fits, what a buffer holds after a history is the end of
the start and the history (`foldl_push_rtake`).
-/

namespace Stateline.Lib

variable {α β : Type*} {c : ℕ} {l vs : List α} {a : α}

/-- One push. -/
def push (c : ℕ) (w : List α) (a : α) : List α :=
  if c < (w ++ [a]).length then (w ++ [a]).tail else w ++ [a]

theorem length_rtake (c : ℕ) (l : List α) : (l.rtake c).length = min c l.length := by
  rw [List.rtake, List.length_drop]
  omega

theorem rtake_of_length_le (h : l.length ≤ c) : l.rtake c = l := by
  rw [List.rtake, Nat.sub_eq_zero_of_le h, List.drop_zero]

theorem map_rtake (f : α → β) (c : ℕ) (l : List α) : (l.rtake c).map f = (l.map f).rtake c := by
  rw [List.rtake, List.rtake, List.map_drop, List.length_map]

/-- The end of a list is that of its second part, if this is long enough. -/
theorem rtake_append_of_le (h : c ≤ vs.length) (l : List α) : (l ++ vs).rtake c = vs.rtake c := by
  rw [List.rtake, List.rtake, List.length_append, List.drop_append,
    List.drop_eq_nil_of_le (by omega), List.nil_append]
  congr 1
  omega

theorem rtake_append_of_ge (h : vs.length ≤ c) (l : List α) :
    (l ++ vs).rtake c = l.rtake (c - vs.length) ++ vs := by
  rw [List.rtake, List.rtake, List.length_append, List.drop_append_of_le_length (by omega)]
  congr 2
  omega

/-- The last `c + 1` values, where there are as many. -/
theorem rtake_succ (h : c < l.length) : l.rtake (c + 1) = l[l.length - (c + 1)] :: l.rtake c := by
  rw [List.rtake, List.rtake, List.drop_eq_getElem_cons (by omega)]
  congr 2
  omega

/-- **A push** to a window moves it by one. -/
theorem push_rtake (c : ℕ) (l : List α) (a : α) : push c (l.rtake c) a = (l ++ [a]).rtake c := by
  unfold push
  rw [List.length_append, List.length_singleton, length_rtake]
  split
  · -- the window is full
    have hfull : c ≤ l.length := by omega
    rw [List.rtake, List.rtake, List.length_append, List.length_singleton,
      ← List.drop_append_of_le_length (by omega), List.tail_drop]
    congr 1
    omega
  · have hroom : l.length + 1 ≤ c := by omega
    rw [rtake_of_length_le (by omega), rtake_of_length_le (by simpa using hroom)]

/-- **After a history**, a window that started with `l` holds the last values of both. -/
theorem foldl_push_rtake (c : ℕ) (l vs : List α) :
    vs.foldl (push c) (l.rtake c) = (l ++ vs).rtake c := by
  induction vs generalizing l with
  | nil => rw [List.foldl_nil, List.append_nil]
  | cons a vs ih => rw [List.foldl_cons, push_rtake, ih, List.append_assoc, List.singleton_append]

/-- Zeros at the start of a window do not count in its sum. -/
theorem sum_rtake_zeros {M : Type*} [AddMonoid M] (n c : ℕ) (vs : List M) :
    ((List.replicate n 0 ++ vs).rtake c).sum = (vs.rtake c).sum := by
  rcases le_total c vs.length with h | h
  · rw [rtake_append_of_le h]
  · rw [rtake_append_of_ge h, rtake_of_length_le h, List.rtake, List.drop_replicate, List.sum_append,
      List.sum_replicate, nsmul_zero, zero_add]

/-- The sum without the oldest value. -/
theorem sum_tail {M : Type*} [AddCommGroup M] {l : List M} (h : l ≠ []) :
    l.tail.sum = l.sum - l.headD 0 := by
  cases l with
  | nil => exact absurd rfl h
  | cons a l => rw [List.tail_cons, List.headD_cons, List.sum_cons, add_sub_cancel_left]

end Stateline.Lib
