import Stateline.Common.Str

/-!
# Messages

The messages between requesters, delegator, heartbeat thread and workers, and
the ways a handler of the source can fail (`Fault`).
-/

namespace Stateline

/-- The header of a message, a stack of addresses. -/
abbrev Address := List Str

/-- The subject frame of a message, in the order of its codes. -/
inductive Subject
  | hello | heartbeat | request | job | result | goodbye
  deriving DecidableEq, Repr

structure Message where
  address : Address
  subject : Subject
  data : List Str
  deriving DecidableEq, Repr

/-- How a function fails to return: a C++ exception leaves it, an assertion fails,
its behaviour is undefined, or it waits for a message that does not come. -/
inductive Fault
  | exception | assertion | undefined | blocked
  deriving DecidableEq, Repr

/-- `v[i]` of a vector, undefined past its end. -/
def nth {α : Type*} (v : List α) (i : ℕ) : Except Fault α :=
  match v[i]? with
  | some x => .ok x
  | none => .error .undefined

/-- `v.front()`, undefined on an empty vector. -/
def front {α : Type*} (v : List α) : Except Fault α := nth v 0

/-- `v.back()`, undefined on an empty vector. -/
def back {α : Type*} (v : List α) : Except Fault α :=
  match v.getLast? with
  | some x => .ok x
  | none => .error .undefined

@[simp] theorem ok_bind {E α β : Type} (a : α) (f : α → Except E β) : (Except.ok a >>= f) = f a := rfl

@[simp] theorem error_bind {E α β : Type} (e : E) (f : α → Except E β) :
    ((Except.error e : Except E α) >>= f) = Except.error e := rfl

/-- What ran before the rest of a computation that returned. -/
theorem bind_eq_ok {E α β : Type} {x : Except E α} {f : α → Except E β} {b : β}
    (h : (x >>= f) = .ok b) :
    ∃ a, x = .ok a ∧ f a = .ok b := by
  cases x with
  | error e => cases h
  | ok a => exact ⟨a, rfl, h⟩

/-- The result of a computation that returned two values. -/
theorem ok_pair_inj {E α β : Type} {a c : α} {b d : β}
    (h : (.ok (a, b) : Except E (α × β)) = .ok (c, d)) :
    a = c ∧ b = d := by
  injection h with h
  exact Prod.mk.inj h

section Vectors

variable {α : Type*} {v : List α} {x y : α} {tl : List α}

theorem front_of_cons (h : v = x :: tl) : front v = .ok x := by rw [h]; rfl

/-- The first element, where there is one. -/
theorem head?_of_front (h : front v = .ok x) : v.head? = some x := by
  unfold front nth at h
  split at h
  · rename_i a hfirst
    injection h with h
    rw [List.head?_eq_getElem?, hfirst, h]
  · cases h

theorem nth_zero_of_cons (h : v = x :: tl) : nth v 0 = .ok x := by rw [h]; rfl

theorem nth_one_of_cons (h : v = x :: y :: tl) : nth v 1 = .ok y := by rw [h]; rfl

/-- The last element, where there is one. -/
theorem getLast?_of_back (h : back v = .ok x) : v.getLast? = some x := by
  unfold back at h
  split at h
  · rename_i a hlast
    injection h with h
    rw [hlast, h]
  · cases h

end Vectors

end Stateline
