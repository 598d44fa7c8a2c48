import Stateline.Comms.DelegatorThread
import Stateline.Lib.Run

/-!
# Dispatch

A message goes to the entry of the table at `6 * socket + subject`, in 32 bits, and
the subject comes off the wire as any `int`. `Clear` is the condition on a message
under which the entry is its own.

* `callbacks_ofBinds`: an entry holds the last callback bound with its index.
* `dispatch_iff`: **a message goes to its own handlers exactly when it is clear**, and
  for routers that fit in 32 bits these are the messages with one of the subjects, and
  those that meet an entry that is in the table and empty.
* `foreign_handler`: a message that runs the handler of another socket.
-/

namespace Stateline

open Lib

namespace SocketRouter

variable {Callback : Type} {n : ℕ} {binds : List (Bind Callback)} {i : ℕ} {frames : List Str}
    {m : RawMessage}

/-- The message that is read on the socket `i` goes to its own handlers: the table is not read past
its end, and a callback that is called was bound for this socket and subject. -/
def Proper (n : ℕ) (binds : List (Bind Callback)) (i : ℕ) (frames : List Str) : Prop :=
  ∃ r, ofBinds n binds = .ok r ∧ r.dispatch i frames ≠ .error .undefined ∧
    ∀ b m, r.dispatch i frames = .ok (b, m) → b ∈ binds ∧ b.socketIndex = i ∧
      (b.subject.code : ℤ) = m.subject

/-- The index of the message is in the table, and no callback is bound with it for another socket
or subject. -/
def Clear (n : ℕ) (binds : List (Bind Callback)) (i : ℕ) (s : ℤ) : Prop :=
  index i s < Subject.size * n ∧
    ∀ b ∈ binds, index b.socketIndex b.subject.code = index i s → b.socketIndex = i ∧
      (b.subject.code : ℤ) = s

/-- Every socket index is in range. -/
def InRange (n : ℕ) (binds : List (Bind Callback)) : Prop := ∀ b ∈ binds, b.socketIndex < n

/-! ## The table -/

/-- The last callback bound with an index. -/
def lastBind (binds : List (Bind Callback)) (k : ℕ) : Option (Bind Callback) :=
  binds.reverse.find? fun b => index b.socketIndex b.subject.code = k

theorem toUint_code (s : Subject) : toUint s.code = s.code :=
  toUint_natCast (s.code_lt.trans (by decide))

/-- The index of a call of `bind` is in the table. -/
theorem index_lt {b : Bind Callback} (h : b.socketIndex < n) :
    index b.socketIndex b.subject.code < Subject.size * n := by
  have hcode := b.subject.code_lt
  unfold index
  rw [toUint_code]
  refine (Nat.mod_le _ _).trans_lt ?_
  unfold Subject.size at hcode ⊢
  omega

/-- **The table**: no `bind` fails, and an entry holds the last callback bound with its index. -/
theorem callbacks_ofBinds (h : InRange n binds) :
    ∃ r, ofBinds n binds = .ok r ∧ r.callbacks.length = Subject.size * n ∧
      ∀ k, k < Subject.size * n → r.callbacks[k]? = some (lastBind binds k) := by
  induction binds using List.reverseRecOn with
  | nil =>
    refine ⟨ofSockets n, rfl, List.length_replicate, ?_⟩
    intro k hk
    exact List.getElem?_replicate_of_lt hk
  | append_singleton binds b ih =>
    obtain ⟨r, hr, hlen, hget⟩ := ih fun c hc => h c (List.mem_append_left _ hc)
    have hb : index b.socketIndex b.subject.code < r.callbacks.length := by
      rw [hlen]
      exact index_lt (h b (List.mem_append_right _ List.mem_cons_self))
    refine ⟨⟨r.callbacks.set (index b.socketIndex b.subject.code) (some b)⟩, ?_, ?_, ?_⟩
    · unfold ofBinds at hr ⊢
      rw [List.foldlM_append, hr, ok_bind, List.foldlM_cons]
      unfold bind
      simp only [if_pos hb, ok_bind]
      rfl
    · rw [List.length_set, hlen]
    · intro k hk
      rw [List.getElem?_set]
      unfold lastBind
      rw [List.reverse_append, List.reverse_singleton, List.singleton_append]
      by_cases he : index b.socketIndex b.subject.code = k
      · rw [if_pos he, if_pos hb, List.find?_cons_of_pos (by simpa using he)]
      · rw [if_neg he, List.find?_cons_of_neg (by simpa using he), hget k hk]
        rfl

/-- What is found with an index is bound with it. -/
theorem lastBind_eq_some {k : ℕ} {b : Bind Callback} (h : lastBind binds k = some b) :
    b ∈ binds ∧ index b.socketIndex b.subject.code = k := by
  unfold lastBind at h
  have hidx := List.find?_some h
  exact ⟨List.mem_reverse.1 (List.mem_of_find?_eq_some h), of_decide_eq_true hidx⟩

/-- The last call of all is found. -/
theorem lastBind_snoc {b : Bind Callback} {k : ℕ} (h : index b.socketIndex b.subject.code = k) :
    lastBind (binds ++ [b]) k = some b := by
  unfold lastBind
  rw [List.reverse_append, List.reverse_singleton, List.singleton_append,
    List.find?_cons_of_pos (by simpa using h)]

/-! ## Messages -/

/-- Outside the table. -/
theorem dispatch_outside {r : SocketRouter Callback} (hm : Socket.receive frames = .ok m)
    (h : r.callbacks.length ≤ index i m.subject) : r.dispatch i frames = .error .undefined := by
  unfold dispatch
  rw [hm, ok_bind, List.getElem?_eq_none h]

/-- At an entry that is bound. -/
theorem dispatch_bound {r : SocketRouter Callback} {b : Bind Callback}
    (hm : Socket.receive frames = .ok m) (h : r.callbacks[index i m.subject]? = some (some b)) :
      r.dispatch i frames = .ok (b, m) := by
  unfold dispatch
  rw [hm, ok_bind, h]
  rfl

/-- At an empty entry. -/
theorem dispatch_empty {r : SocketRouter Callback} (hm : Socket.receive frames = .ok m)
    (h : r.callbacks[index i m.subject]? = some none) : r.dispatch i frames = .error .exception := by
  unfold dispatch
  rw [hm, ok_bind, h]

/-- A clear message goes to its own handlers. -/
theorem proper_of_clear (hb : InRange n binds) (hm : Socket.receive frames = .ok m)
    (hc : Clear n binds i m.subject) :
    Proper n binds i frames := by
  obtain ⟨r, hr, -, hget⟩ := callbacks_ofBinds hb
  have hentry := hget _ hc.1
  cases hlast : lastBind binds (index i m.subject) with
  | none =>
    rw [hlast] at hentry
    refine ⟨r, hr, ?_⟩
    rw [dispatch_empty hm hentry]
    refine ⟨by simp, ?_⟩
    intro b m' h
    cases h
  | some b =>
    rw [hlast] at hentry
    refine ⟨r, hr, ?_⟩
    rw [dispatch_bound hm hentry]
    refine ⟨by simp, ?_⟩
    intro b' m' h
    obtain ⟨rfl, rfl⟩ := ok_pair_inj h
    obtain ⟨hmem, hidx⟩ := lastBind_eq_some hlast
    exact ⟨hmem, hc.2 b hmem hidx⟩

/-- A message that goes to its own handlers whatever the order of the calls of `bind` is clear. -/
theorem clear_of_proper (hb : InRange n binds) (hm : Socket.receive frames = .ok m)
    (h : ∀ order : List (Bind Callback), order.Perm binds → Proper n order i frames) :
      Clear n binds i m.subject := by
  have hin : index i m.subject < Subject.size * n := by
    obtain ⟨r, hr, hlen, -⟩ := callbacks_ofBinds hb
    obtain ⟨r', hr', hne, -⟩ := h binds (.refl _)
    rw [hr] at hr'
    injection hr' with hr'
    subst hr'
    by_contra hout
    exact hne (dispatch_outside hm (by rw [hlen]; exact Nat.le_of_not_lt hout))
  refine ⟨hin, ?_⟩
  intro b hmem hidx
  -- the order in which this call comes last
  obtain ⟨l₁, l₂, rfl⟩ := List.append_of_mem hmem
  have hperm : (l₁ ++ l₂ ++ [b]).Perm (l₁ ++ b :: l₂) := by
    rw [List.append_assoc]
    exact (List.perm_append_singleton b l₂).append_left l₁
  obtain ⟨r, hr, -, hget⟩ := callbacks_ofBinds fun c hc => hb c (hperm.mem_iff.1 hc)
  obtain ⟨r', hr', -, hown⟩ := h _ hperm
  rw [hr] at hr'
  injection hr' with hr'
  subst hr'
  have hentry := hget _ hin
  rw [lastBind_snoc hidx] at hentry
  exact (hown b m (dispatch_bound hm hentry)).2

/-- In a router that fits in 32 bits, the index of one of the subjects is clear. -/
theorem clear_of_subject (hn : Subject.size * n ≤ 2 ^ 32) (hb : InRange n binds) (hi : i < n) {s : ℤ}
    (hs : 0 ≤ s ∧ s < Subject.size) : Clear n binds i s := by
  have hindex : ∀ {j : ℕ} {t : ℤ}, j < n → 0 ≤ t ∧
      t < Subject.size → index j t = Subject.size * j + t.toNat := by
    intro j t hj ht
    unfold Subject.size at hn ht
    unfold index toUint Subject.size
    omega
  unfold Clear
  rw [hindex hi hs]
  unfold Subject.size at hs hindex ⊢
  refine ⟨by omega, ?_⟩
  intro b hmem he
  have hcode := b.subject.code_lt
  unfold Subject.size at hcode
  rw [hindex (hb b hmem) (by omega)] at he
  omega

/-- **A message goes to its own handlers**, whatever the order of the calls of `bind`, exactly when
it is clear. If the table fits in 32 bits, it is clear exactly when it has one of the subjects, or
meets an empty entry of the table. -/
theorem dispatch_iff (hb : InRange n binds) (hi : i < n) (hm : Socket.receive frames = .ok m) :
    ((∀ order : List (Bind Callback), order.Perm binds → Proper n order i frames) ↔
      Clear n binds i m.subject) ∧
      (Subject.size * n ≤ 2 ^ 32 → (Clear n binds i m.subject ↔
        (0 ≤ m.subject ∧ m.subject < Subject.size) ∨
        (index i m.subject < Subject.size * n ∧
          ∀ b ∈ binds, index b.socketIndex b.subject.code ≠ index i m.subject))) := by
  refine ⟨⟨clear_of_proper hb hm, ?_⟩, ?_⟩
  · intro hc order hperm
    refine proper_of_clear (fun b hmem => hb b (hperm.mem_iff.1 hmem)) hm ⟨hc.1, ?_⟩
    intro b hmem
    exact hc.2 b (hperm.mem_iff.1 hmem)
  · intro hn
    constructor
    · intro hc
      by_cases hempty : ∀ b ∈ binds, index b.socketIndex b.subject.code ≠ index i m.subject
      · exact .inr ⟨hc.1, hempty⟩
      · push Not at hempty
        obtain ⟨b, hmem, he⟩ := hempty
        have hs := (hc.2 b hmem he).2
        have := b.subject.code_lt
        exact .inl (by omega)
    · rintro (hs | ⟨hin, hempty⟩)
      · exact clear_of_subject hn hb hi hs
      · exact ⟨hin, fun b hmem he => absurd he (hempty b hmem)⟩

/-! ## The router of the delegator -/

/-- A HELLO of a worker is clear. -/
theorem dispatch_iff_hello :
    Proper 3 delegatorBinds 2 [['w'], [], ['0'], []] ∧ Clear 3 delegatorBinds 2 0 :=
  have hb : InRange 3 delegatorBinds := by unfold InRange; decide
  have hm : Socket.receive [['w'], [], ['0'], []] = .ok ⟨[['w']], 0, [[]]⟩ := by decide
  have h := dispatch_iff hb (show 2 < 3 by decide) hm
  ⟨h.1.2 ((h.2 (by decide)).2 (.inl (by decide))) _ (.refl _), (h.2 (by decide)).2 (.inl (by decide))⟩

/-- **The handler of another socket**: a worker sends the subject `-1`, and the delegator runs what
it keeps for GOODBYEs of its heartbeat thread. With the subject `6` it reads past the table. -/
theorem foreign_handler : ∃ r, ofBinds 3 delegatorBinds = .ok r ∧
    r.dispatch 2 [['w'], [], "-1".toList] = .ok (⟨1, .goodbye, .disconnect⟩, ⟨[['w']], -1, []⟩) ∧
    ¬ Proper 3 delegatorBinds 2 [['w'], [], "-1".toList] ∧
    r.dispatch 2 [['w'], [], ['6']] = .error .undefined ∧
      ¬ Proper 3 delegatorBinds 2 [['w'], [], ['6']] := by
  refine ⟨_, rfl, by decide, ?_, by decide, ?_⟩
  · rintro ⟨r, hr, -, hown⟩
    cases hr
    exact absurd (hown _ _ (by rfl)).2.1 (by decide)
  · rintro ⟨r, hr, hne, -⟩
    cases hr
    exact hne (by rfl)

end SocketRouter

end Stateline
