import Stateline.Comms.Heartbeat
import Stateline.Lib.Run

/-!
# Timeouts

The heartbeat thread on its own, with the record of an observer (`Monitor`): when
an address became a client, and when its last HEARTBEAT came. The thread keeps one
time for an address, which a HELLO does not replace where there is one already.
`Fresh` is the condition that there is none.

* `Kept`: the stored time of a client is not before its HELLO or its last
  HEARTBEAT. `kept_step`: a HELLO that is fresh keeps it, and so does any other
  event.
* `no_premature_timeout`: **in every run of fresh HELLOs a client is timed out
  only if it was silent for longer than the timeout.**
* `premature_in_run`: a run that is not, and times a client out at its HELLO.
-/

namespace Stateline

open Std Lib

/-- The heartbeat thread and the record of an observer. -/
structure Monitor where
  hb : ServerHeartbeat
  /-- The time of the HELLO that last made an address a client. -/
  joined : Str → ℤ
  /-- The time of the last HEARTBEAT of an address. -/
  beat : Str → Option ℤ
  /-- The last time read. -/
  time : ℤ

namespace Monitor

/-- What the router of the thread runs: a message of the delegator, or the poll callback. -/
inductive Event
  | recv (m : Message) (now : ℤ)
  | poll (clock : Str → ℤ) (currentTime now : ℤ)

/-- The thread at its start. -/
def init (msRate msTimeout : ℕ) (now : ℤ) : Monitor :=
  ⟨.init msRate msTimeout now, fun _ => now, fun _ => none, now⟩

/-- What the observer records of a message that was handled. -/
def observe (w : Monitor) (m : Message) (now : ℤ) (hb : ServerHeartbeat) : Monitor :=
  match m.address.getLast?, m.subject with
  | some x, .hello =>
    { w with hb, time := now,
             joined := if x ∈ w.hb.clients then w.joined else Function.update w.joined x now }
  | some x, .heartbeat => { w with hb, time := now, beat := Function.update w.beat x (some now) }
  | _, _ => { w with hb, time := now }

/-- One event. There is no next state when the handler fails. -/
def step (w : Monitor) : Event → Option Monitor
  | .recv m now =>
    match w.hb.handle m now with
    | .ok hb => some (w.observe m now hb)
    | .error _ => none
  | .poll clock currentTime now =>
    some { w with hb := (w.hb.onPoll clock currentTime now).1, time := now }

/-- Time does not go back. -/
def Timely (w : Monitor) : Event → Prop
  | .recv _ now => w.time ≤ now
  | .poll clock currentTime now =>
    (∀ x ∈ w.hb.clients, w.time ≤ clock x ∧ clock x ≤ currentTime) ∧ w.time ≤ currentTime ∧
      currentTime ≤ now

/-- A HELLO that makes an address a client finds no time stored for it: no HEARTBEAT of it came
since it was a client last. -/
def Fresh (w : Monitor) : Event → Prop
  | .recv m _ =>
    m.subject = .hello → ∀ x, m.address.getLast? = some x → x ∈ w.hb.clients ∨ x ∉ w.hb.lastHeartbeats
  | .poll _ _ _ => True

/-- The address was silent for longer than the timeout at the time `t`, in nanoseconds. -/
def Silent (w : Monitor) (t : ℤ) (x : Str) : Prop :=
  (w.hb.msTimeout : ℤ) * 1000000 < t - w.joined x ∧
    ∀ b, w.beat x = some b → (w.hb.msTimeout : ℤ) * 1000000 < t - b

/-- **The invariant.** -/
structure Kept (w : Monitor) : Prop where
  stored : ∀ x ∈ w.hb.clients, ∃ t, w.hb.lastHeartbeats[x]? = some t ∧ w.joined x ≤ t ∧
    ∀ b, w.beat x = some b → b ≤ t
  joined_past : ∀ x, w.joined x ≤ w.time
  beat_past : ∀ x b, w.beat x = some b → b ≤ w.time

variable {w w' : Monitor} {now : ℤ} {x : Str}

theorem Kept.init (msRate msTimeout : ℕ) (now : ℤ) : Kept (.init msRate msTimeout now) := by
  refine ⟨?_, fun x => le_rfl, ?_⟩
  · intro x hx
    simp [Monitor.init, ServerHeartbeat.init] at hx
  · intro x b hb
    simp [Monitor.init] at hb

/-- A client whose entry and history are as before. -/
theorem Kept.stored_of_eq (hk : Kept w) (hx : x ∈ w.hb.clients)
    (hl : w'.hb.lastHeartbeats[x]? = w.hb.lastHeartbeats[x]?) (hj : w'.joined x = w.joined x)
    (hb : w'.beat x = w.beat x) :
    ∃ t, w'.hb.lastHeartbeats[x]? = some t ∧ w'.joined x ≤ t ∧ ∀ b, w'.beat x = some b → b ≤ t := by
  rw [hl, hj, hb]
  exact hk.stored x hx

/-! ## Messages -/

/-- A HELLO stores its time, unless there is one. -/
theorem kept_hello (hk : Kept w) (ht : w.time ≤ now)
    (hfresh : x ∈ w.hb.clients ∨ x ∉ w.hb.lastHeartbeats) :
    Kept { w with
      hb := { w.hb with
        clients := w.hb.clients.insert x, lastHeartbeats := w.hb.lastHeartbeats.insertIfNew x now }
      time := now
      joined := if x ∈ w.hb.clients then w.joined else Function.update w.joined x now } := by
  by_cases hmem : x ∈ w.hb.clients
  · -- a client that says HELLO again
    obtain ⟨tx, hlx, -⟩ := hk.stored x hmem
    have hsame : ∀ y : Str, (w.hb.lastHeartbeats.insertIfNew x now)[y]? = w.hb.lastHeartbeats[y]? := by
      intro y
      rw [ExtTreeMap.getElem?_insertIfNew, if_neg]
      rintro ⟨-, hnot⟩
      exact hnot (mem_iff_getElem?.2 ⟨tx, hlx⟩)
    simp only [if_pos hmem]
    refine ⟨?_, fun y => (hk.joined_past y).trans ht, fun y b hb => (hk.beat_past y b hb).trans ht⟩
    intro y hy
    simp only [ExtTreeSet.mem_insert, LawfulEqCmp.compare_eq_iff_eq] at hy
    have hy : y ∈ w.hb.clients := by
      rcases hy with rfl | hy
      · exact hmem
      · exact hy
    exact hk.stored_of_eq hy (hsame y) rfl rfl
  -- a new client, and `insert` stores the time
  · have hnew : x ∉ w.hb.lastHeartbeats := hfresh.resolve_left hmem
    simp only [if_neg hmem, insertIfNew_of_not_mem hnew]
    refine ⟨?_, ?_, fun y b hb => (hk.beat_past y b hb).trans ht⟩
    · intro y hy
      simp only [ExtTreeSet.mem_insert, LawfulEqCmp.compare_eq_iff_eq] at hy
      rcases eq_or_ne x y with rfl | hne
      · refine ⟨now, ?_, (Function.update_self x now w.joined).le,
          fun b hb => (hk.beat_past x b hb).trans ht⟩
        rw [getElem?_insert_eq, if_pos rfl]
      · refine hk.stored_of_eq (hy.resolve_left hne) ?_ ?_ rfl
        · rw [getElem?_insert_eq, if_neg hne]
        · exact Function.update_of_ne hne.symm _ _
    · intro y
      rcases eq_or_ne y x with rfl | hne
      · exact (Function.update_self y now w.joined).le
      · simp only [Function.update_of_ne hne]
        exact (hk.joined_past y).trans ht

/-- A GOODBYE takes its client away. -/
theorem kept_goodbye (hk : Kept w) (ht : w.time ≤ now) :
    Kept { w with
      hb := { w.hb with clients := w.hb.clients.erase x, lastHeartbeats := w.hb.lastHeartbeats.erase x }
      time := now } := by
  refine ⟨?_, fun y => (hk.joined_past y).trans ht, fun y b hb => (hk.beat_past y b hb).trans ht⟩
  intro y hy
  simp only [ExtTreeSet.mem_erase, ne_eq, LawfulEqCmp.compare_eq_iff_eq] at hy
  refine hk.stored_of_eq hy.2 ?_ rfl rfl
  rw [getElem?_erase_eq, if_neg hy.1]

/-- A HEARTBEAT stores its time, for a client or not. -/
theorem kept_heartbeat (hk : Kept w) (ht : w.time ≤ now) :
    Kept { w with
      hb := { w.hb with lastHeartbeats := w.hb.lastHeartbeats.insert x now }
      time := now
      beat := Function.update w.beat x (some now) } := by
  have hpast : ∀ y b, Function.update w.beat x (some now) y = some b → b ≤ now := by
    intro y b hb
    rcases eq_or_ne y x with rfl | hne
    · rw [Function.update_self] at hb
      exact (Option.some.inj hb).ge
    · rw [Function.update_of_ne hne] at hb
      exact (hk.beat_past y b hb).trans ht
  refine ⟨?_, fun y => (hk.joined_past y).trans ht, hpast⟩
  intro y hy
  rcases eq_or_ne x y with rfl | hne
  · refine ⟨now, ?_, (hk.joined_past x).trans ht, hpast x⟩
    rw [getElem?_insert_eq, if_pos rfl]
  · refine hk.stored_of_eq hy ?_ rfl ?_
    · rw [getElem?_insert_eq, if_neg hne]
    · exact Function.update_of_ne hne.symm _ _

/-- The handler of a message that succeeded. -/
theorem kept_recv {m : Message} {hb : ServerHeartbeat} (hk : Kept w) (ht : w.time ≤ now)
    (hfresh : w.Fresh (.recv m now)) (h : w.hb.handle m now = .ok hb) : Kept (w.observe m now hb) := by
  obtain ⟨x, hx, ⟨hsub, rfl⟩ | ⟨hsub, -, rfl⟩ | ⟨hsub, rfl⟩⟩ := ServerHeartbeat.handle_eq_ok h
  · simp only [observe, hx, hsub]
    exact kept_hello hk ht (hfresh hsub x hx)
  · simp only [observe, hx, hsub]
    exact kept_goodbye hk ht
  · simp only [observe, hx, hsub]
    exact kept_heartbeat hk ht

/-! ## Polls -/

/-- A client that has an entry and has not timed out keeps it. -/
theorem foldl_checkTimeout_kept {msTimeout : ℕ} {clock : Str → ℤ} {t : ℤ} (l : List Str)
    (st : ExtTreeMap Str ℤ × List Message × List Str) (hx : st.1[x]? = some t)
    (hto : ¬ (msTimeout : ℤ) < ServerHeartbeat.milliseconds (clock x - t)) :
    (l.foldl (ServerHeartbeat.checkTimeout msTimeout clock) st).1[x]? = some t := by
  induction l generalizing st with
  | nil => exact hx
  | cons a l ih =>
    rw [List.foldl_cons]
    refine ih _ ?_
    rcases eq_or_ne a x with rfl | hne
    · unfold ServerHeartbeat.checkTimeout
      simp only [subscript_of_some hx, if_neg hto]
      exact hx
    · rw [ServerHeartbeat.checkTimeout_of_ne hne]
      exact hx

theorem kept_poll {clock : Str → ℤ} {currentTime : ℤ} (hk : Kept w) (ht : w.time ≤ now) :
    Kept { w with hb := (w.hb.onPoll clock currentTime now).1, time := now } := by
  refine ⟨?_, fun y => (hk.joined_past y).trans ht, fun y b hb => (hk.beat_past y b hb).trans ht⟩
  intro y hy
  obtain ⟨hy, hto⟩ := ((w.hb.onPoll_spec clock currentTime now).1 y).1 hy
  refine hk.stored_of_eq hy ?_ rfl rfl
  obtain ⟨t, hl, -⟩ := hk.stored y hy
  -- `sendHeartbeats` stores no times
  have hsame : (w.hb.onPoll clock currentTime now).1.lastHeartbeats =
      (w.hb.monitorTimeouts clock).1.lastHeartbeats := by
    unfold ServerHeartbeat.onPoll ServerHeartbeat.sendHeartbeats
    dsimp only
    split <;> rfl
  simp only [hsame, hl]
  unfold ServerHeartbeat.TimedOut at hto
  rw [hl, Option.getD_some] at hto
  exact foldl_checkTimeout_kept _ _ hl hto

/-! ## Runs -/

/-- **An event keeps the invariant** when a HELLO is fresh. -/
theorem kept_step {e : Event} (hk : Kept w) (ht : w.Timely e) (hfresh : w.Fresh e)
    (hs : w.step e = some w') :
    Kept w' := by
  cases e with
  | recv m now =>
    simp only [step] at hs
    split at hs
    · rename_i hb h
      injection hs with hs
      subst hs
      exact kept_recv hk ht hfresh h
    · cases hs
  | poll clock currentTime now =>
    injection hs with hs
    subst hs
    exact kept_poll hk (ht.2.1.trans ht.2.2)

/-- More than `n` whole milliseconds. -/
theorem lt_of_lt_milliseconds {n : ℕ} {ns : ℤ} (h : (n : ℤ) < ServerHeartbeat.milliseconds ns) :
    n * 1000000 < ns := by
  unfold ServerHeartbeat.milliseconds at h
  -- a negative duration has no positive number of milliseconds
  rcases Int.lt_or_le ns 0 with hneg | hpos
  · have hpos := Int.tdiv_nonneg (a := -ns) (b := 1000000) (by omega) (by decide)
    rw [Int.neg_tdiv] at hpos
    omega
  · rw [Int.tdiv_eq_ediv_of_nonneg hpos] at h
    omega

/-- Under the invariant, a client that has timed out was silent. -/
theorem Kept.silent {clock : Str → ℤ} (hk : Kept w) (hx : x ∈ w.hb.clients)
    (hto : w.hb.TimedOut clock x) :
    w.Silent (clock x) x := by
  obtain ⟨t, hl, hj, hb⟩ := hk.stored x hx
  unfold ServerHeartbeat.TimedOut at hto
  rw [hl, Option.getD_some] at hto
  have hlt := lt_of_lt_milliseconds hto
  refine ⟨by omega, ?_⟩
  intro b hb'
  have := hb b hb'
  omega

/-- **No premature timeout**: in every run of fresh HELLOs, `monitorTimeouts` sends a GOODBYE for
an address only if it was silent for longer than the timeout. -/
theorem no_premature_timeout {msRate msTimeout : ℕ} {start : ℤ} {es : List Event}
    (h : Reach step (fun w e => w.Timely e ∧ w.Fresh e) (.init msRate msTimeout start) es w)
    (clock : Str → ℤ) (x : Str) (hx : ⟨[x], .goodbye, []⟩ ∈ (w.hb.monitorTimeouts clock).2) :
      w.Silent (clock x) x := by
  have hk : Kept w := h.invariant (P := fun _ w => Kept w) (.init _ _ _)
    fun _ _ _ _ _ ih hok hs => kept_step ih hok.1 hok.2 hs
  rw [(w.hb.monitorTimeouts_spec clock).2] at hx
  obtain ⟨y, hy, he⟩ := List.mem_map.1 hx
  obtain rfl : y = x := by simpa using he
  obtain ⟨hy, hto⟩ := List.mem_filter.1 hy
  exact hk.silent (ExtTreeSet.mem_toList.1 hy) (of_decide_eq_true hto)

/-- A message of a worker. -/
def ofWorker (subject : Subject) : Message := ⟨[['w']], subject, []⟩

set_option maxRecDepth 8000 in
/-- A client that sent one HEARTBEAT is timed out six seconds later. -/
theorem no_premature_timeout_run :
    ∃ w, Reach step (fun w e => w.Timely e ∧ w.Fresh e) (.init 1000 5000 0)
      [.recv (ofWorker .hello) 0, .recv (ofWorker .heartbeat) 1000000000] w ∧
    ⟨[['w']], .goodbye, []⟩ ∈ (w.hb.monitorTimeouts fun _ => 7000000000).2 ∧
      w.Silent 7000000000 ['w'] := by
  have h : Reach step (fun w e => w.Timely e ∧ w.Fresh e) (.init 1000 5000 0) [] _ := .start
  have h := h.next' (e := .recv (ofWorker .hello) 0)
    ⟨by exact (by decide : (0 : ℤ) ≤ 0), fun _ x _ => .inr ExtTreeMap.not_mem_empty⟩ (by decide)
  have h := h.next' (e := .recv (ofWorker .heartbeat) 1000000000)
    ⟨by exact (by decide : (0 : ℤ) ≤ 1000000000), fun h => by cases h⟩ (by decide)
  exact ⟨_, h, by decide, no_premature_timeout h (fun _ => 7000000000) ['w'] (by decide)⟩

set_option maxRecDepth 8000 in
/-- **A premature timeout**: a HEARTBEAT from an address that is not a client, then its HELLO ten
seconds later. A poll at the time of the HELLO times it out. -/
theorem premature_in_run : ∃ w, Reach step (fun w e => w.Timely e) (.init 1000 5000 0)
      [.recv (ofWorker .heartbeat) 0, .recv (ofWorker .hello) 10000000000] w ∧
    ⟨[['w']], .goodbye, []⟩ ∈ (w.hb.monitorTimeouts fun _ => 10000000000).2 ∧
      w.joined ['w'] = 10000000000 ∧
      ¬ w.Silent 10000000000 ['w'] := by
  have h : Reach step (fun w e => w.Timely e) (.init 1000 5000 0) [] _ := .start
  have h := h.next'
    (e := .recv (ofWorker .heartbeat) 0) (by exact (by decide : (0 : ℤ) ≤ 0)) (by decide)
  have h := h.next'
    (e := .recv (ofWorker .hello) 10000000000)
    (by exact (by decide : (0 : ℤ) ≤ 10000000000)) (by decide)
  refine ⟨_, h, by decide, rfl, ?_⟩
  rintro ⟨hj, -⟩
  exact absurd hj (by decide)

end Monitor

end Stateline
