import Stateline.Comms.ClientHeartbeat
import Stateline.Proof.Timeouts

/-!
# The two heartbeat threads

A worker with its heartbeat thread, and the heartbeat thread of the server with all its clients. A
HEARTBEAT of the worker is on its way from the time it is sent until the thread of the server handles
it. The steps are in the order in which they end.

Time is not under the program's control, so the results are under `Timely`: the worker is in time with
its rounds, its HEARTBEATs are in time, and the thread of the server checks its clients in time.

* `Seen`: what the thread of the server knows of its clients. `Beating`: the HEARTBEATs of the worker.
* `detector_detects`: **a worker that runs is never timed out** when the timeout of the server has room
  for the rate of the worker, a round and the delay, and in any case **a silent client is removed**.
-/

namespace Stateline

open Std Lib
open ServerHeartbeat (milliseconds)

/-! ## Milliseconds -/

namespace ServerHeartbeat

/-- Less than `n` whole milliseconds. -/
theorem lt_of_milliseconds_lt {n : ℕ} {ns : ℤ} (h : milliseconds ns < n) : ns < n * 1000000 := by
  unfold milliseconds at h
  rcases Int.lt_or_le ns 0 with hneg | hpos
  · omega
  · rw [Int.tdiv_eq_ediv_of_nonneg hpos] at h
    omega

/-- At most `n` whole milliseconds. -/
theorem milliseconds_le {n : ℕ} {ns : ℤ} (h : ns < (n + 1) * 1000000) : milliseconds ns ≤ n := by
  unfold milliseconds
  rcases Int.lt_or_le ns 0 with hneg | hpos
  · have hneg' := Int.tdiv_nonneg (a := -ns) (b := 1000000) (by omega) (by decide)
    rw [Int.neg_tdiv] at hneg'
    omega
  · rw [Int.tdiv_eq_ediv_of_nonneg hpos]
    omega

end ServerHeartbeat

/-! ## The system -/

/-- Bounds on the time that things take, in nanoseconds. -/
structure Timing where
  /-- From the time that a round of the worker reads to the end of the next round. -/
  round : ℕ
  /-- From the send of a HEARTBEAT to the end of its handler. -/
  delay : ℕ
  /-- Between two checks of a client. -/
  check : ℕ

structure Detector where
  /-- The setting of the worker. -/
  msRate : ℕ
  /-- The thread of the worker, when it has started. -/
  client : Option ClientHeartbeat
  /-- The time that the last round of the worker read. -/
  polled : ℤ
  /-- The times at which the HEARTBEATs on their way were sent, oldest first. -/
  flight : List ℤ
  monitor : Monitor
  /-- When a client was last checked. -/
  checked : Str → ℤ
  /-- When the last step ended. -/
  time : ℤ

namespace Detector

inductive Act
  /-- The worker starts its thread. -/
  | start (sendTime receivedTime : ℤ)
  | round (m : Option Message) (arrived currentTime now : ℤ)
  /-- The oldest HEARTBEAT is handled. -/
  | deliver (now : ℤ)
  /-- Anything else that the thread of the server does. -/
  | server (e : Monitor.Event)

/-- When a step ends. -/
def Act.time : Act → ℤ
  | .start _ now => now
  | .round _ _ _ now => now
  | .deliver now => now
  | .server (.recv _ now) => now
  | .server (.poll _ _ now) => now

/-- The thread of the server has started. -/
def init (msRate serverRate msTimeout : ℕ) (now : ℤ) : Detector :=
  ⟨msRate, none, now, [], .init serverRate msTimeout now, fun _ => now, now⟩

/-- The clients that are checked. -/
def recheck (w : Monitor) (checked : Str → ℤ) : Monitor.Event → Str → ℤ
  | .recv _ _ => checked
  | .poll clock _ _ => fun y => if y ∈ w.hb.clients then clock y else checked y

/-- One step, for the worker with the address `x`. -/
def step (x : Str) (s : Detector) (a : Act) : Option Detector :=
  match a with
  | .start sendTime receivedTime =>
    match s.client with
    | none => some { s with
        client := some (.init s.msRate sendTime receivedTime), polled := sendTime, time := a.time }
    | some _ => none
  | .round m arrived currentTime now =>
    match s.client with
    | none => none
    | some client =>
      match client.running, client.round m arrived currentTime now with
      | true, .ok (client, out) => some { s with
          client := some client, polled := currentTime, flight := s.flight ++ out.map fun _ => now,
          time := a.time }
      | _, _ => none
  | .deliver now =>
    match s.flight, s.monitor.step (.recv ⟨[x], .heartbeat, []⟩ now) with
    | _ :: flight, some monitor => some { s with flight, monitor, time := a.time }
    | _, _ => none
  | .server e =>
    match s.monitor.step e with
    | some monitor => some { s with monitor, checked := recheck s.monitor s.checked e, time := a.time }
    | none => none

/-- All is in time, and the only other message of the worker is a HELLO once its thread has started. -/
structure Timely (τ : Timing) (x : Str) (s : Detector) (a : Act) : Prop where
  forward : s.time ≤ a.time
  rounds : s.client.isSome → a.time ≤ s.polled + τ.round
  delivered : ∀ f ∈ s.flight, a.time ≤ f + τ.delay
  checks : ∀ y ∈ s.monitor.hb.clients, a.time ≤ max (s.checked y) (s.monitor.joined y) + τ.check
  reads : match a with
    | .start sendTime receivedTime => sendTime ≤ receivedTime
    | .round _ arrived currentTime now => s.polled ≤ arrived ∧ arrived ≤ currentTime ∧ currentTime ≤ now
    | .deliver _ => True
    | .server e => s.monitor.Timely e ∧ ∀ m now, e = .recv m now → m.address.getLast? = some x →
        m.subject = .hello ∧ s.client.isSome

end Detector

/-! ## The thread of the server -/

namespace Monitor

open ServerHeartbeat (checkTimeout)

variable {w w' : Monitor} {checked : Str → ℤ} {x y : Str} {now t : ℤ}

/-- **What a message did**, and what is recorded. -/
theorem step_recv {m : Message} (h : w.step (.recv m now) = some w') :
    ∃ x, m.address.getLast? = some x ∧
      ((m.subject = .hello ∧ w' = { w with
          hb := { w.hb with
            clients := w.hb.clients.insert x
            lastHeartbeats := w.hb.lastHeartbeats.insertIfNew x now }
          time := now
          joined := if x ∈ w.hb.clients then w.joined else Function.update w.joined x now }) ∨
        (m.subject = .goodbye ∧ w' = { w with
          hb := { w.hb with
            clients := w.hb.clients.erase x, lastHeartbeats := w.hb.lastHeartbeats.erase x }
          time := now }) ∨
        (m.subject = .heartbeat ∧ w' = { w with
          hb := { w.hb with lastHeartbeats := w.hb.lastHeartbeats.insert x now }
          time := now
          beat := Function.update w.beat x (some now) })) := by
  simp only [step] at h
  split at h
  · rename_i hb hhandle
    injection h with h
    subst h
    obtain ⟨x, hx, ⟨hsub, rfl⟩ | ⟨hsub, -, rfl⟩ | ⟨hsub, rfl⟩⟩ := ServerHeartbeat.handle_eq_ok hhandle
    · exact ⟨x, hx, .inl ⟨hsub, by simp only [observe, hx, hsub]⟩⟩
    · exact ⟨x, hx, .inr (.inl ⟨hsub, by simp only [observe, hx, hsub]⟩)⟩
    · exact ⟨x, hx, .inr (.inr ⟨hsub, by simp only [observe, hx, hsub]⟩)⟩
  · cases h

/-- The loop of `monitorTimeouts` on an address that is not in it. -/
theorem foldl_checkTimeout_of_not_mem {msTimeout : ℕ} {clock : Str → ℤ} {l : List Str}
    (hy : y ∉ l) (st : ExtTreeMap Str ℤ × List Message × List Str) :
    (l.foldl (checkTimeout msTimeout clock) st).1[y]? = st.1[y]? := by
  induction l generalizing st with
  | nil => rfl
  | cons a l ih =>
    rw [List.mem_cons, not_or] at hy
    obtain ⟨hne, hy⟩ := hy
    rw [List.foldl_cons, ih hy, ServerHeartbeat.checkTimeout_of_ne (Ne.symm hne)]

/-- The loop of `monitorTimeouts` on an address that times out. -/
theorem foldl_checkTimeout_gone {msTimeout : ℕ} {clock : Str → ℤ} {l : List Str} (hl : l.Nodup)
    (hy : y ∈ l) {st : ExtTreeMap Str ℤ × List Message × List Str} (ht : st.1[y]? = some t)
    (hto : (msTimeout : ℤ) < milliseconds (clock y - t)) :
    (l.foldl (checkTimeout msTimeout clock) st).1[y]? = none := by
  induction l generalizing st with
  | nil => exact absurd hy List.not_mem_nil
  | cons a l ih =>
    obtain ⟨ha, hl⟩ := List.nodup_cons.1 hl
    rw [List.foldl_cons]
    obtain rfl | hy := List.mem_cons.1 hy
    · rw [foldl_checkTimeout_of_not_mem ha]
      unfold checkTimeout
      simp only [subscript_of_some ht, if_pos hto]
      rw [getElem?_erase_eq, if_pos rfl]
    · refine ih hl hy ?_
      rw [ServerHeartbeat.checkTimeout_of_ne (by rintro rfl; exact ha hy)]
      exact ht

/-- **What a poll stores** for an address: nothing for a client that timed out, else what there was. -/
theorem onPoll_lastHeartbeats (hdom : ∀ y ∈ w.hb.clients, y ∈ w.hb.lastHeartbeats) (clock : Str → ℤ)
    (currentTime now : ℤ) (y : Str) :
    (w.hb.onPoll clock currentTime now).1.lastHeartbeats[y]? =
      if y ∈ w.hb.clients ∧ w.hb.TimedOut clock y then none else w.hb.lastHeartbeats[y]? := by
  -- `sendHeartbeats` stores no times
  have hsame : (w.hb.onPoll clock currentTime now).1.lastHeartbeats =
      (w.hb.monitorTimeouts clock).1.lastHeartbeats := by
    unfold ServerHeartbeat.onPoll ServerHeartbeat.sendHeartbeats
    dsimp only
    split <;> rfl
  rw [hsame]
  by_cases hy : y ∈ w.hb.clients
  · obtain ⟨t, ht⟩ := mem_iff_getElem?.1 (hdom y hy)
    have hmem : y ∈ w.hb.clients.toList := ExtTreeSet.mem_toList.2 hy
    by_cases hto : w.hb.TimedOut clock y
    · rw [if_pos ⟨hy, hto⟩]
      refine foldl_checkTimeout_gone (nodup_toList_set _) hmem ht ?_
      unfold ServerHeartbeat.TimedOut at hto
      rwa [ht, Option.getD_some] at hto
    · rw [if_neg fun h => hto h.2, ht]
      refine foldl_checkTimeout_kept _ _ ht ?_
      unfold ServerHeartbeat.TimedOut at hto
      rwa [ht, Option.getD_some] at hto
  · rw [if_neg fun h => hy h.1]
    exact foldl_checkTimeout_of_not_mem (fun h => hy (ExtTreeSet.mem_toList.1 h)) _

theorem onPoll_msTimeout (hb : ServerHeartbeat) (clock : Str → ℤ) (currentTime now : ℤ) :
    (hb.onPoll clock currentTime now).1.msTimeout = hb.msTimeout := by
  unfold ServerHeartbeat.onPoll ServerHeartbeat.sendHeartbeats
  dsimp only
  split <;> rfl

/-- **What the thread of the server knows.** The time it stores for a client is one at which the client
was heard, and a client that was checked since it is one had not timed out. -/
structure Seen (w : Monitor) (checked : Str → ℤ) : Prop where
  stored : ∀ y ∈ w.hb.clients, ∃ t, w.hb.lastHeartbeats[y]? = some t ∧
    (w.joined y = t ∨ w.beat y = some t) ∧
      (checked y ≤ w.joined y ∨ checked y < t + (w.hb.msTimeout + 1) * 1000000)
  stray : ∀ y t, y ∉ w.hb.clients → w.hb.lastHeartbeats[y]? = some t → w.beat y = some t

theorem Seen.mem (hs : Seen w checked) : ∀ y ∈ w.hb.clients, y ∈ w.hb.lastHeartbeats := by
  intro y hy
  obtain ⟨t, ht, -⟩ := hs.stored y hy
  exact mem_iff_getElem?.2 ⟨t, ht⟩

theorem seen_hello (hs : Seen w checked) (hp : ∀ y, checked y ≤ now) : Seen { w with
    hb := { w.hb with
      clients := w.hb.clients.insert x, lastHeartbeats := w.hb.lastHeartbeats.insertIfNew x now }
    time := now
    joined := if x ∈ w.hb.clients then w.joined else Function.update w.joined x now } checked := by
  -- the other addresses are as before
  have hother : ∀ y : Str, y ≠ x →
      (w.hb.lastHeartbeats.insertIfNew x now)[y]? = w.hb.lastHeartbeats[y]? := by
    intro y hne
    rw [ExtTreeMap.getElem?_insertIfNew, if_neg]
    rintro ⟨heq, -⟩
    exact hne (LawfulEqCmp.compare_eq_iff_eq.1 heq).symm
  have hjoined : ∀ y : Str, y ≠ x →
      (if x ∈ w.hb.clients then w.joined else Function.update w.joined x now) y = w.joined y := by
    intro y hne
    split
    · rfl
    · exact Function.update_of_ne hne _ _
  have hclients : ∀ y : Str, y ∈ w.hb.clients.insert x ↔ x = y ∨ y ∈ w.hb.clients := by simp
  refine ⟨?_, ?_⟩
  · intro y hy
    dsimp only at hy ⊢
    rcases eq_or_ne y x with rfl | hne
    · by_cases hmem : y ∈ w.hb.clients
      · obtain ⟨t, ht, hrest⟩ := hs.stored y hmem
        refine ⟨t, ?_, ?_⟩
        · rw [ExtTreeMap.getElem?_insertIfNew, if_neg fun h => h.2 (hs.mem y hmem)]
          exact ht
        · rwa [if_pos hmem]
      · rw [if_neg hmem, Function.update_self]
        cases ht : w.hb.lastHeartbeats[y]? with
        | none =>
          refine ⟨now, ?_, .inl rfl, .inl (hp y)⟩
          rw [ExtTreeMap.getElem?_insertIfNew, if_pos]
          exact ⟨LawfulEqCmp.compare_eq_iff_eq.2 rfl, fun h => by
            obtain ⟨t, h⟩ := mem_iff_getElem?.1 h
            rw [ht] at h
            cases h⟩
        | some t =>
          refine ⟨t, ?_, .inr (hs.stray y t hmem ht), .inl (hp y)⟩
          rw [ExtTreeMap.getElem?_insertIfNew, if_neg fun h => h.2 (mem_iff_getElem?.2 ⟨t, ht⟩)]
          exact ht
    · rw [hother y hne, hjoined y hne]
      exact hs.stored y (((hclients y).1 hy).resolve_left hne.symm)
  · intro y t hy ht
    dsimp only at hy ht ⊢
    rw [hclients, not_or] at hy
    rw [hother y (Ne.symm hy.1)] at ht
    exact hs.stray y t hy.2 ht

theorem seen_goodbye (hs : Seen w checked) : Seen { w with
    hb := { w.hb with clients := w.hb.clients.erase x, lastHeartbeats := w.hb.lastHeartbeats.erase x }
    time := now } checked := by
  have hclients : ∀ y : Str, y ∈ w.hb.clients.erase x ↔ x ≠ y ∧ y ∈ w.hb.clients := by simp
  refine ⟨?_, ?_⟩
  · intro y hy
    obtain ⟨hne, hy⟩ := (hclients y).1 hy
    dsimp only
    rw [getElem?_erase_eq, if_neg hne]
    exact hs.stored y hy
  · intro y t hy ht
    dsimp only at hy ht ⊢
    rw [getElem?_erase_eq] at ht
    split at ht
    · cases ht
    · next hne => exact hs.stray y t (fun hmem => hy ((hclients y).2 ⟨hne, hmem⟩)) ht

theorem seen_heartbeat (hs : Seen w checked) (hp : ∀ y, checked y ≤ now) : Seen { w with
    hb := { w.hb with lastHeartbeats := w.hb.lastHeartbeats.insert x now }
    time := now
    beat := Function.update w.beat x (some now) } checked := by
  refine ⟨?_, ?_⟩
  · intro y hy
    dsimp only at hy ⊢
    rw [getElem?_insert_eq]
    rcases eq_or_ne y x with rfl | hne
    · rw [if_pos rfl, Function.update_self]
      have := hp y
      exact ⟨now, rfl, .inr rfl, .inr (by omega)⟩
    · rw [if_neg hne.symm, Function.update_of_ne hne]
      exact hs.stored y hy
  · intro y t hy ht
    dsimp only at hy ht ⊢
    rw [getElem?_insert_eq] at ht
    rcases eq_or_ne y x with rfl | hne
    · rw [if_pos rfl] at ht
      rw [Function.update_self, ht]
    · rw [if_neg hne.symm] at ht
      rw [Function.update_of_ne hne]
      exact hs.stray y t hy ht

theorem seen_poll (hs : Seen w checked) (clock : Str → ℤ) (currentTime now : ℤ) :
    Seen { w with hb := (w.hb.onPoll clock currentTime now).1, time := now }
      (Detector.recheck w checked (.poll clock currentTime now)) := by
  have hlast := onPoll_lastHeartbeats hs.mem clock currentTime now
  refine ⟨?_, ?_⟩
  · intro y hy
    obtain ⟨hy, hto⟩ := ((w.hb.onPoll_spec clock currentTime now).1 y).1 hy
    obtain ⟨t, ht, hsign, -⟩ := hs.stored y hy
    refine ⟨t, ?_, hsign, .inr ?_⟩
    · dsimp only
      rw [hlast, if_neg fun h => hto h.2, ht]
    · simp only [Detector.recheck, if_pos hy, onPoll_msTimeout]
      unfold ServerHeartbeat.TimedOut at hto
      rw [ht, Option.getD_some] at hto
      have hlt := @ServerHeartbeat.lt_of_milliseconds_lt (w.hb.msTimeout + 1) (clock y - t)
        (by push_cast; omega)
      push_cast at hlt
      omega
  · intro y t hy ht
    dsimp only at ht
    rw [hlast] at ht
    split at ht
    · cases ht
    · next hkeep =>
      refine hs.stray y t (fun hmem => hkeep ⟨hmem, ?_⟩) ht
      by_contra hto
      exact hy (((w.hb.onPoll_spec clock currentTime now).1 y).2 ⟨hmem, hto⟩)

/-- **Every event of the thread of the server** keeps this. -/
theorem seen_step {e : Event} (hs : Seen w checked) (hp : ∀ y, checked y ≤ w.time) (ht : w.Timely e)
    (h : w.step e = some w') : Seen w' (Detector.recheck w checked e) := by
  cases e with
  | recv m now =>
    have hp' : ∀ y, checked y ≤ now := fun y => (hp y).trans ht
    obtain ⟨x, -, ⟨-, rfl⟩ | ⟨-, rfl⟩ | ⟨-, rfl⟩⟩ := step_recv h
    · exact seen_hello hs hp'
    · exact seen_goodbye hs
    · exact seen_heartbeat hs hp'
  | poll clock currentTime now =>
    injection h with h
    subst h
    exact seen_poll hs clock currentTime now

end Monitor

/-! ## The HEARTBEATs of the worker -/

namespace Detector

/-- Times that are at most `g` apart: the first is at most `g` after `t`, and the last is `b`. -/
def Spaced (g : ℤ) : ℤ → List ℤ → ℤ → Prop
  | t, [], b => b ≤ t
  | t, f :: l, b => f ≤ t + g ∧ Spaced g f l b

variable {g t t' b n : ℤ} {l : List ℤ}

theorem Spaced.mono (h : Spaced g t l b) (ht : t ≤ t') : Spaced g t' l b := by
  cases l with
  | nil =>
    have hb : b ≤ t := h
    exact hb.trans ht
  | cons f l => exact ⟨h.1.trans (by omega), h.2⟩

/-- One more. -/
theorem Spaced.append (h : Spaced g t l b) (hn : n ≤ b + g) : Spaced g t (l ++ [n]) n := by
  induction l generalizing t with
  | nil => exact ⟨hn.trans (by have : b ≤ t := h; omega), le_rfl⟩
  | cons f l ih => exact ⟨h.1, ih h.2⟩

variable {τ : Timing} {x y : Str} {s s' : Detector} {a : Act} {rate timeout : ℕ}

/-- The most time between two HEARTBEATs, in nanoseconds. -/
def gap (τ : Timing) (rate : ℕ) : ℤ := rate * 1000000 + τ.round

/-- **The HEARTBEATs of a worker** that has started: what the thread of the server has stored for it,
those on their way, and the last that was sent. -/
structure Beats (τ : Timing) (x : Str) (rate : ℕ) (s : Detector) (c : ClientHeartbeat) : Prop where
  msRate : c.msRate = rate
  polled : s.polled ≤ c.lastSendTime + rate * 1000000
  last : c.lastSendTime ≤ s.time
  spaced : Spaced (gap τ rate) s.time s.flight c.lastSendTime
  stored : ∀ t, s.monitor.hb.lastHeartbeats[x]? = some t → Spaced (gap τ rate) t s.flight c.lastSendTime

/-- The worker, started or not. -/
structure Beating (τ : Timing) (x : Str) (rate : ℕ) (s : Detector) : Prop where
  unheard : s.client = none → s.flight = [] ∧ x ∉ s.monitor.hb.lastHeartbeats
  sent : ∀ f ∈ s.flight, f ≤ s.time
  beats : ∀ c, s.client = some c → Beats τ x rate s c

/-- **The invariant.** -/
structure Inv (τ : Timing) (x : Str) (rate timeout : ℕ) (s : Detector) : Prop where
  msRate : s.msRate = rate
  msTimeout : s.monitor.hb.msTimeout = timeout
  past : s.monitor.time ≤ s.time
  checked_past : ∀ y, s.checked y ≤ s.monitor.time
  watched : ∀ y ∈ s.monitor.hb.clients, s.time ≤ max (s.checked y) (s.monitor.joined y) + τ.check
  seen : s.monitor.Seen s.checked
  beating : Beating τ x rate s

theorem inv_init (rate serverRate timeout : ℕ) (now : ℤ) :
    Inv τ x rate timeout (.init rate serverRate timeout now) where
  msRate := rfl
  msTimeout := rfl
  past := le_rfl
  checked_past _ := le_rfl
  watched y hy := by simp [init, Monitor.init, ServerHeartbeat.init] at hy
  seen := by
    refine ⟨fun y hy => ?_, fun y t _ ht => ?_⟩
    · simp [init, Monitor.init, ServerHeartbeat.init] at hy
    · simp [init, Monitor.init, ServerHeartbeat.init] at ht
  beating := by
    refine ⟨fun _ => ⟨rfl, ExtTreeMap.not_mem_empty⟩, fun f hf => absurd hf List.not_mem_nil, ?_⟩
    intro c hc
    cases hc

/-! ## Steps -/

/-! What each step did. -/

theorem step_start {sendTime receivedTime : ℤ} (h : s.step x (.start sendTime receivedTime) = some s') :
    s.client = none ∧ s' = { s with
      client := some (.init s.msRate sendTime receivedTime)
      polled := sendTime
      time := receivedTime } := by
  simp only [step] at h
  split at h
  · next hnone =>
    cases h
    exact ⟨hnone, rfl⟩
  · cases h

theorem step_round {m : Option Message} {arrived currentTime now : ℤ}
    (h : s.step x (.round m arrived currentTime now) = some s') : ∃ c c' out, s.client = some c ∧
      c.round m arrived currentTime now = .ok (c', out) ∧ s' = { s with
        client := some c'
        polled := currentTime
        flight := s.flight ++ out.map fun _ => now
        time := now } := by
  simp only [step] at h
  split at h
  · cases h
  · next c hc =>
    split at h
    · next c' out _ hround =>
      cases h
      exact ⟨c, c', out, hc, hround, rfl⟩
    · cases h

theorem step_deliver {now : ℤ} (h : s.step x (.deliver now) = some s') : ∃ f flight monitor,
    s.flight = f :: flight ∧ s.monitor.step (.recv ⟨[x], .heartbeat, []⟩ now) = some monitor ∧
      s' = { s with flight, monitor, time := now } := by
  simp only [step] at h
  split at h
  · next f flight monitor hflight hstep =>
    cases h
    exact ⟨f, flight, monitor, hflight, hstep, rfl⟩
  · cases h

theorem step_server {e : Monitor.Event} (h : s.step x (.server e) = some s') : ∃ monitor,
    s.monitor.step e = some monitor ∧ s' = { s with
      monitor, checked := recheck s.monitor s.checked e, time := (Act.server e).time } := by
  simp only [step] at h
  split at h
  · next monitor hstep =>
    cases h
    exact ⟨monitor, hstep, rfl⟩
  · cases h

/-- **The start** of the worker. -/
theorem inv_start (hi : Inv τ x rate timeout s) {sendTime receivedTime : ℤ}
    (ht : Timely τ x s (.start sendTime receivedTime))
    (h : s.step x (.start sendTime receivedTime) = some s') : Inv τ x rate timeout s' := by
  have hfwd : s.time ≤ receivedTime := ht.forward
  have hread : sendTime ≤ receivedTime := ht.reads
  obtain ⟨hnone, rfl⟩ := step_start h
  obtain ⟨hflight, hlast⟩ := hi.beating.unheard hnone
  refine ⟨hi.msRate, hi.msTimeout, hi.past.trans hfwd, hi.checked_past, ht.checks, hi.seen, ?_⟩
  refine ⟨nofun, fun f hf => (hi.beating.sent f hf).trans hfwd, ?_⟩
  rintro _ ⟨⟩
  refine ⟨hi.msRate, le_add_of_nonneg_right (by positivity), hread, ?_, ?_⟩
  · dsimp only
    rw [hflight]
    exact hread
  · exact fun t ht => absurd (mem_iff_getElem?.2 ⟨t, ht⟩) hlast

/-- **A round** of the worker. -/
theorem inv_round (hi : Inv τ x rate timeout s) {m : Option Message} {arrived currentTime now : ℤ}
    (ht : Timely τ x s (.round m arrived currentTime now))
    (h : s.step x (.round m arrived currentTime now) = some s') : Inv τ x rate timeout s' := by
  have hfwd : s.time ≤ now := ht.forward
  obtain ⟨-, -, hread⟩ := ht.reads
  obtain ⟨c, client, out, hc, hround, rfl⟩ := step_round h
  have hb := hi.beating.beats c hc
  have hpoll : now ≤ s.polled + τ.round := ht.rounds (by rw [hc]; rfl)
  have hpolled := hb.polled
  have hspaced := hb.spaced.mono hfwd
  obtain ⟨hrate, ⟨hlt, hsend, rfl⟩ | ⟨-, hsend, rfl⟩⟩ := ClientHeartbeat.round_eq_ok hround
  · -- it is too early for a HEARTBEAT
    have hlt := ServerHeartbeat.lt_of_milliseconds_lt hlt
    rw [hb.msRate] at hlt
    refine ⟨hi.msRate, hi.msTimeout, hi.past.trans hfwd, hi.checked_past, ht.checks, hi.seen, ?_⟩
    simp only [List.map_nil, List.append_nil]
    refine ⟨nofun, fun f hf => (hi.beating.sent f hf).trans hfwd, ?_⟩
    rintro _ ⟨⟩
    refine ⟨hrate.trans hb.msRate, ?_, ?_, ?_, ?_⟩
    · dsimp only
      rw [hsend]
      omega
    · exact hsend ▸ hb.last.trans hfwd
    · exact hsend ▸ hspaced
    · exact fun t ht => hsend ▸ hb.stored t ht
  · -- a HEARTBEAT is sent
    have hgap : now ≤ c.lastSendTime + gap τ rate := by
      unfold gap
      omega
    refine ⟨hi.msRate, hi.msTimeout, hi.past.trans hfwd, hi.checked_past, ht.checks, hi.seen, ?_⟩
    refine ⟨nofun, ?_, ?_⟩
    · intro f hf
      obtain hf | hf := List.mem_append.1 hf
      · exact (hi.beating.sent f hf).trans hfwd
      · exact (List.mem_singleton.1 hf).le
    rintro _ ⟨⟩
    refine ⟨hrate.trans hb.msRate, ?_, hsend.le, ?_, ?_⟩
    · dsimp only
      rw [hsend]
      omega
    · dsimp only
      rw [hsend]
      exact hspaced.append hgap
    · intro t ht
      dsimp only
      rw [hsend]
      exact (hb.stored t ht).append hgap

/-- **The oldest HEARTBEAT** is handled. -/
theorem inv_deliver (hi : Inv τ x rate timeout s) {now : ℤ} (ht : Timely τ x s (.deliver now))
    (h : s.step x (.deliver now) = some s') : Inv τ x rate timeout s' := by
  have hfwd : s.time ≤ now := ht.forward
  have hmon : s.monitor.Timely (.recv ⟨[x], .heartbeat, []⟩ now) := hi.past.trans hfwd
  obtain ⟨f, flight, monitor, hflight, hstep, rfl⟩ := step_deliver h
  have hb := hi.beating
  have hseen := Monitor.seen_step hi.seen hi.checked_past hmon hstep
  obtain ⟨y, hy, ⟨hsub, -⟩ | ⟨hsub, -⟩ | ⟨-, rfl⟩⟩ := Monitor.step_recv hstep
  · cases hsub
  · cases hsub
  obtain rfl : x = y := Option.some.inj hy
  have hsent : f ≤ s.time := hb.sent f (by rw [hflight]; exact List.mem_cons_self)
  have hnow : ∀ c, s.client = some c → Spaced (gap τ rate) now flight c.lastSendTime := by
    intro c hc
    have hspaced := (hb.beats c hc).spaced
    rw [hflight] at hspaced
    exact hspaced.2.mono (hsent.trans hfwd)
  refine ⟨hi.msRate, hi.msTimeout, le_rfl, fun y => (hi.checked_past y).trans hmon, ht.checks,
    hseen, ?_⟩
  refine ⟨?_, ?_, ?_⟩
  · intro hnone
    rw [(hb.unheard hnone).1] at hflight
    cases hflight
  · intro f' hf
    exact (hb.sent f' (by rw [hflight]; exact List.mem_cons_of_mem _ hf)).trans hfwd
  · intro c hc
    have hbeats := hb.beats c hc
    refine ⟨hbeats.msRate, hbeats.polled, hbeats.last.trans hfwd, hnow c hc, ?_⟩
    intro t hst
    dsimp only at hst
    rw [getElem?_insert_eq, if_pos rfl] at hst
    cases hst
    exact hnow c hc

/-- The worker after an event of the thread of the server that stored nothing new for it. -/
theorem Beating.of_stored (hb : Beating τ x rate s) {w : Monitor} {checked : Str → ℤ} {now : ℤ}
    (hnow : s.time ≤ now) (hold : ∀ t, w.hb.lastHeartbeats[x]? = some t →
      s.monitor.hb.lastHeartbeats[x]? = some t ∨ s.client.isSome ∧ t = now) :
    Beating τ x rate { s with monitor := w, checked := checked, time := now } := by
  refine ⟨?_, fun f hf => (hb.sent f hf).trans hnow, ?_⟩
  · intro hnone
    refine ⟨(hb.unheard hnone).1, fun hmem => ?_⟩
    obtain ⟨t, ht⟩ := mem_iff_getElem?.1 hmem
    obtain h | ⟨h, -⟩ := hold t ht
    · exact (hb.unheard hnone).2 (mem_iff_getElem?.2 ⟨t, h⟩)
    · dsimp only at hnone
      rw [hnone] at h
      cases h
  · intro c hc
    have hbeats := hb.beats c hc
    refine ⟨hbeats.msRate, hbeats.polled, hbeats.last.trans hnow, hbeats.spaced.mono hnow, ?_⟩
    intro t ht
    obtain h | ⟨-, rfl⟩ := hold t ht
    · exact hbeats.stored t h
    · exact hbeats.spaced.mono hnow

/-- **What the thread of the server stores** for the worker, other than for its HEARTBEATs. -/
theorem stored_server {e : Monitor.Event} {w : Monitor} (hseen : s.monitor.Seen s.checked)
    (ht : Timely τ x s (.server e)) (h : s.monitor.step e = some w) (t : ℤ)
    (hst : w.hb.lastHeartbeats[x]? = some t) :
    s.monitor.hb.lastHeartbeats[x]? = some t ∨ s.client.isSome ∧ t = (Act.server e).time := by
  obtain ⟨-, hforeign⟩ := ht.reads
  cases e with
  | recv m now =>
    obtain ⟨y, hy, hcase⟩ := Monitor.step_recv h
    have hx : y = x → m.subject = .hello ∧ s.client.isSome :=
      fun heq => hforeign m now rfl (heq ▸ hy)
    obtain ⟨hsub, rfl⟩ | ⟨hsub, rfl⟩ | ⟨hsub, rfl⟩ := hcase
    · dsimp only at hst
      rw [ExtTreeMap.getElem?_insertIfNew] at hst
      split at hst
      · next heq =>
        cases hst
        exact .inr ⟨(hx (LawfulEqCmp.compare_eq_iff_eq.1 heq.1)).2, rfl⟩
      · exact .inl hst
    · dsimp only at hst
      rw [getElem?_erase_eq] at hst
      split at hst
      · cases hst
      · exact .inl hst
    · dsimp only at hst
      rw [getElem?_insert_eq] at hst
      split at hst
      · next heq =>
        have hhello := (hx heq).1
        rw [hsub] at hhello
        cases hhello
      · exact .inl hst
  | poll clock currentTime now =>
    injection h with h
    subst h
    dsimp only at hst
    rw [Monitor.onPoll_lastHeartbeats hseen.mem] at hst
    split at hst
    · cases hst
    · exact .inl hst

/-- The checks of the clients after an event of the thread of the server. -/
theorem watched_server (hi : Inv τ x rate timeout s) {e : Monitor.Event} {w : Monitor}
    (ht : Timely τ x s (.server e)) (h : s.monitor.step e = some w) :
    w.hb.msTimeout = timeout ∧ w.time ≤ (Act.server e).time ∧
      (∀ y, recheck s.monitor s.checked e y ≤ w.time) ∧
      ∀ y ∈ w.hb.clients,
        (Act.server e).time ≤ max (recheck s.monitor s.checked e y) (w.joined y) + τ.check := by
  obtain ⟨hmon, -⟩ := ht.reads
  cases e with
  | recv m now =>
    have hnow : ∀ y, s.checked y ≤ now := fun y => (hi.checked_past y).trans hmon
    obtain ⟨z, hz, ⟨-, rfl⟩ | ⟨-, rfl⟩ | ⟨-, rfl⟩⟩ := Monitor.step_recv h
    · refine ⟨hi.msTimeout, le_rfl, hnow, fun y hy => ?_⟩
      dsimp only at hy ⊢
      by_cases hmem : z ∈ s.monitor.hb.clients
      · rw [if_pos hmem]
        refine ht.checks y ?_
        obtain heq | hy : z = y ∨ y ∈ s.monitor.hb.clients := by simpa using hy
        · exact heq ▸ hmem
        · exact hy
      · rw [if_neg hmem]
        rcases eq_or_ne y z with rfl | hne
        · rw [Function.update_self]
          have : now ≤ max (recheck s.monitor s.checked (.recv m now) y) now := le_max_right _ _
          exact this.trans (le_add_of_nonneg_right (by positivity))
        · rw [Function.update_of_ne hne]
          have hy : z = y ∨ y ∈ s.monitor.hb.clients := by simpa using hy
          exact ht.checks y (hy.resolve_left hne.symm)
    · refine ⟨hi.msTimeout, le_rfl, hnow, fun y hy => ht.checks y ?_⟩
      have hy : z ≠ y ∧ y ∈ s.monitor.hb.clients := by simpa using hy
      exact hy.2
    · exact ⟨hi.msTimeout, le_rfl, hnow, fun y hy => ht.checks y hy⟩
  | poll clock currentTime now =>
    obtain ⟨hclock, hcur, hnow⟩ := hmon
    injection h with h
    subst h
    refine ⟨(Monitor.onPoll_msTimeout _ _ _ _).trans hi.msTimeout, le_rfl, fun y => ?_, fun y hy => ?_⟩
    · dsimp only [recheck]
      split
      · next hy => exact (hclock y hy).2.trans hnow
      · exact (hi.checked_past y).trans (hcur.trans hnow)
    · -- the clock that the poll reads is not before the last check
      have hy := (((s.monitor.hb.onPoll_spec clock currentTime now).1 y).1 hy).1
      have hle : s.checked y ≤ clock y := (hi.checked_past y).trans (hclock y hy).1
      dsimp only [recheck]
      rw [if_pos hy]
      exact (ht.checks y hy).trans (by gcongr)

/-- **An event of the thread of the server.** -/
theorem inv_server (hi : Inv τ x rate timeout s) {e : Monitor.Event} (ht : Timely τ x s (.server e))
    (h : s.step x (.server e) = some s') : Inv τ x rate timeout s' := by
  obtain ⟨w, hw, rfl⟩ := step_server h
  obtain ⟨hT, hpast, hchecked, hwatched⟩ := watched_server hi ht hw
  exact ⟨hi.msRate, hT, hpast, hchecked, hwatched,
    Monitor.seen_step hi.seen hi.checked_past ht.reads.1 hw,
    hi.beating.of_stored ht.forward (stored_server hi.seen ht hw)⟩

/-- **Every step keeps the invariant.** -/
theorem inv_step (hi : Inv τ x rate timeout s) (ht : Timely τ x s a) (h : s.step x a = some s') :
    Inv τ x rate timeout s' := by
  cases a with
  | start sendTime receivedTime => exact inv_start hi ht h
  | round m arrived currentTime now => exact inv_round hi ht h
  | deliver now => exact inv_deliver hi ht h
  | server e => exact inv_server hi ht h

/-! ## Timeouts -/

/-- **The worker has not timed out** when the clients are checked. -/
theorem not_timedOut (hgap : gap τ rate + τ.delay < (timeout + 1) * 1000000)
    (hi : Inv τ x rate timeout s) {clock : Str → ℤ} {currentTime now : ℤ}
    (ht : Timely τ x s (.server (.poll clock currentTime now))) (hx : x ∈ s.monitor.hb.clients) :
    ¬ s.monitor.hb.TimedOut clock x := by
  obtain ⟨t, hst, -⟩ := hi.seen.stored x hx
  obtain ⟨⟨hclock, -, hnow⟩, -⟩ := ht.reads
  have hle : clock x ≤ now := (hclock x hx).2.trans hnow
  -- the worker has started
  obtain ⟨c, hc⟩ : ∃ c, s.client = some c := by
    cases hc : s.client with
    | none => exact absurd (mem_iff_getElem?.2 ⟨t, hst⟩) (hi.beating.unheard hc).2
    | some c => exact ⟨c, rfl⟩
  have hb := hi.beating.beats c hc
  have hround : now ≤ s.polled + τ.round := ht.rounds (by rw [hc]; rfl)
  have hlate : now ≤ t + gap τ rate + τ.delay := by
    have hspaced := hb.stored t hst
    have hpolled := hb.polled
    cases hf : s.flight with
    | nil =>
      -- the last HEARTBEAT has been handled
      rw [hf] at hspaced
      have hlast : c.lastSendTime ≤ t := hspaced
      unfold gap
      omega
    | cons f rest =>
      -- the oldest HEARTBEAT is still in time
      rw [hf] at hspaced
      have hdelay : now ≤ f + τ.delay := ht.delivered f (by rw [hf]; exact List.mem_cons_self)
      have := hspaced.1
      omega
  unfold ServerHeartbeat.TimedOut
  rw [hst, Option.getD_some, hi.msTimeout]
  exact (ServerHeartbeat.milliseconds_le (by omega)).not_gt

/-- The thread of the server sends no GOODBYE for the worker. -/
theorem no_goodbye (hgap : gap τ rate + τ.delay < (timeout + 1) * 1000000)
    (hi : Inv τ x rate timeout s) {clock : Str → ℤ} {currentTime now : ℤ}
    (ht : Timely τ x s (.server (.poll clock currentTime now))) :
    ⟨[x], .goodbye, []⟩ ∉ (s.monitor.hb.onPoll clock currentTime now).2 := by
  intro hmem
  obtain ⟨y, hy, hto, heq⟩ | ⟨hsub, -⟩ :=
    (s.monitor.hb.onPoll_spec clock currentTime now).2.2 _ hmem
  · obtain rfl : x = y := by simpa using heq
    exact not_timedOut hgap hi ht hy hto
  · cases hsub

/-- A worker that is a client stays one. -/
theorem stays_step (hgap : gap τ rate + τ.delay < (timeout + 1) * 1000000)
    (hi : Inv τ x rate timeout s) (ht : Timely τ x s a) (h : s.step x a = some s')
    (hx : x ∈ s.monitor.hb.clients) : x ∈ s'.monitor.hb.clients := by
  cases a with
  | start sendTime receivedTime =>
    obtain ⟨-, rfl⟩ := step_start h
    exact hx
  | round m arrived currentTime now =>
    obtain ⟨c, c', out, -, -, rfl⟩ := step_round h
    exact hx
  | deliver now =>
    obtain ⟨f, flight, monitor, -, hstep, rfl⟩ := step_deliver h
    obtain ⟨y, -, ⟨hsub, -⟩ | ⟨hsub, -⟩ | ⟨-, rfl⟩⟩ := Monitor.step_recv hstep
    · cases hsub
    · cases hsub
    · exact hx
  | server e =>
    obtain ⟨monitor, hstep, rfl⟩ := step_server h
    cases e with
    | recv m now =>
      obtain ⟨y, hy, ⟨-, rfl⟩ | ⟨hsub, rfl⟩ | ⟨-, rfl⟩⟩ := Monitor.step_recv hstep
      · show x ∈ s.monitor.hb.clients.insert y
        simp [hx]
      · show x ∈ s.monitor.hb.clients.erase y
        have hne : y ≠ x := by
          rintro rfl
          have hhello := (ht.reads.2 m now rfl hy).1
          rw [hsub] at hhello
          cases hhello
        simp [hx, hne]
      · exact hx
    | poll clock currentTime now =>
      injection hstep with hstep
      subst hstep
      exact ((s.monitor.hb.onPoll_spec clock currentTime now).1 x).2 ⟨hx, not_timedOut hgap hi ht hx⟩

/-- **The invariant in every run.** -/
theorem inv_of_reach {s₀ : Detector} {as : List Act} (hi : Inv τ x rate timeout s₀)
    (h : Reach (step x) (Timely τ x) s₀ as s) : Inv τ x rate timeout s :=
  h.invariant (P := fun _ s => Inv τ x rate timeout s) hi fun _ _ _ _ _ hi ht hs => inv_step hi ht hs

/-- **A client is one that was heard**: its HELLO or a HEARTBEAT of it came at most the timeout and
the time between two checks ago. -/
theorem heard (hi : Inv τ x rate timeout s) (hy : y ∈ s.monitor.hb.clients) :
    ∃ t, (s.monitor.joined y = t ∨ s.monitor.beat y = some t) ∧
      s.time ≤ t + (timeout + 1) * 1000000 + τ.check := by
  obtain ⟨t, -, hsign, hchecked⟩ := hi.seen.stored y hy
  have hwatched := hi.watched y hy
  rcases le_or_gt (s.checked y) (s.monitor.joined y) with hle | hlt
  · -- not checked since its HELLO
    rw [max_eq_right hle] at hwatched
    exact ⟨_, .inl rfl, by omega⟩
  · rw [max_eq_left hlt.le] at hwatched
    have hcheck := hchecked.resolve_left hlt.not_ge
    rw [hi.msTimeout] at hcheck
    exact ⟨t, hsign, by omega⟩

/-- **The heartbeats detect** what they are for, in every run that is in time. When the timeout of the
server is longer than the rate of the worker, the time of a round and the delay together, the worker is
never timed out, and stays a client. Whatever these are, a client that was not heard is removed. -/
theorem detector_detects {serverRate : ℕ} {now₀ : ℤ} {as : List Act}
    (h : Reach (step x) (Timely τ x) (.init rate serverRate timeout now₀) as s) :
    (gap τ rate + τ.delay < (timeout + 1) * 1000000 →
      (∀ clock currentTime now, Timely τ x s (.server (.poll clock currentTime now)) →
        ⟨[x], .goodbye, []⟩ ∉ (s.monitor.hb.onPoll clock currentTime now).2) ∧
      (x ∈ s.monitor.hb.clients → ∀ as' s', Reach (step x) (Timely τ x) s as' s' →
        x ∈ s'.monitor.hb.clients)) ∧
    ∀ y ∈ s.monitor.hb.clients, ∃ t, (s.monitor.joined y = t ∨ s.monitor.beat y = some t) ∧
      s.time ≤ t + (timeout + 1) * 1000000 + τ.check := by
  have hi := inv_of_reach (inv_init rate serverRate timeout now₀) h
  refine ⟨fun hgap => ⟨fun _ _ _ ht => no_goodbye hgap hi ht, ?_⟩, fun y hy => heard hi hy⟩
  intro hx as' s' h'
  -- the worker stays a client step by step
  refine (h'.invariant (P := fun _ s => Inv τ x rate timeout s ∧ x ∈ s.monitor.hb.clients)
    ⟨hi, hx⟩ ?_).2
  rintro _ _ _ _ _ ⟨hi, hx⟩ ht hs
  exact ⟨inv_step hi ht hs, stays_step hgap hi ht hs hx⟩

/-- The delays that the default settings of the worker and the server leave room for. -/
def defaultTiming : Timing := ⟨600000000, 3400000000, 2000000000⟩

set_option maxRecDepth 8000 in
/-- **The default settings**: a worker that says HELLO and sends its first HEARTBEAT after a second. -/
theorem detector_detects_default :
    ∃ s as, Reach (step ['w']) (Timely defaultTiming ['w']) (.init 1000 1000 5000 0) as s ∧
      s.monitor.beat ['w'] = some 1500000000 ∧
      (∀ clock currentTime now, Timely defaultTiming ['w'] s (.server (.poll clock currentTime now)) →
        ⟨[['w']], .goodbye, []⟩ ∉ (s.monitor.hb.onPoll clock currentTime now).2) ∧
      ∀ as' s', Reach (step ['w']) (Timely defaultTiming ['w']) s as' s' →
        ['w'] ∈ s'.monitor.hb.clients := by
  have hcheck : ∀ (t j : ℤ), t ≤ 2000000000 → t ≤ max 0 j + defaultTiming.check :=
    fun t j ht => ht.trans (le_add_of_nonneg_left (le_max_left 0 j))
  have h : Reach (step ['w']) (Timely defaultTiming ['w']) (.init 1000 1000 5000 0) [] _ := .start
  have h := h.next' (e := .start 0 0)
    ⟨by decide, nofun, nofun, fun y _ => hcheck 0 _ (by decide), by exact le_rfl⟩ (by decide)
  have h := h.next' (e := .server (.recv ⟨[['w']], .hello, [[]]⟩ 100000000))
    ⟨by decide, fun _ => by decide, nofun, fun y _ => hcheck 100000000 _ (by decide),
      by exact ⟨(by decide : (0 : ℤ) ≤ 100000000), by rintro _ _ ⟨⟩ _; exact ⟨rfl, rfl⟩⟩⟩ (by decide)
  have h := h.next' (e := .round none 500000000 500000000 500000000)
    ⟨by decide, fun _ => by decide, nofun, fun y _ => hcheck 500000000 _ (by decide),
      by exact ⟨by decide, le_rfl, le_rfl⟩⟩ (by decide)
  have h := h.next' (e := .round none 1000000000 1000000000 1000000000)
    ⟨by decide, fun _ => by decide, nofun, fun y _ => hcheck 1000000000 _ (by decide),
      by exact ⟨by decide, le_rfl, le_rfl⟩⟩ (by decide)
  have h := h.next' (e := .deliver 1500000000)
    ⟨by decide, fun _ => by decide, by decide, fun y _ => hcheck 1500000000 _ (by decide), trivial⟩
    (by decide)
  obtain ⟨hnever, hstays⟩ := (detector_detects h).1 (by decide)
  exact ⟨_, _, h, by decide, hnever, hstays (by decide)⟩

end Detector

end Stateline
