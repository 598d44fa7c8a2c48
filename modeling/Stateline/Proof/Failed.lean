import Stateline.Proof.Handled

/-!
# Sends that fail

A send of a poll that fails runs the fallback of the socket, `sendFailed`, in the
middle of the loop of `onPoll`: it erases the worker that the loop goes on with, and
puts its jobs in front of the iterator.

* `NothingLost`: the poll keeps the outstanding jobs, each in one place.
* `nothing_lost_iff`: **a poll loses nothing exactly when no send of it fails.**
* `failed_send_in_run`: a run whose last poll reads a worker that is gone.
-/

namespace Stateline

open Std Lib Delegator

namespace Delegator

/-- The poll touches no worker that is gone, and loses no job: what was outstanding, in the queue or at
a worker, is outstanding again. Jobs with distinct ids are in one place each. -/
def NothingLost (d : Delegator) (clock : Str → ℤ) (fails : Str → Bool) : Prop :=
  ∃ d' out, d.onPoll clock fails = .ok (d', out) ∧ d'.tickets = d.tickets ∧
    ((d.tickets.map Ticket.id).Nodup → ∀ t ∈ d.tickets, OnePlace d' fun j => j.ticket = t)

/-- A job is in one place when it is outstanding once. -/
theorem onePlace_of_nodup {d : Delegator} {t : Ticket} (hnd : d.tickets.Nodup) (ht : t ∈ d.tickets) :
    OnePlace d fun j => j.ticket = t := by
  apply onePlace_of_countP
  have hcount := Multiset.count_eq_one_of_mem hnd ht
  unfold tickets at hcount
  rw [Multiset.coe_count, List.count, List.countP_map] at hcount
  rw [← hcount]
  refine List.countP_congr ?_
  intro j _
  simp

variable {d : Delegator} {clock : Str → ℤ} {fails : Str → Bool}

/-- **What a poll loses**, in the rounds of its loop. -/
theorem nothingLost_iff (hd : d.WorkersOK) : d.NothingLost clock fails ↔
    ∀ p ∈ rounds clock { d with jobQueue := [] } d.jobQueue, ∀ x w, p.1.taker p.2 = some (x, w) →
      fails p.2.id = false ∧ p.2.id ∉ w.workInProgress := by
  set d₀ : Delegator := { d with jobQueue := [] } with hd₀
  have hok : d₀.WorkersOK := hd
  constructor
  · rintro ⟨d', out, hrun, ht, -⟩ p hp x w htaker
    have hsent : ¬ ∃ p ∈ rounds clock d₀ d.jobQueue, (p.1.taker p.2).isSome ∧ fails p.2.id = true := by
      intro hf
      unfold onPoll at hrun
      rw [pollLoop_failed hok hf] at hrun
      cases hrun
    rw [onPoll_eq_ok hd hrun, ← tickets_onPoll d, ← hd₀, tickets_rounds_iff hok] at ht
    refine ⟨?_, ht p hp x w htaker⟩
    exact Bool.eq_false_of_not_eq_true fun hf => hsent ⟨p, hp, by rw [htaker]; rfl, hf⟩
  · intro hall
    have hsent : ∀ p ∈ rounds clock d₀ d.jobQueue, (p.1.taker p.2).isSome → fails p.2.id = false := by
      intro p hp hsome
      obtain ⟨⟨x, w⟩, htaker⟩ := Option.isSome_iff_exists.1 hsome
      exact (hall p hp x w htaker).1
    have hfresh : ∀ p ∈ rounds clock d₀ d.jobQueue, RoundFresh p :=
      fun p hp x w htaker => (hall p hp x w htaker).2
    have ht : (d.jobQueue.foldl (round clock) d₀).tickets = d.tickets := by
      rw [(tickets_rounds_iff hok clock d.jobQueue).2 hfresh, tickets_onPoll]
    refine ⟨_, _, pollLoop_sent hok hsent, ht, ?_⟩
    intro hnd t hmem
    rw [← ht] at hnd hmem
    exact onePlace_of_nodup (Multiset.Nodup.of_map _ hnd) hmem

end Delegator

variable {w : World} {es : List Event} {nJobTypes workerCount : ℕ}

/-- **A poll loses nothing** if and only if no send of it fails and none is for a worker that has a job
under the same id. The latter needs `2 ^ 32` jobs: before that, it is the sends alone. -/
theorem nothing_lost_iff (h : Reach World.step (fun _ _ => True) (.init nJobTypes workerCount) es w)
    (clock : Str → ℤ) (fails : Str → Bool) :
    (w.del.NothingLost clock fails ↔
      ∀ p ∈ rounds clock { w.del with jobQueue := [] } w.del.jobQueue, ∀ x wk,
        p.1.taker p.2 = some (x, wk) →
        fails p.2.id = false ∧ p.2.id ∉ wk.workInProgress) ∧
    (w.created ≤ 2 ^ 32 → (w.del.NothingLost clock fails ↔
      ∀ p ∈ rounds clock { w.del with jobQueue := [] } w.del.jobQueue, (p.1.taker p.2).isSome →
        fails p.2.id = false)) := by
  have ho := orderly_of_reach h
  refine ⟨nothingLost_iff ho.sane.workers, ?_⟩
  intro hc
  have hfresh := ho.roundFresh hc clock
  rw [nothingLost_iff ho.sane.workers]
  constructor
  · intro hall p hp hsome
    obtain ⟨⟨x, wk⟩, htaker⟩ := Option.isSome_iff_exists.1 hsome
    exact (hall p hp x wk htaker).1
  · intro hall p hp x wk htaker
    exact ⟨hall p hp (by rw [htaker]; rfl), hfresh p hp x wk htaker⟩

/-- The HELLO of a worker for the jobs of type 1. -/
def helloOneEvent : Event := .recv .network ⟨[['w']], .hello, ["1:2".toList]⟩ 0 false

set_option maxRecDepth 8000 in
/-- A send for the job that stays queued would fail, but is not made. -/
theorem nothing_lost_iff_run : ∃ es w, es = [helloOneEvent, requestEvent] ∧
    Reach World.step (fun _ _ => True) (.init 2 0) es w ∧ w.del.jobQueue.map Job.id = [['0'], ['1']] ∧
    w.del.NothingLost (fun _ => 1) fun id => id = ['0'] := by
  have h : Reach World.step (fun _ _ => True) (.init 2 0) [] _ := .start
  have h := h.next' (e := helloOneEvent) trivial (by decide)
  have h := h.next' (e := requestEvent) trivial (by decide)
  exact ⟨_, _, rfl, h, by decide, ((nothing_lost_iff h _ _).2 (by decide)).2 (by decide)⟩

set_option maxRecDepth 8000 in
/-- **The worker is gone**: a worker connects, a request for two jobs arrives, and the first
send fails. -/
theorem failed_send_in_run : ∃ es w, es = [helloEvent, requestEvent] ∧
    Reach World.step (fun _ _ => True) (.init 2 0) es w ∧
    w.del.onPoll (fun _ => 1) (fun id => id = ['0']) = .error .undefined ∧
    ¬ w.del.NothingLost (fun _ => 1) fun id => id = ['0'] := by
  have h : Reach World.step (fun _ _ => True) (.init 2 0) [] _ := .start
  have h := h.next' (e := helloEvent) trivial (by decide)
  have h := h.next' (e := requestEvent) trivial (by decide)
  have hrun : ∀ {w : World} (_ : w.del.onPoll (fun _ => 1) (fun id => id = ['0']) = .error .undefined),
      ¬ w.del.NothingLost (fun _ => 1) fun id => id = ['0'] := by
    rintro w hrun ⟨d', out, hok, -⟩
    rw [hrun] at hok
    cases hok
  refine ⟨_, _, rfl, h, ?_, hrun ?_⟩
  · decide
  · decide

end Stateline
