import Stateline.Proof.Conserve

/-!
# Stray results

A RESULT from a connected worker for a job that is not in progress there.
`receiveResult` reads the job with `operator[]`, so that it goes on with a
default job: of type 0, for the request under the empty key.

* `receiveResult_stray`: it throws, or indexes past the end of the results of
  that request, or takes the string as one of its results.
* `stray_never_harmless`: **a stray result is never without effect.**
-/

namespace Stateline

open Std Lib Delegator

namespace Delegator

/-- The message is handled without a fault, sends nothing, and leaves the requests, the queue
and the jobs and times of every worker as they were. -/
def Harmless (d : Delegator) (m : Message) (now : ℤ) : Prop :=
  ∃ d', d.receiveResult m now = .ok (d', []) ∧ d'.requests = d.requests ∧ d'.jobQueue = d.jobQueue ∧
    ∀ x : Str, (d'.workers[x]?).map (fun w => (w.workInProgress, w.times)) =
      (d.workers[x]?).map fun w => (w.workInProgress, w.times)

/-- A RESULT of the connected worker `w`, under `x`, for a job that is not in progress there. -/
structure Stray (d : Delegator) (m : Message) (x : Str) (w : Worker) (a : Str) : Prop where
  sender : m.address.head? = some x
  connected : d.workers[x]? = some w
  data : ∃ i rest, m.data = i :: a :: rest ∧ i ∉ w.workInProgress

/-- **What becomes of a stray result.** -/
theorem receiveResult_stray {d : Delegator} {m : Message} {x a : Str} {w : Worker}
    (h : Stray d m x w a) (now : ℤ) :
    (0 ∉ w.times ∧ d.receiveResult m now = .error .exception) ∨
    ((∀ r, d.requests[([] : Str)]? = some r → r.results = []) ∧
      d.receiveResult m now = .error .undefined) ∨
    ∃ r d' out, d.requests[([] : Str)]? = some r ∧ d.receiveResult m now = .ok (d', out) ∧
      d'.requests = if (r.nDone + 1) % 2 ^ 32 = r.jobTypes.size then d.requests.erase []
        else d.requests.insert [] { r with results := r.results.set 0 a,
                                           nDone := (r.nDone + 1) % 2 ^ 32 } := by
  obtain ⟨hx, hw, i, rest, hdata, hi⟩ := h
  obtain ⟨tl, hx⟩ := List.head?_eq_some_iff.1 hx
  have hnone : w.workInProgress[i]? = none := by simpa using hi
  -- a new job, of type 0 and index 0, for the requester with no name
  have hjob : subscript w.workInProgress i = (default, w.workInProgress.insert i default) :=
    subscript_of_none hnone
  have hfront : front m.address = .ok x := front_of_cons hx
  have h0 : nth m.data 0 = .ok i := nth_zero_of_cons hdata
  have h1 : nth m.data 1 = .ok a := nth_one_of_cons hdata
  cases ht : w.times[0]? with
  | none =>
    refine .inl ⟨?_, ?_⟩
    · intro hmem
      obtain ⟨b, hb⟩ := mem_iff_getElem?.1 hmem
      rw [ht] at hb
      cases hb
    · unfold receiveResult
      simp only [hfront, ok_bind, hw, h0, hjob]
      rw [show (default : Job).type = 0 from rfl, ht]
      rfl
  | some b =>
    right
    cases hr : d.requests[([] : Str)]? with
    | none =>
      refine .inl ⟨by simp, ?_⟩
      unfold receiveResult
      simp only [hfront, ok_bind, hw, h0, h1, hjob]
      rw [show (default : Job).type = 0 from rfl, show (default : Job).requesterID = [] from rfl, ht,
        subscript_of_none hr]
      rfl
    | some r =>
      by_cases hres : r.results = []
      · refine .inl ⟨fun r' h => (Option.some.inj h) ▸ hres, ?_⟩
        unfold receiveResult
        simp only [hfront, ok_bind, hw, h0, h1, hjob]
        rw [show (default : Job).type = 0 from rfl, show (default : Job).requesterID = [] from rfl, ht,
          subscript_of_some hr, hres]
        rfl
      -- there is a place 0 to write the result to
      · have hlen : ¬ r.results.length ≤ (default : Job).requesterIndex := by
          have := List.length_pos_of_ne_nil hres
          exact Nat.not_le.2 this
        refine .inr ⟨r, ?_⟩
        unfold receiveResult
        simp only [hfront, ok_bind, hw, h0, h1, hjob]
        rw [show (default : Job).type = 0 from rfl, show (default : Job).requesterID = [] from rfl, ht,
          subscript_of_some hr]
        simp only [if_neg hlen]
        exact ⟨_, _, trivial, rfl, rfl⟩

/-- **A stray result is never harmless**, in any state. -/
theorem stray_never_harmless {d : Delegator} {m : Message} {x a : Str} {w : Worker}
    (h : Stray d m x w a) (now : ℤ) :
    ¬ Harmless d m now := by
  rintro ⟨d', hrun, hreq, -, -⟩
  rcases receiveResult_stray h now with ⟨-, he⟩ | ⟨-, he⟩ | ⟨r, d'', out, hr, he, hreq'⟩
  · rw [he] at hrun; cases hrun
  · rw [he] at hrun; cases hrun
  · -- the request under the empty key is gone, or counts one more result
    rw [he] at hrun
    obtain ⟨rfl, -⟩ := ok_pair_inj hrun
    rw [← hreq, hreq'] at hr
    split at hr
    · rw [getElem?_erase_eq, if_pos rfl] at hr
      cases hr
    · rw [getElem?_insert_eq, if_pos rfl] at hr
      injection hr with hr
      have hn := congrArg Request.nDone hr
      simp only at hn
      omega

/-- The RESULT of the first job of a request. -/
def strayMessage : Message := ⟨[['w']], .result, [['0'], ['y']]⟩

/-- A worker that does not support type 0. -/
def narrowHello : Event := .recv .network ⟨[['w']], .hello, ["1:2".toList]⟩ 0 false

set_option maxRecDepth 8000 in
theorem stray_never_harmless_new_worker : ∃ w wk,
    Reach World.step Admissible (.init 2 0) [helloEvent] w ∧
    Stray w.del strayMessage ['w'] wk ['y'] ∧ ¬ Harmless w.del strayMessage 3 := by
  have h : Reach World.step Admissible (.init 2 0) [] _ := .start
  have h := h.next' (e := helloEvent) (helloEvent_admissible _) (by decide)
  obtain ⟨w, wk, h, hstray⟩ : ∃ w wk, Reach World.step Admissible (.init 2 0) [helloEvent] w ∧
      Stray w.del strayMessage ['w'] wk ['y'] :=
    ⟨_, _, h, rfl, (Option.some_get (by decide)).symm, ['0'], [], rfl, by decide⟩
  exact ⟨w, wk, h, hstray, stray_never_harmless hstray 3⟩

set_option maxRecDepth 8000 in
/-- **A stray result in a run**: the second answer to a job indexes past the end of the results of a
default request; from a worker that does not support type 0 it throws. -/
theorem stray_in_run :
    (∃ w wk, Reach World.step Admissible (.init 2 0)
        [helloEvent, pollEvent, requestEvent, pollEvent, resultEvent ['0'] ['y'], pollEvent] w ∧
      Stray w.del strayMessage ['w'] wk ['y'] ∧ w.del.receiveResult strayMessage 3 = .error .undefined ∧
      ¬ Harmless w.del strayMessage 3) ∧
    ∃ w wk, Reach World.step Admissible (.init 2 0) [narrowHello] w ∧
      Stray w.del strayMessage ['w'] wk ['y'] ∧ w.del.receiveResult strayMessage 3 = .error .exception ∧
      ¬ Harmless w.del strayMessage 3 := by
  have faulty :
      ∀ {d : Delegator} {m : Message} {now : ℤ} {e : Fault}, d.receiveResult m now = .error e →
      d.receiveResult m now = .error e ∧ ¬ Harmless d m now := by
    intro d m now e he
    refine ⟨he, ?_⟩
    rintro ⟨d', hrun, -⟩
    rw [he] at hrun
    cases hrun
  constructor
  · have h : Reach World.step Admissible (.init 2 0) [] _ := .start
    have h := h.next' (e := helloEvent) (helloEvent_admissible _) (by decide)
    have h := h.next' (e := pollEvent) (fun _ => rfl) (by decide)
    have h := h.next' (e := requestEvent) (requestEvent_admissible (by decide)) (by decide)
    have h := h.next' (e := pollEvent) (fun _ => rfl) (by decide)
    have h := h.next' (e := resultEvent ['0'] ['y']) (.inr (by decide)) (by decide)
    have h := h.next' (e := pollEvent) (fun _ => rfl) (by decide)
    exact ⟨_, _, h, ⟨rfl, (Option.some_get (by decide)).symm, ['0'], [], rfl, by decide⟩,
      faulty (by decide)⟩
  · have h : Reach World.step Admissible (.init 2 0) [] _ := .start
    have h := h.next' (e := narrowHello)
      ⟨by decide, "1:2".toList, [], rfl,
        .inr ⟨['1'], ['2'], 1, 2, by decide, by decide, by decide⟩⟩ (by decide)
    exact ⟨_, _, h, ⟨rfl, (Option.some_get (by decide)).symm, ['0'], [], rfl, by decide⟩,
      faulty (by decide)⟩

end Delegator

end Stateline
