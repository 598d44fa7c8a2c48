import Stateline.App.ServerWrapper
import Stateline.Proof.Greedy
import Stateline.Proof.Roster
import Stateline.Proof.Submit

/-!
# Workers for all job types

The number of job types reaches the sampler through the settings of the server, and
the delegator through its own, which are the default ones. A HELLO without job types
stands for all those that the delegator knows.

* `all_supported_iff`: **a worker for all job types can do all of the sampler's jobs**
  exactly when there is one job type, or so many that no request is read.
-/

namespace Stateline

open Std Lib Delegator

namespace ServerWrapper

variable {F : Type} {s : StatelineSettings F} {port workerCount : ℕ} {es : List Event}
    {r : Roster} {m : Message}

/-- The delegator of the server, before any event. -/
def roster (port : ℕ) (s : StatelineSettings F) (workerCount : ℕ) : Roster :=
  ⟨⟨delegator port s workerCount, [], fun _ => 0, fun _ _ => none, [], []⟩, fun _ => []⟩

/-- All requests are those of `runSampler`; workers and polls do what they like. -/
def FromSampler (s : StatelineSettings F) : Event → Prop
  | .recv .requester m _ _ => IsRequest s m
  | _ => True

/-- In every run, a worker that announced the empty string may take every queued job, if it has not too
many jobs. -/
def AllSupported (port : ℕ) (s : StatelineSettings F) : Prop :=
  ∀ workerCount es r, Reach Roster.step (fun _ e => FromSampler s e) (roster port s workerCount) es r →
    ∀ (x : Str) (wk : Worker), r.world.del.workers[x]? = some wk → r.announced x = [] →
      ∀ j ∈ r.world.del.jobQueue, wk.jobTypesRange.1 ≤ j.type ∧ j.type < wk.jobTypesRange.2

/-- The frame of the job types of a request. -/
theorem IsRequest.spec (h : IsRequest s m) : m.address ≠ [] ∧ ∃ frame data,
    m.subject = .request ∧ m.data = [frame, data] ∧
      segments frame ':' = (List.range s.nJobTypes).map toStr := by
  obtain ⟨id, data, requester, sent, hsent, rfl⟩ := h
  obtain ⟨-, -, jtstring, joined, rfl, hseg, -⟩ := Requester.submit_eq_ok hsent
  exact ⟨List.cons_ne_nil _ _, jtstring, joined, rfl, rfl, hseg⟩

/-- The delegator that `ServerWrapper` builds has one job type, whatever the settings are. -/
theorem orderly_of_sampler
    (h : Reach Roster.step (fun _ e => FromSampler s e) (roster port s workerCount) es r) :
    Orderly r.world := by
  have hw : Reach World.step (fun _ e => FromSampler s e) (.init 1 workerCount) es r.world :=
    Roster.world_of_reach h
  exact orderly_of_reach hw

theorem kept_of_sampler
    (h : Reach Roster.step (fun _ e => FromSampler s e) (roster port s workerCount) es r) :
    Roster.Kept 1 r :=
  @Roster.kept_of_reach r es 1 workerCount (fun _ e => FromSampler s e) h

/-- Every outstanding job has one of the types of the sampler, which can all be read. -/
theorem types_lt
    (h : Reach Roster.step (fun _ e => FromSampler s e) (roster port s workerCount) es r) :
    ∀ t ∈ r.world.del.tickets, t.type < s.nJobTypes ∧ s.nJobTypes ≤ 2 ^ 31 := by
  refine h.invariant
    (P := fun _ r => ∀ t ∈ r.world.del.tickets, t.type < s.nJobTypes ∧ s.nJobTypes ≤ 2 ^ 31) ?_ ?_
  · intro t ht
    simp [roster, delegator, ofSettings, Delegator.init, tickets_eq] at ht
  · intro es r e r' hr ih hok hs
    have ho := orderly_of_sampler hr
    obtain ⟨out, hrun⟩ := World.step_handle (Roster.step_eq_some hs).1
    rcases handle_cases ho.sane hrun with ⟨m, now, fails, rfl, hreq⟩ | ⟨m, now, fails, x, v,
      frame, rfl, -, -, hmem, hv, hd⟩ |
      ⟨-, hd⟩
    · obtain ⟨-, frame, data, -, hdata, hseg⟩ := hok.spec
      have hframe : m.data.headD [] = frame := by rw [hdata]; rfl
      have hread := (receiveRequest_eq_ok hreq).1
      rw [hframe, hseg] at hread
      -- the largest of the types was read
      have hle : s.nJobTypes ≤ 2 ^ 31 := by
        by_contra hgt
        have hsome := hread (toStr (2 ^ 31)) (List.mem_map_of_mem (List.mem_range.2 (by omega)))
        rw [stoi_toStr_none le_rfl] at hsome
        cases hsome
      obtain ⟨hworkers, -, -, js, hqueue, htypes, -⟩ := receiveRequest_queued hreq ho.next
      intro t ht
      rw [tickets_requested hworkers hqueue] at ht
      rcases Multiset.mem_add.1 ht with ht | ht
      · exact ih t ht
      · obtain ⟨j, hj, rfl⟩ := List.mem_map.1 (Multiset.mem_coe.1 ht)
        have hmem : j.type ∈ typesOf m := by
          rw [← htypes]
          exact List.mem_map_of_mem hj
        have htypes : ∀ t ∈ List.range s.nJobTypes, t < 2 ^ 31 :=
          fun t ht => (List.mem_range.1 ht).trans_le hle
        rw [mem_typesOf_iff htypes (by rw [hframe, hseg]), List.mem_range] at hmem
        exact ⟨hmem, hle⟩
    · rw [hd, tickets_connected hv hmem]
      exact ih
    · exact fun t ht => ih t (Multiset.mem_of_le hd.tickets ht)

/-- A worker for all job types announces those of a delegator with one. -/
theorem range_of_whole
    (h : Reach Roster.step (fun _ e => FromSampler s e) (roster port s workerCount) es r)
    {x : Str} {wk : Worker} (hwk : r.world.del.workers[x]? = some wk) (hann : r.announced x = []) :
    wk.jobTypesRange = (0, 1) := by
  have hk := kept_of_sampler h
  have hrange := hk.range x wk hwk
  rw [hann, jobTypeRange, if_pos rfl, hk.nJobTypes] at hrange
  injection hrange with hrange
  exact hrange.symm

theorem hello_run :
    ∃ r, (Roster.init 1 0).step helloEvent = some r ∧ (r.world.del.workers[['w']]?).isSome ∧
    r.announced ['w'] = [] :=
  ⟨_, (Option.some_get (by decide)).symm, by decide, by decide⟩

/-- With two job types or more there is a job that a worker for all of them cannot take: the
worker connects, and a request arrives. -/
theorem unsupported_run (port : ℕ) (hn : 2 ≤ s.nJobTypes) (hle : s.nJobTypes ≤ 2 ^ 31) : ∃ m r,
    IsRequest s m ∧
    Reach Roster.step (fun _ e => FromSampler s e) (roster port s 0)
      [helloEvent, .recv .requester m 0 false] r ∧
    ∃ (wk : Worker) (j : Job), r.world.del.workers[['w']]? = some wk ∧ r.announced ['w'] = [] ∧
      wk.jobTypesRange = (0, 1) ∧ j ∈ r.world.del.jobQueue ∧ j.type = 1 := by
  have hne : jobTypes s ≠ [] := by
    rw [jobTypes, Ne, List.range_eq_nil]
    omega
  obtain ⟨x, sent, hsent⟩ : ∃ x sent, Requester.submit 0 (jobTypes s) x = .ok sent :=
    ⟨[⟨0, 0, by norm_num⟩], Requester.submit_returns_iff.2 ⟨hne, List.cons_ne_nil _ _⟩⟩
  obtain ⟨-, -, jtstring, data, rfl, hseg, -⟩ := Requester.submit_eq_ok hsent
  have hm : IsRequest s ⟨[toStr 0, ['s']], .request, [jtstring, data]⟩ :=
    ⟨0, _, ['s'], _, hsent, rfl⟩
  obtain ⟨r, hs, hsome, hann⟩ := hello_run
  have h : Reach Roster.step (fun _ e => FromSampler s e) (roster port s 0) [helloEvent] r :=
    .next .start trivial hs
  obtain ⟨wk, hwk⟩ := Option.isSome_iff_exists.1 hsome
  have htypes : ∀ t ∈ List.range s.nJobTypes, t < 2 ^ 31 :=
    fun t ht => (List.mem_range.1 ht).trans_le hle
  have ho := orderly_of_sampler h
  obtain ⟨w, hs', -, hworkers, js, hqueue, hjs, -⟩ :=
    ho.request (m := ⟨[toStr 0, ['s']], .request, [jtstring, data]⟩) 0 rfl
    (by simp) rfl htypes hseg
  have h' : Reach Roster.step (fun _ e => FromSampler s e) (roster port s 0) _ ⟨w, r.announced⟩ :=
    h.next (show FromSampler s (.recv .requester _ 0 false) from hm)
      (by unfold Roster.step; rw [hs']; rfl)
  -- the job of type 1
  have hone : 1 ∈ js.map Job.type := by
    rw [hjs, mem_typesOf_iff (m := ⟨[toStr 0, ['s']], .request, [jtstring, data]⟩) htypes hseg,
      List.mem_range]
    omega
  obtain ⟨j, hj, htype⟩ := List.mem_map.1 hone
  refine ⟨_, _, hm, h', wk, j, ?_, hann, range_of_whole h hwk hann, ?_, htype⟩
  · show w.del.workers[['w']]? = _
    rw [hworkers, hwk]
  · show j ∈ w.del.jobQueue
    rw [hqueue]
    exact List.mem_append_right _ hj

theorem not_allSupported (port : ℕ) (hn : 2 ≤ s.nJobTypes) (hle : s.nJobTypes ≤ 2 ^ 31) :
    ¬ AllSupported port s := by
  intro hall
  obtain ⟨m, r, -, h, wk, j, hwk, hann, hrange, hj, htype⟩ := unsupported_run port hn hle
  have hlt := (hall 0 _ r h ['w'] wk hwk hann j hj).2
  rw [hrange, htype] at hlt
  exact absurd hlt (lt_irrefl 1)

/-- **A worker for all job types can do all of the sampler's jobs** if and only if there is one
job type, or so many that no request is read. -/
theorem all_supported_iff (port : ℕ) (s : StatelineSettings F) (hn : 1 ≤ s.nJobTypes) :
    AllSupported port s ↔ s.nJobTypes = 1 ∨ 2 ^ 31 < s.nJobTypes := by
  constructor
  · intro hall
    by_contra hne
    exact not_allSupported port (by omega) (by omega) hall
  · intro hone workerCount es r h x wk hwk hann j hj
    have hmem : j.ticket ∈ r.world.del.tickets := mem_tickets.2 ⟨j, mem_outstanding.2 (.inl hj), rfl⟩
    obtain ⟨hlt, hle⟩ := types_lt h j.ticket hmem
    have htype : j.type < s.nJobTypes := hlt
    rw [range_of_whole h hwk hann]
    exact ⟨Nat.zero_le _, by omega⟩

/-- Settings with the given number of job types. -/
def settingsFor (nJobTypes : ℕ) : StatelineSettings ℚ := ⟨1, 2, nJobTypes, 10, 1 / 4, 1 / 2⟩

theorem all_supported_one : AllSupported 5555 (settingsFor 1) :=
  (all_supported_iff 5555 _ (by decide)).2 (.inl rfl)

/-- **The job of type 1 waits for ever**: the server has two job types, a worker for all job
types connects, and a request of the sampler arrives. -/
theorem job_unsupported : (∃ m r, IsRequest (settingsFor 2) m ∧
      Reach Roster.step (fun _ e => FromSampler (settingsFor 2) e) (roster 5555 (settingsFor 2) 0)
        [helloEvent, .recv .requester m 0 false] r ∧
      ∃ (wk : Worker) (j : Job), r.world.del.workers[['w']]? = some wk ∧ r.announced ['w'] = [] ∧
        wk.jobTypesRange = (0, 1) ∧ j ∈ r.world.del.jobQueue ∧ j.type = 1) ∧
    ¬ AllSupported 5555 (settingsFor 2) :=
  ⟨unsupported_run 5555 (by decide) (by decide), not_allSupported 5555 (by decide) (by decide)⟩

end ServerWrapper

end Stateline
