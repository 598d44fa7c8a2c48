import Stateline.Proof.Failed

/-!
# What a poll hands out

A poll goes through the queue once. A job that finds no worker is not looked at
again, and need not be: the workers only get more jobs while the poll goes on.

* `Outcome`: the queue is what was left, in its order; the jobs handed out were sent once each,
  and are at their workers; of two jobs of a type, the earlier one goes first; and no job that
  was left fits a worker.
* `polls_greedily_iff`: **a poll hands out as much as possible**, unless it hands a job to a
  worker that has one under the same id.
* `id_repeats_in_run`: after `2 ^ 32` jobs the ids start again at 0.
-/

namespace Stateline

open Std Lib Delegator

namespace Delegator

/-- The jobs handed out, with their workers. -/
def handed (log : List (Job × Option Str)) : List (Job × Str) :=
  log.filterMap fun p => p.2.map fun x => (p.1, x)

/-- The job was sent, with the data of its request, to a worker that holds it. -/
def SentTo (d d' : Delegator) (clock : Str → ℤ) (p : Job × Str) (s : Send) : Prop :=
  ∃ w : Worker, d'.workers[p.2]? = some w ∧
    w.workInProgress[p.1.id]? = some { p.1 with startTime := clock p.1.id } ∧
    s = ⟨.network, ⟨w.address, .job, [toStr p.1.type, p.1.id, d.dataFor p.1]⟩⟩

/-- A poll led from `d` to `d'` and sent `out`, where `log` has the worker that each queued job was
handed to, if any. -/
structure Outcome (d d' : Delegator) (clock : Str → ℤ) (out : List Send)
    (log : List (Job × Option Str)) : Prop where
  jobs : log.map Prod.fst = d.jobQueue
  left : d'.jobQueue = (log.filter fun p => p.2.isNone).map Prod.fst
  sent : List.Forall₂ (SentTo d d' clock) (handed log) out
  ordered : log.Pairwise fun p q => p.1.type = q.1.type → q.2.isSome → p.2.isSome
  maximal : ∀ j ∈ d'.jobQueue, ∀ (x : Str) (w : Worker), d'.workers[x]? = some w →
    ¬ w.Eligible j.type 10

/-- The poll hands out as much as possible, in order. Jobs under one id count each. -/
def PollsGreedily (d : Delegator) (clock : Str → ℤ) (fails : Str → Bool) : Prop :=
  ∃ d' out log, d.onPoll clock fails = .ok (d', out) ∧ d'.tickets = d.tickets ∧
    Outcome d d' clock out log

/-- No estimate that the poll makes is the sentinel of `bestWorker`. -/
def NoSentinel (d : Delegator) (clock : Str → ℤ) : Prop :=
  ∀ p ∈ rounds clock { d with jobQueue := [] } d.jobQueue, ∀ (x : Str) (w : Worker),
    p.1.workers[x]? = some w →
    w.Eligible p.2.type 10 → usTillDone w p.2.type ≠ .ok (2 ^ 32 - 1)

variable {d d' : Delegator} {clock : Str → ℤ} {fails : Str → Bool} {i : Job} {w w' : Worker} {t : ℕ}

/-! ## A round -/

theorem Sane.grown (hd : d.Sane) (hok : d'.WorkersOK) (hg : Grown d d') : d'.Sane := by
  refine ⟨hok, ?_⟩
  intro x w' hw'
  obtain ⟨w, hw, hmore⟩ := hg.worker x w' hw'
  unfold Worker.Full
  rw [hmore.times]
  exact hd.full x w hw

/-- A worker that may take a job later in a poll could have taken it before. -/
theorem Worker.Eligible.of_more (he : w'.Eligible t 10) (hm : w.More w') : w.Eligible t 10 := by
  refine ⟨?_, ?_, hm.size.trans_lt he.2.2⟩
  · rw [← hm.range]
    exact he.1
  · rw [← hm.range]
    exact he.2.1

/-- A job that no worker takes fits no worker. -/
theorem not_eligible_of_left (hd : d.Sane)
    (hs : ∀ (x : Str) (w : Worker), d.workers[x]? = some w → w.Eligible i.type 10 →
      usTillDone w i.type ≠ .ok (2 ^ 32 - 1))
    (h : d.taker i = none) (x : Str) (w : Worker) (hw : d.workers[x]? = some w) :
      ¬ w.Eligible i.type 10 := by
  intro he
  rcases taker_cases hd.workers i with ⟨hbest, -⟩ | ⟨y, v, -, htaker, -⟩
  · rcases bestWorker_cases hd.timed i.type 10 with ⟨-, hall⟩ | ⟨y, v, hsome, -⟩
    · have htimed := hd.timed x w hw
      apply hs x w hw he
      rw [usTillDone_estimate htimed (htimed.range _ he.1 he.2.1), hall x w hw he]
    · rw [hbest] at hsome
      cases hsome
  · rw [h] at htaker
    cases htaker

/-! ## The log -/

/-- The jobs of the rounds, with their takers. -/
def logOf (rs : List (Delegator × Job)) : List (Job × Option Str) :=
  rs.map fun p => (p.2, (p.1.taker p.2).map Prod.fst)

/-- The jobs handed out and the sends go together. -/
theorem sent_logOf {rs : List (Delegator × Job)} {R : Job × Str → Send → Prop}
    (h : ∀ p ∈ rs, ∀ x w, p.1.taker p.2 = some (x, w) →
      R (p.2, x) ⟨.network, ⟨w.address, .job, [toStr p.2.type, p.2.id, p.1.dataFor p.2]⟩⟩) :
    List.Forall₂ R (handed (logOf rs)) (rs.flatMap fun p => p.1.roundSends p.2) := by
  induction rs with
  | nil => exact List.Forall₂.nil
  | cons p rs ih =>
    have ih := ih fun q hq => h q (List.mem_cons_of_mem _ hq)
    unfold handed logOf at ih ⊢
    rw [List.map_cons, List.filterMap_cons, List.flatMap_cons]
    unfold roundSends
    cases htaker : p.1.taker p.2 with
    | none => exact ih
    | some q => exact List.Forall₂.cons (h p List.mem_cons_self q.1 q.2 htaker) ih

theorem left_logOf (rs : List (Delegator × Job)) :
    ((logOf rs).filter fun p => p.2.isNone).map Prod.fst =
      (rs.filter fun p => (p.1.taker p.2).isNone).map Prod.snd := by
  induction rs with
  | nil => rfl
  | cons p rs ih =>
    unfold logOf at ih ⊢
    rw [List.map_cons, List.filter_cons, List.filter_cons]
    cases htaker : p.1.taker p.2 with
    | none => simpa using ih
    | some q => simpa using ih

/-! ## The whole poll -/

/-- What the rounds of a poll do when no estimate is the sentinel. -/
theorem outcome_rounds (hd : d.Sane) (hs : d.NoSentinel clock)
    (hfresh : ∀ p ∈ rounds clock { d with jobQueue := [] } d.jobQueue, RoundFresh p) :
    Outcome d (d.jobQueue.foldl (round clock) { d with jobQueue := [] }) clock
      ((rounds clock { d with jobQueue := [] } d.jobQueue).flatMap fun p => p.1.roundSends p.2)
      (logOf (rounds clock { d with jobQueue := [] } d.jobQueue)) := by
  set d₀ : Delegator := { d with jobQueue := [] }
  have hsane : d₀.Sane := ⟨hd.workers, hd.full⟩
  set d' := d.jobQueue.foldl (round clock) d₀ with hd'
  set rs := rounds clock d₀ d.jobQueue with hrs
  obtain ⟨-, -, hall, hpair⟩ := rounds_grown hsane.workers clock d.jobQueue
  rw [← hrs, ← hd'] at hall
  rw [← hrs] at hpair
  have hround : ∀ p ∈ rs, p.1.Sane := fun p hp => hsane.grown (hall p hp).1 (hall p hp).2.1
  have hleft : d'.jobQueue = (rs.filter fun p => (p.1.taker p.2).isNone).map Prod.snd := by
    rw [hd', jobQueue_rounds]
    rfl
  refine ⟨?_, ?_, ?_, ?_, ?_⟩
  · unfold logOf
    rw [List.map_map]
    exact rounds_jobs clock d₀ d.jobQueue
  · rw [left_logOf, hleft]
  · apply sent_logOf
    intro p hp x w htaker
    -- the worker has the job after its round, and keeps it
    obtain ⟨-, hbefore, hafter⟩ := hall p hp
    obtain ⟨w', hw', hmore⟩ :=
      hafter.kept x (w.take p.2 (clock p.2.id))
      (by rw [round_taken htaker, getElem?_insert_eq, if_pos rfl])
    refine ⟨w', hw', ?_, ?_⟩
    · apply hmore.kept
      unfold Worker.take
      rw [insertIfNew_of_not_mem (hfresh p hp x w htaker), getElem?_insert_eq, if_pos rfl]
    · rw [hmore.address, hbefore.data]
      rfl
  · unfold logOf
    rw [List.pairwise_map]
    refine hpair.imp_of_mem ?_
    intro p q hp hq hgrown htype hsome
    -- the taker of the later job could have taken the earlier one
    dsimp only at htype hsome ⊢
    rw [Option.isSome_map] at hsome ⊢
    obtain ⟨⟨x, w'⟩, htaker⟩ := Option.isSome_iff_exists.1 hsome
    obtain ⟨hw', he⟩ := eligible_of_taker (hround q hq).workers htaker
    obtain ⟨w, hw, hmore⟩ := hgrown.worker x w' hw'
    rw [← htype] at he
    by_contra hnone
    rw [Option.not_isSome_iff_eq_none] at hnone
    exact not_eligible_of_left (hround p hp) (hs p hp) hnone x w hw (he.of_more hmore)
  · intro j hj x w' hw' he
    rw [hleft, List.mem_map] at hj
    obtain ⟨p, hp, rfl⟩ := hj
    obtain ⟨hp, hnone⟩ := List.mem_filter.1 hp
    rw [Option.isNone_iff_eq_none] at hnone
    obtain ⟨-, -, hafter⟩ := hall p hp
    obtain ⟨w, hw, hmore⟩ := hafter.worker x w' hw'
    rw [round_left hnone] at hw
    exact not_eligible_of_left (hround p hp) (hs p hp) hnone x w hw (he.of_more hmore)

/-- **A poll hands out as much as possible** if and only if no job is handed to a worker that has one
under the same id. -/
theorem pollsGreedily_iff (hd : d.Sane) (hf : ∀ id, fails id = false) (hs : d.NoSentinel clock) :
    d.PollsGreedily clock fails ↔ ∀ p ∈ rounds clock { d with jobQueue := [] } d.jobQueue,
      RoundFresh p := by
  constructor
  · rintro ⟨d', out, log, hrun, ht, -⟩
    rw [onPoll_eq_ok hd.workers hrun, ← tickets_onPoll d] at ht
    exact (tickets_rounds_iff (d := { d with jobQueue := [] }) hd.workers clock d.jobQueue).1 ht
  · intro hfresh
    have hsent : ∀ p ∈ rounds clock { d with jobQueue := [] } d.jobQueue, (p.1.taker p.2).isSome →
        fails p.2.id = false :=
      fun p _ _ => hf p.2.id
    have hrun := pollLoop_sent (d := { d with jobQueue := [] }) hd.workers hsent
    refine ⟨_, _, _, hrun, ?_, outcome_rounds hd hs hfresh⟩
    rw [(tickets_rounds_iff
      (d := { d with jobQueue := [] }) hd.workers clock d.jobQueue).2 hfresh, tickets_onPoll]

/-- It is enough to look at the entries of the tables. -/
theorem noSentinel_of_toList
    (h : ∀ p ∈ rounds clock { d with jobQueue := [] } d.jobQueue, ∀ q ∈ p.1.workers.toList,
    q.2.Eligible p.2.type 10 → usTillDone q.2 p.2.type ≠ .ok (2 ^ 32 - 1)) : d.NoSentinel clock :=
  fun p hp x w hw => h p hp (x, w) (ExtTreeMap.mem_toList_iff_getElem?_eq_some.2 hw)

end Delegator

variable {w : World} {es : List Event} {nJobTypes workerCount : ℕ}

/-- **A poll hands out as much as possible** if and only if it hands no job to a worker that
has one under the same id. Before `2 ^ 32` jobs were created it does not. -/
theorem polls_greedily_iff (h : Reach World.step (fun _ _ => True) (.init nJobTypes workerCount) es w)
    {clock : Str → ℤ} {fails : Str → Bool} (hf : ∀ id, fails id = false) (hs : w.del.NoSentinel clock) :
    (w.del.PollsGreedily clock fails ↔
      ∀ p ∈ rounds clock { w.del with jobQueue := [] } w.del.jobQueue, ∀ x wk,
        p.1.taker p.2 = some (x, wk) →
        p.2.id ∉ wk.workInProgress) ∧
    (w.created ≤ 2 ^ 32 → w.del.PollsGreedily clock fails) := by
  have ho := orderly_of_reach h
  have hiff := pollsGreedily_iff ho.sane hf hs
  exact ⟨hiff, fun hc => hiff.2 (ho.roundFresh hc clock)⟩

set_option maxRecDepth 8000 in
theorem polls_greedily_iff_run : ∃ es w, es = [helloOneEvent, requestEvent] ∧
    Reach World.step (fun _ _ => True) (.init 2 0) es w ∧
    w.del.PollsGreedily (fun _ => 1) fun _ => false := by
  have h : Reach World.step (fun _ _ => True) (.init 2 0) [] _ := .start
  have h := h.next' (e := helloOneEvent) trivial (by decide)
  have h := h.next' (e := requestEvent) trivial (by decide)
  exact ⟨_, _, rfl, h, (polls_greedily_iff h (fun _ => rfl) (noSentinel_of_toList (by decide))).2
    (by decide)⟩

/-! ## Ids that repeat -/

/-- A request queues its jobs under the next ids. -/
theorem Orderly.request (ho : Orderly w) {m : Message} {frame data : Str} {rest : List Str}
    {ts : List ℕ} (now : ℤ) (hsub : m.subject = .request) (haddr : m.address ≠ [])
    (hdata : m.data = frame :: data :: rest) (hts : ∀ t ∈ ts, t < 2 ^ 31)
    (hseg : segments frame ':' = ts.map toStr) :
    ∃ w', w.step (.recv .requester m now false) = some w' ∧
      w'.created = w.created + (typesOf m).length ∧
      w'.del.workers = w.del.workers ∧ ∃ js : List Job, w'.del.jobQueue = w.del.jobQueue ++ js ∧
        js.map Job.type = typesOf m ∧
        js.map Job.id = (List.range' w.created (typesOf m).length).map fun k => toStr (k % 2 ^ 32) := by
  have hrun := receiveRequest_run (d := w.del) haddr (by rw [hdata]; simp) hts
    (by rw [hdata]; exact hseg)
  have hstep : ∃ w', w.step (.recv .requester m now false) = some w' ∧
      w.del.receiveRequest m = .ok w'.del := by
    unfold World.step handle
    simp only [hsub, hrun, ok_bind]
    exact ⟨_, rfl, rfl⟩
  obtain ⟨w', hs, hreq⟩ := hstep
  obtain ⟨hworkers, -, -, js, hqueue, htypes, hids⟩ := receiveRequest_queued hreq ho.next
  exact ⟨w', hs, created_step hs, hworkers, js, hqueue, htypes, hids⟩

/-- Jobs that fit no worker stay queued. -/
theorem Delegator.foldl_round_left {d : Delegator} (hd : d.WorkersOK) (clock : Str → ℤ) {js : List Job}
    (h : ∀ j ∈ js, ∀ (x : Str) (v : Worker), d.workers[x]? = some v → ¬ v.Eligible j.type 10) :
    js.foldl (round clock) d = { d with jobQueue := d.jobQueue ++ js } := by
  induction js generalizing d with
  | nil => simp
  | cons i js ih =>
    have hnone : d.taker i = none := by
      rcases taker_cases hd i with ⟨-, hnone⟩ | ⟨x, v, -, -, hv, he⟩
      · exact hnone
      · exact absurd he (h i List.mem_cons_self x v hv)
    rw [List.foldl_cons, round_left hnone,
      ih (d := { d with jobQueue := d.jobQueue ++ [i] }) hd fun j hj => h j (List.mem_cons_of_mem _ hj)]
    simp

theorem Delegator.rounds_append (clock : Str → ℤ) (d : Delegator) (js ks : List Job) :
    rounds clock d (js ++ ks) = rounds clock d js ++ rounds clock (js.foldl (round clock) d) ks := by
  induction js generalizing d with
  | nil => rfl
  | cons i js ih => rw [List.cons_append, rounds, ih, rounds, List.foldl_cons, List.cons_append]

/-- The HELLO of a worker for the jobs of type 0. -/
def helloZeroEvent : Event := .recv .network ⟨[['w']], .hello, ["0:1".toList]⟩ 0 false

/-- A request for one job of type 0. -/
def zeroEvent (requester : Str) : Event :=
  .recv .requester ⟨[requester], .request, [['0'], ['x']]⟩ 0 false

/-- A request, under the number `k`, for one job of type 1. -/
def oneEvent (k : ℕ) : Event := .recv .requester ⟨[toStr k, ['s']], .request, [['1'], ['x']]⟩ 0 false

/-- Requests for jobs that no worker supports. -/
theorem pile_up {w : World} {es : List Event}
    (h : Reach World.step (fun _ _ => True) (.init 2 0) es w) (n : ℕ) :
    ∃ w', Reach World.step (fun _ _ => True) (.init 2 0) (es ++ (List.range n).map oneEvent) w' ∧
      w'.created = w.created + n ∧ w'.del.workers = w.del.workers ∧
      ∃ js : List Job, w'.del.jobQueue = w.del.jobQueue ++ js ∧ ∀ j ∈ js, j.type = 1 := by
  induction n with
  | zero => exact ⟨w, by simpa using h, rfl, rfl, [], by simp, List.forall_mem_nil _⟩
  | succ n ih =>
    obtain ⟨v, hv, hcreated, hworkers, js, hqueue, htype⟩ := ih
    have hone : typesOf ⟨[toStr n, ['s']], .request, [['1'], ['x']]⟩ = [1] := by
      show typesOf ⟨[], .request, [['1'], ['x']]⟩ = [1]
      decide
    obtain ⟨v', hs, hcreated', hworkers', ks, hqueue', htypes, -⟩ := (orderly_of_reach hv).request
      (m := ⟨[toStr n, ['s']], .request, [['1'], ['x']]⟩) 0 rfl (by simp) rfl (show ∀ t ∈ [1],
        t < 2 ^ 31 by decide) (by decide)
    rw [hone] at hcreated' htypes
    refine ⟨v', ?_, ?_, hworkers'.trans hworkers, js ++ ks, ?_, ?_⟩
    · rw [List.range_succ, List.map_append, ← List.append_assoc]
      exact .next hv trivial hs
    · rw [hcreated', hcreated]
      rfl
    · rw [hqueue', hqueue, List.append_assoc]
    · intro j hj
      rcases List.mem_append.1 hj with hj | hj
      · exact htype j hj
      · have hmem : j.type ∈ ks.map Job.type := List.mem_map_of_mem hj
        rw [htypes] at hmem
        exact List.mem_singleton.1 hmem

/-- The worker with the first job. -/
def busyWorker : Worker :=
  ⟨[['w']], (0, 1), (∅ : ExtTreeMap Str Job).insert ['0'] ⟨0, ['0'], ['r'], 0, 1⟩,
    (∅ : ExtTreeMap ℕ (CircularBuffer ℕ)).insert 0 (.ofSize 10), 0⟩

set_option maxRecDepth 8000 in
theorem busy_run : ∃ w, Reach World.step (fun _ _ => True) (.init 2 0)
    [helloZeroEvent, zeroEvent ['r'], pollEvent] w ∧
    w.created = 1 ∧ w.del.jobQueue = [] ∧
      w.del.workers = (∅ : ExtTreeMap Str Worker).insert ['w'] busyWorker := by
  have h : Reach World.step (fun _ _ => True) (.init 2 0) [] _ := .start
  have h := h.next' (e := helloZeroEvent) trivial (by decide)
  have h := h.next' (e := zeroEvent ['r']) trivial (by decide)
  have h := h.next' (e := pollEvent) trivial (by decide)
  exact ⟨_, h, by decide, by decide, by decide⟩

/-- A delegator whose only worker is the busy one, with a job for it at the end of its queue. -/
theorem Delegator.busy_poll {d : Delegator} (hd : d.Sane)
    (hworkers : d.workers = (∅ : ExtTreeMap Str Worker).insert ['w'] busyWorker)
    {js : List Job} {j : Job} (hqueue : d.jobQueue = js ++ [j]) (hone : ∀ i ∈ js, i.type = 1)
    (htype : j.type = 0) (hid : j.id = ['0']) (clock : Str → ℤ) :
    d.NoSentinel clock ∧ ∃ p ∈ rounds clock { d with jobQueue := [] } d.jobQueue, ¬ RoundFresh p := by
  have honly : ∀ (x : Str) (v : Worker), d.workers[x]? = some v → x = ['w'] ∧ v = busyWorker := by
    intro x v hv
    rw [hworkers, getElem?_insert_eq] at hv
    split at hv
    · rename_i hx
      injection hv with hv
      exact ⟨hx.symm, hv.symm⟩
    · simp at hv
  set d₀ : Delegator := { d with jobQueue := [] }
  have hok : d₀.WorkersOK := hd.workers
  have hleft : js.foldl (round clock) d₀ = { d₀ with jobQueue := d₀.jobQueue ++ js } := by
    apply foldl_round_left hok
    intro i hi x v hv he
    rw [(honly x v hv).2, hone i hi] at he
    exact absurd he (by decide)
  rw [hqueue]
  unfold NoSentinel
  rw [hqueue, rounds_append, hleft]
  set d₁ : Delegator := { d₀ with jobQueue := d₀.jobQueue ++ js }
  have hd₁ : d₁.Sane := ⟨hd.workers, hd.full⟩
  have hestimate : usTillDone busyWorker 0 ≠ .ok (2 ^ 32 - 1) := by decide
  have hlast : ∀ (x : Str) (v : Worker), d₁.workers[x]? = some v → v.Eligible j.type 10 →
      usTillDone v j.type ≠ .ok (2 ^ 32 - 1) := by
    intro x v hv _
    rw [(honly x v hv).2, htype]
    exact hestimate
  refine ⟨?_, (d₁, j), List.mem_append_right _ List.mem_cons_self, ?_⟩
  · intro p hp x v hv he
    rcases List.mem_append.1 hp with hp | hp
    · -- the worker has kept its range
      have hi : p.2 ∈ js := by
        rw [← rounds_jobs clock d₀ js]
        exact List.mem_map_of_mem hp
      obtain ⟨u, hu, hmore⟩ := ((rounds_grown hok clock js).2.2.1 p hp).2.1.worker x v hv
      have he := he.of_more hmore
      rw [(honly x u hu).2, hone p.2 hi] at he
      exact absurd he (by decide)
    · rw [List.mem_singleton.1 hp] at hv he ⊢
      exact hlast x v hv he
  · intro hfresh
    rcases taker_cases hd₁.workers j with ⟨-, hnone⟩ | ⟨x, v, -, htaker, hv, -⟩
    · refine not_eligible_of_left hd₁ hlast hnone ['w'] busyWorker ?_ ?_
      · show d.workers[['w']]? = _
        rw [hworkers, getElem?_insert_eq, if_pos rfl]
      · rw [htype]
        decide
    · have hmem := hfresh x v htaker
      rw [(honly x v hv).2, hid] at hmem
      exact hmem (by decide)

/-- **The job is not at its worker**: the first job is in progress when, after `2 ^ 32 - 1` more, a job
under its id is handed to the same worker. -/
theorem id_repeats_in_run : ∃ es w, es = [helloZeroEvent, zeroEvent ['r'], pollEvent] ++
      (List.range (2 ^ 32 - 1)).map oneEvent ++ [zeroEvent ['t']] ∧
    Reach World.step (fun _ _ => True) (.init 2 0) es w ∧ w.del.NoSentinel (fun _ => 2) ∧
    ¬ w.del.PollsGreedily (fun _ => 2) fun _ => false := by
  obtain ⟨u, hu, hcreated₀, hqueue₀, hworkers₀⟩ := busy_run
  obtain ⟨v, hv, hcreated, hworkers, js, hqueue, hone⟩ := pile_up hu (2 ^ 32 - 1)
  obtain ⟨w, hs, -, hworkers', ks, hqueue', htypes, hids⟩ := (orderly_of_reach hv).request
    (m := ⟨[['t']], .request, [['0'], ['x']]⟩) 0 rfl (by simp) rfl (show ∀ t ∈ [0],
      t < 2 ^ 31 by decide) (by decide)
  have hw : Reach World.step (fun _ _ => True) (.init 2 0) _ w := .next hv trivial hs
  have hsane := (orderly_of_reach hw).sane
  rw [show typesOf ⟨[['t']], .request, [['0'], ['x']]⟩ = [0] by decide] at htypes hids
  obtain ⟨j, rfl, htype⟩ := List.map_eq_singleton_iff.1 htypes
  -- the last job is under the id 0 again
  have hid : j.id = ['0'] := by
    rw [hcreated, hcreated₀] at hids
    exact (List.cons.inj hids).1
  rw [hqueue, hqueue₀, List.nil_append] at hqueue'
  obtain ⟨hno, p, hp, hlost⟩ :=
    busy_poll hsane (hworkers'.trans (hworkers.trans hworkers₀)) hqueue' hone htype hid fun _ => 2
  refine ⟨_, w, rfl, hw, hno, ?_⟩
  intro hgreedy
  exact hlost ((pollsGreedily_iff hsane (fun _ => rfl) hno).1 hgreedy p hp)

end Stateline
