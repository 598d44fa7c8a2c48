import Stateline.Proof.Best

/-!
# Polls, round by round

The loop of `onPoll` as a sequence of rounds, one for each queued job. A round hands
its job to the worker that `bestWorker` finds in the state it meets, or leaves it in
the queue.

* `rounds`: the state that each job meets, as long as no send fails.
* `pollLoop_sent`, `pollLoop_failed`: the loop does what the rounds do, unless a send
  fails; then it goes on with a worker that is gone.
* `Grown`: what only grows from round to round.
* `onPoll_spec`: a poll with no failed send sends some queued jobs and moves them
  to their workers; no job appears or is lost.
-/

namespace Stateline

open Std Lib

namespace Delegator

/-! ## Rounds -/

/-- The worker that the loop of `onPoll` hands the job `i` to. -/
def taker (d : Delegator) (i : Job) : Option (Str × Worker) :=
  match d.bestWorker i.type 10 with
  | .ok (some x) => d.workers[x]?.map fun w => (x, w)
  | _ => none

/-- The worker with one more job in progress. -/
def Worker.take (w : Worker) (i : Job) (time : ℤ) : Worker :=
  { w with workInProgress := w.workInProgress.insertIfNew i.id { i with startTime := time } }

/-- A round for the job `i`, when its send succeeds. -/
def round (clock : Str → ℤ) (d : Delegator) (i : Job) : Delegator :=
  match d.taker i with
  | some (x, w) =>
    { d with
      requests := (subscript d.requests i.requesterID).2
      workers := d.workers.insert x (w.take i (clock i.id)) }
  | none => { d with jobQueue := d.jobQueue ++ [i] }

/-- The data frame of the request of a job. -/
def dataFor (d : Delegator) (i : Job) : Str := (subscript d.requests i.requesterID).1.data

/-- What a round sends. -/
def roundSends (d : Delegator) (i : Job) : List Send :=
  match d.taker i with
  | some (_, w) => [⟨.network, ⟨w.address, .job, [toStr i.type, i.id, d.dataFor i]⟩⟩]
  | none => []

/-- The rounds of the loop: each job, with the state it meets. -/
def rounds (clock : Str → ℤ) : Delegator → List Job → List (Delegator × Job)
  | _, [] => []
  | d, i :: rest => (d, i) :: rounds clock (d.round clock i) rest

variable {clock : Str → ℤ} {fails : Str → Bool} {d d' : Delegator} {i : Job} {js : List Job}
    {x : Str} {w : Worker}
  {p : Delegator × Job}

theorem round_left (h : d.taker i = none) :
    d.round clock i = { d with jobQueue := d.jobQueue ++ [i] } := by
  unfold round
  rw [h]

theorem round_taken (h : d.taker i = some (x, w)) : d.round clock i = { d with
    requests := (subscript d.requests i.requesterID).2
    workers := d.workers.insert x (w.take i (clock i.id)) } := by
  unfold round
  rw [h]

theorem rounds_jobs (clock : Str → ℤ) (d : Delegator) (js : List Job) :
    (rounds clock d js).map Prod.snd = js := by
  induction js generalizing d with
  | nil => rfl
  | cons i js ih => rw [rounds, List.map_cons, ih]

/-- Whom a round hands its job to. -/
theorem taker_cases (hd : d.WorkersOK) (i : Job) :
    (d.bestWorker i.type 10 = .ok none ∧ d.taker i = none) ∨
      ∃ (x : Str) (w : Worker), d.bestWorker i.type 10 = .ok (some x) ∧ d.taker i = some (x, w) ∧
        d.workers[x]? = some w ∧ w.Eligible i.type 10 := by
  obtain ⟨o, ho, hel⟩ := bestWorker_ok hd i.type 10
  unfold taker
  cases o with
  | none => exact .inl ⟨ho, by rw [ho]⟩
  | some x =>
    obtain ⟨w, hw, he⟩ := hel x rfl
    refine .inr ⟨x, w, ho, ?_, hw, he⟩
    rw [ho]
    simp only [hw, Option.map_some]

theorem eligible_of_taker (hd : d.WorkersOK) (h : d.taker i = some (x, w)) :
    d.workers[x]? = some w ∧ w.Eligible i.type 10 := by
  rcases taker_cases hd i with ⟨-, hnone⟩ | ⟨x', w', -, hsome, hw, he⟩
  · rw [hnone] at h
    cases h
  · rw [hsome] at h
    cases h
    exact ⟨hw, he⟩

/-- A worker that may take a job stays well formed with it. -/
theorem Worker.OK.take' (hw : Worker.OK x w) (he : w.Eligible i.type 10) (time : ℤ) :
    Worker.OK x (w.take i time) := by
  unfold Worker.take
  by_cases hmem : i.id ∈ w.workInProgress
  · -- a job under the same id is in progress, and stays
    have hsame : w.workInProgress.insertIfNew i.id { i with startTime := time } = w.workInProgress := by
      apply ExtTreeMap.ext_getElem?
      intro k
      rw [ExtTreeMap.getElem?_insertIfNew]
      split
      · rename_i hk
        rw [LawfulEqCmp.compare_eq_iff_eq] at hk
        exact absurd hmem (hk.1 ▸ hk.2)
      · rfl
    rw [hsame]
    exact hw
  · rw [insertIfNew_of_not_mem hmem]
    exact hw.take (i := { i with startTime := time }) he

theorem round_workersOK (hd : d.WorkersOK) (clock : Str → ℤ) (i : Job) :
    (d.round clock i).WorkersOK := by
  unfold round
  split
  · rename_i x w htaker
    obtain ⟨hw, he⟩ := eligible_of_taker hd htaker
    exact All.insert hd ((hd x w hw).take' he _)
  · exact hd

/-! ## The loop -/

/-- A dispatch, by the outcome of its send. -/
theorem dispatch_eq (hw : d.workers[x]? = some w) (haddr : w.address.head? = some x) :
    d.dispatch clock fails x i = if fails i.id then .error .undefined else
      .ok ({ d with
          requests := (subscript d.requests i.requesterID).2
          workers := d.workers.insert x (w.take i (clock i.id)) },
        [⟨.network, ⟨w.address, .job, [toStr i.type, i.id, d.dataFor i]⟩⟩]) := by
  unfold dispatch
  simp only [hw, ok_bind]
  cases hf : fails i.id with
  | false =>
    simp only [Bool.false_eq_true, if_false]
    rfl
  | true =>
    -- the fallback erases the worker
    obtain ⟨tl, htl⟩ := List.head?_eq_some_iff.1 haddr
    simp only [if_true, sendFailed, disconnectWorker, front_of_cons htl, ok_bind, hw, pure, Except.pure,
      getElem?_erase_eq, error_bind]

/-- **The loop, when no send of it fails**, does what its rounds do. -/
theorem pollLoop_sent (hd : d.WorkersOK)
    (hf : ∀ p ∈ rounds clock d js, (p.1.taker p.2).isSome → fails p.2.id = false) :
    pollLoop clock fails 10 d js =
      .ok (js.foldl (round clock) d, (rounds clock d js).flatMap fun p => p.1.roundSends p.2) := by
  induction js generalizing d with
  | nil => rfl
  | cons i js ih =>
    have ih := ih (round_workersOK hd clock i) fun p hp => hf p (List.mem_cons_of_mem _ hp)
    rw [pollLoop, List.foldl_cons, rounds, List.flatMap_cons]
    rcases taker_cases hd i with ⟨hbest, htaker⟩ | ⟨x, w, hbest, htaker, hw, -⟩
    · rw [round_left htaker] at ih ⊢
      rw [hbest, ok_bind, ih]
      simp only [roundSends, htaker, List.nil_append]
    · have hsent : fails i.id = false := hf (d, i) List.mem_cons_self (by rw [htaker]; rfl)
      rw [hbest, ok_bind]
      simp only [dispatch_eq hw (hd x w hw).front, hsent, Bool.false_eq_true, if_false, ok_bind]
      rw [← round_taken htaker, ih]
      simp only [roundSends, htaker, ok_bind]
      rfl

/-- **The loop, when a send of it fails**, reads a worker that is gone. -/
theorem pollLoop_failed (hd : d.WorkersOK)
    (hf : ∃ p ∈ rounds clock d js, (p.1.taker p.2).isSome ∧ fails p.2.id = true) :
    pollLoop clock fails 10 d js = .error .undefined := by
  obtain ⟨p, hp, htaken, hfail⟩ := hf
  induction js generalizing d with
  | nil => cases hp
  | cons i js ih =>
    have hrest : p ≠ (d, i) → p ∈ rounds clock (d.round clock i) js := (List.mem_cons.1 hp).resolve_left
    rw [pollLoop]
    rcases taker_cases hd i with ⟨hbest, htaker⟩ | ⟨x, w, hbest, htaker, hw, -⟩
    · have hne : p ≠ (d, i) := by
        rintro rfl
        rw [htaker] at htaken
        cases htaken
      have ih := ih (round_workersOK hd clock i) (hrest hne)
      rw [hbest, ok_bind]
      rwa [round_left htaker] at ih
    · rw [hbest, ok_bind]
      simp only [dispatch_eq hw (hd x w hw).front]
      cases hi : fails i.id with
      | true => rfl
      | false =>
        have hne : p ≠ (d, i) := by
          rintro rfl
          rw [hi] at hfail
          cases hfail
        have ih := ih (round_workersOK hd clock i) (hrest hne)
        rw [round_taken htaker] at ih
        simp only [Bool.false_eq_true, if_false, ok_bind, ih]
        rfl

/-! ## What grows -/

/-- The worker later in a poll: it has kept its jobs, and may have more of them. -/
structure Worker.More (w w' : Worker) : Prop where
  address : w'.address = w.address
  range : w'.jobTypesRange = w.jobTypesRange
  times : w'.times = w.times
  size : w.workInProgress.size ≤ w'.workInProgress.size
  kept : ∀ (k : Str) (j : Job), w.workInProgress[k]? = some j → w'.workInProgress[k]? = some j

/-- The state later in a poll: the same workers with more jobs, and the same requests. -/
structure Grown (d d' : Delegator) : Prop where
  worker : ∀ (x : Str) (w' : Worker), d'.workers[x]? = some w' → ∃ w : Worker,
    d.workers[x]? = some w ∧ w.More w'
  kept : ∀ (x : Str) (w : Worker), d.workers[x]? = some w → ∃ w' : Worker,
    d'.workers[x]? = some w' ∧ w.More w'
  data : ∀ i, d'.dataFor i = d.dataFor i
  nextJobId : d'.nextJobId = d.nextJobId
  nJobTypes : d'.nJobTypes = d.nJobTypes

theorem Worker.More.refl (w : Worker) : w.More w := ⟨rfl, rfl, rfl, le_rfl, fun _ _ h => h⟩

theorem Worker.More.trans {w₁ w₂ w₃ : Worker} (h₁ : w₁.More w₂) (h₂ : w₂.More w₃) : w₁.More w₃ :=
  ⟨h₂.address.trans h₁.address, h₂.range.trans h₁.range, h₂.times.trans h₁.times, h₁.size.trans h₂.size,
    fun k j h => h₂.kept k j (h₁.kept k j h)⟩

theorem Grown.refl (d : Delegator) : Grown d d :=
  ⟨fun _ w h => ⟨w, h, .refl w⟩, fun _ w h => ⟨w, h, .refl w⟩, fun _ => rfl, rfl, rfl⟩

theorem Grown.trans {d₁ d₂ d₃ : Delegator} (h₁ : Grown d₁ d₂) (h₂ : Grown d₂ d₃) : Grown d₁ d₃ where
  worker x w₃ hw₃ := by
    obtain ⟨w₂, hw₂, hm₂⟩ := h₂.worker x w₃ hw₃
    obtain ⟨w₁, hw₁, hm₁⟩ := h₁.worker x w₂ hw₂
    exact ⟨w₁, hw₁, hm₁.trans hm₂⟩
  kept x w₁ hw₁ := by
    obtain ⟨w₂, hw₂, hm₂⟩ := h₁.kept x w₁ hw₁
    obtain ⟨w₃, hw₃, hm₃⟩ := h₂.kept x w₂ hw₂
    exact ⟨w₃, hw₃, hm₂.trans hm₃⟩
  data i := (h₂.data i).trans (h₁.data i)
  nextJobId := h₂.nextJobId.trans h₁.nextJobId
  nJobTypes := h₂.nJobTypes.trans h₁.nJobTypes

theorem Worker.take_more (w : Worker) (i : Job) (time : ℤ) : w.More (w.take i time) := by
  refine ⟨rfl, rfl, rfl, ExtTreeMap.size_le_size_insertIfNew, ?_⟩
  intro k j hk
  show (w.workInProgress.insertIfNew i.id _)[k]? = some j
  rw [ExtTreeMap.getElem?_insertIfNew, if_neg, hk]
  rintro ⟨he, hmem⟩
  exact hmem (LawfulEqCmp.compare_eq_iff_eq.1 he ▸ mem_iff_getElem?.2 ⟨j, hk⟩)

/-- Reading a request with `operator[]` changes no data frame. -/
theorem dataFor_subscript (d : Delegator) (i j : Job) :
    ({ d with requests := (subscript d.requests i.requesterID).2 } : Delegator).dataFor j =
      d.dataFor j := by
  unfold dataFor
  rw [subscript_fst, subscript_fst]
  exact congrArg Request.data (getD_subscript d.requests i.requesterID j.requesterID)

theorem round_grown (hd : d.WorkersOK) (clock : Str → ℤ) (i : Job) : Grown d (d.round clock i) := by
  rcases taker_cases hd i with ⟨-, htaker⟩ | ⟨x, w, -, htaker, hw, -⟩
  · rw [round_left htaker]
    exact ⟨(Grown.refl d).worker, (Grown.refl d).kept, fun _ => rfl, rfl, rfl⟩
  · rw [round_taken htaker]
    refine ⟨?_, ?_, fun j => dataFor_subscript d i j, rfl, rfl⟩
    · intro y w' hw'
      simp only [getElem?_insert_eq] at hw'
      split at hw'
      · rename_i hxy
        injection hw' with hw'
        subst hxy hw'
        exact ⟨w, hw, w.take_more i _⟩
      · exact ⟨w', hw', .refl w'⟩
    · intro y v hv
      simp only [getElem?_insert_eq]
      by_cases hxy : x = y
      · subst hxy
        rw [hw] at hv
        injection hv with hv
        subst hv
        exact ⟨_, if_pos rfl, w.take_more i (clock i.id)⟩
      · exact ⟨v, by rw [if_neg hxy, hv], .refl v⟩

/-- **The rounds of a poll**: the state only grows before, between and after them. -/
theorem rounds_grown (hd : d.WorkersOK) (clock : Str → ℤ) (js : List Job) :
    (js.foldl (round clock) d).WorkersOK ∧ Grown d (js.foldl (round clock) d) ∧
      (∀ p ∈ rounds clock d js, p.1.WorkersOK ∧ Grown d p.1 ∧
        Grown (p.1.round clock p.2) (js.foldl (round clock) d)) ∧
      (rounds clock d js).Pairwise fun p q => Grown p.1 q.1 := by
  induction js generalizing d with
  | nil => exact ⟨hd, .refl d, List.forall_mem_nil _, List.Pairwise.nil⟩
  | cons i js ih =>
    have hround := round_grown hd clock i
    obtain ⟨hok, hgrown, hall, hpair⟩ := ih (round_workersOK hd clock i)
    refine ⟨hok, hround.trans hgrown, ?_, ?_⟩
    · intro p hp
      rcases List.mem_cons.1 hp with rfl | hp
      · exact ⟨hd, .refl d, hgrown⟩
      · obtain ⟨hp₁, hp₂, hp₃⟩ := hall p hp
        exact ⟨hp₁, hround.trans hp₂, hp₃⟩
    · refine List.Pairwise.cons ?_ hpair
      intro q hq
      exact hround.trans (hall q hq).2.1

/-- The jobs that no round hands out stay queued, in their order. -/
theorem jobQueue_rounds (clock : Str → ℤ) (d : Delegator) (js : List Job) :
    (js.foldl (round clock) d).jobQueue =
      d.jobQueue ++ ((rounds clock d js).filter fun p => (p.1.taker p.2).isNone).map Prod.snd := by
  induction js generalizing d with
  | nil => simp [rounds]
  | cons i js ih =>
    rw [List.foldl_cons, ih, rounds, List.filter_cons]
    cases htaker : d.taker i with
    | none =>
      rw [round_left htaker]
      simp
    | some q =>
      rw [round_taken htaker]
      simp

/-! ## Jobs -/

/-- The job of a round is handed to a worker that has no job under its id. -/
def RoundFresh (p : Delegator × Job) : Prop :=
  ∀ (x : Str) (w : Worker), p.1.taker p.2 = some (x, w) → p.2.id ∉ w.workInProgress

theorem tickets_round (hd : d.WorkersOK) (clock : Str → ℤ) (h : RoundFresh (d, i)) :
    (d.round clock i).tickets = i.ticket ::ₘ d.tickets := by
  rcases taker_cases hd i with ⟨-, htaker⟩ | ⟨x, w, -, htaker, hw, -⟩
  · rw [round_left htaker]
    exact tickets_queued d i
  · have hnew : i.id ∉ w.workInProgress := h x w htaker
    have ht := tickets_taken (i := { i with startTime := clock i.id }) hw hnew
    rw [round_taken htaker]
    unfold Worker.take
    rw [insertIfNew_of_not_mem hnew]
    exact ht

/-- A job under an id that is in progress is lost. -/
theorem tickets_round_lost (hd : d.WorkersOK) (clock : Str → ℤ) (h : ¬ RoundFresh (d, i)) :
    (d.round clock i).tickets = d.tickets := by
  unfold RoundFresh at h
  push Not at h
  obtain ⟨x, w, htaker, hmem⟩ := h
  obtain ⟨hw, -⟩ := eligible_of_taker hd htaker
  have hload : (w.take i (clock i.id)).load = w.load := by
    unfold Worker.load Worker.take
    congr 3
    apply ExtTreeMap.ext_getElem?
    intro k
    rw [ExtTreeMap.getElem?_insertIfNew, if_neg]
    rintro ⟨he, hk⟩
    exact hk (LawfulEqCmp.compare_eq_iff_eq.1 he ▸ hmem)
  rw [round_taken htaker, tickets_eq, tickets_eq, total_erase Worker.load hw, total_insert, hload]

theorem tickets_round_le (hd : d.WorkersOK) (clock : Str → ℤ) (i : Job) :
    (d.round clock i).tickets ≤ i.ticket ::ₘ d.tickets := by
  by_cases h : RoundFresh (d, i)
  · exact (tickets_round hd clock h).le
  · rw [tickets_round_lost hd clock h]
    exact Multiset.le_cons_self _ _

/-- **No round makes a job.** -/
theorem tickets_rounds_le (hd : d.WorkersOK) (clock : Str → ℤ) (js : List Job) :
    (js.foldl (round clock) d).tickets ≤ d.tickets + (js.map Job.ticket : List Ticket) := by
  induction js generalizing d with
  | nil => simp
  | cons i js ih =>
    refine (ih (round_workersOK hd clock i)).trans ?_
    rw [List.map_cons, ← Multiset.cons_coe, Multiset.add_cons, ← Multiset.cons_add]
    exact Multiset.add_le_add_right (tickets_round_le hd clock i)

/-- **Jobs are lost** only in rounds for a worker that has a job under the same id. -/
theorem tickets_rounds_iff (hd : d.WorkersOK) (clock : Str → ℤ) (js : List Job) :
    (js.foldl (round clock) d).tickets = d.tickets + (js.map Job.ticket : List Ticket) ↔
      ∀ p ∈ rounds clock d js, RoundFresh p := by
  induction js generalizing d with
  | nil => simp [rounds]
  | cons i js ih =>
    rw [List.foldl_cons, rounds, List.forall_mem_cons]
    by_cases h : RoundFresh (d, i)
    · rw [← ih (round_workersOK hd clock i), tickets_add_cons (tickets_round hd clock h)]
      exact (and_iff_right h).symm
    · -- one job too few is left
      refine iff_of_false ?_ fun hall => h hall.1
      intro he
      have hle := tickets_rounds_le (round_workersOK hd clock i) clock js
      rw [he, tickets_round_lost hd clock h] at hle
      have hcard := Multiset.card_le_card hle
      simp only [Multiset.card_add, List.map_cons, Multiset.coe_card, List.length_cons] at hcard
      omega

/-- With distinct ids no job is lost. -/
theorem roundFresh_of_nodup (hd : d.WorkersOK) (clock : Str → ℤ) {js : List Job}
    (hnd : ((d.tickets + (js.map Job.ticket : List Ticket)).map Ticket.id).Nodup) :
    ∀ p ∈ rounds clock d js, RoundFresh p := by
  induction js generalizing d with
  | nil => exact List.forall_mem_nil _
  | cons i js ih =>
    have hfresh : RoundFresh (d, i) := by
      intro x w htaker
      have hticket : i.ticket ∈ (((i :: js).map Job.ticket : List Ticket) : Multiset Ticket) := by
        rw [List.map_cons]
        exact List.mem_cons_self
      exact id_not_in_progress hd hnd hticket (eligible_of_taker hd htaker).1
    rw [rounds, List.forall_mem_cons]
    exact ⟨hfresh, ih (round_workersOK hd clock i)
      (by rw [tickets_add_cons (tickets_round hd clock hfresh)]; exact hnd)⟩

/-! ## The poll -/

/-- The rounds for jobs whose requests are known read them only. -/
theorem requests_rounds (clock : Str → ℤ) {js : List Job}
    (hreq : ∀ j ∈ js, j.requesterID ∈ d.requests) :
    (js.foldl (round clock) d).requests = d.requests := by
  induction js generalizing d with
  | nil => rfl
  | cons i js ih =>
    have hround : (d.round clock i).requests = d.requests := by
      obtain ⟨r, hr⟩ := mem_iff_getElem?.1 (hreq i List.mem_cons_self)
      cases htaker : d.taker i with
      | none => rw [round_left htaker]
      | some q => rw [round_taken htaker, subscript_of_some hr]
    rw [List.foldl_cons, ih, hround]
    intro j hj
    rw [hround]
    exact hreq j (List.mem_cons_of_mem _ hj)

/-- What was outstanding before a poll. -/
theorem tickets_onPoll (d : Delegator) :
    ({ d with jobQueue := [] } : Delegator).tickets + (d.jobQueue.map Job.ticket : List Ticket) =
      d.tickets := by
  rw [tickets_eq, tickets_eq]
  simp only [List.map_nil, Multiset.coe_nil, zero_add, add_comm]

/-- **A poll with no failed send** loses no job, and sends only jobs that were queued. -/
theorem onPoll_spec (clock : Str → ℤ) {fails : Str → Bool} (hf : ∀ id, fails id = false)
    (hd : d.WorkersOK) (hreq : ∀ j ∈ d.jobQueue, j.requesterID ∈ d.requests)
    (hnd : (d.tickets.map Ticket.id).Nodup) :
    ∃ d' out, d.onPoll clock fails = .ok (d', out) ∧ Moved d d' ∧
      ∀ s ∈ out, ∃ j ∈ d.jobQueue, ∃ addr r, d.requests[j.requesterID]? = some r ∧
        s = ⟨.network, ⟨addr, .job, [toStr j.type, j.id, r.data]⟩⟩ := by
  have hd₀ : WorkersOK { d with jobQueue := [] } := hd
  have hfresh : ∀ p ∈ rounds clock { d with jobQueue := [] } d.jobQueue, RoundFresh p :=
    roundFresh_of_nodup hd₀ clock (by rw [tickets_onPoll]; exact hnd)
  obtain ⟨hok, hgrown, hrounds, -⟩ := rounds_grown hd₀ clock d.jobQueue
  refine ⟨_, _, pollLoop_sent hd₀ fun p _ _ => hf p.2.id,
    ⟨hok, ?_, ?_, hgrown.nextJobId, hgrown.nJobTypes⟩, ?_⟩
  · rw [(tickets_rounds_iff hd₀ clock d.jobQueue).2 hfresh, tickets_onPoll]
  · exact requests_rounds (d := { d with jobQueue := [] }) clock hreq
  · intro s hs
    obtain ⟨p, hp, hs⟩ := List.mem_flatMap.1 hs
    have hj : p.2 ∈ d.jobQueue :=
      rounds_jobs clock { d with jobQueue := [] } d.jobQueue ▸ List.mem_map_of_mem hp
    obtain ⟨r, hr⟩ := mem_iff_getElem?.1 (hreq p.2 hj)
    -- the data frame is that of the request, as before the poll
    have hdata : p.1.dataFor p.2 = r.data := by
      rw [(hrounds p hp).2.1.data]
      unfold dataFor
      rw [subscript_of_some hr]
    unfold roundSends at hs
    split at hs
    · rename_i x w htaker
      rw [List.mem_singleton] at hs
      exact ⟨p.2, hj, w.address, r, hr, by rw [hs, hdata]⟩
    · cases hs

end Delegator

end Stateline
