import Stateline.Comms.Delegator
import Stateline.Lib.Run

/-!
# What the handlers of the delegator do

One lemma for each handler, saying what it returns and what it does to the
outstanding jobs (`tickets`), for a delegator whose workers are well formed
(`WorkersOK`): the key of a worker is the front of its address, the keys of its
`times` are its range, and its jobs in progress are within its range, at most
ten, and under their own ids.

* `disconnectWorker_eq_ok`, `newWorker_eq_ok`, `receiveResult_eq_ok`, `dispatch_eq_ok`:
  what a handler did, in any state, where it returned; `pollLoop_returned`: the
  induction over the loop of a poll that returned.
* `bestWorker_ok`: a worker is found or not, and one that is found may take the job.
* `disconnectWorker_spec`, `newWorker_spec`: jobs move around; none appears or is lost.
-/

namespace Stateline

open Std Lib

namespace Delegator

/-! ## Where a handler returned -/

section Returned

variable {d d' : Delegator} {m : Message} {x : Str} {now : ℤ} {out : List Send}

/-- **What `disconnectWorker` did**, where it returned. -/
theorem disconnectWorker_eq_ok (hx : m.address.head? = some x) (h : d.disconnectWorker m = .ok d') :
    (d.workers[x]? = none ∧ d' = d) ∨ ∃ w, d.workers[x]? = some w ∧
      d' = { d with
        jobQueue := (vals w.workInProgress).foldl (fun q j => j :: q) d.jobQueue
        workers := d.workers.erase x
        workerCount := (d.workerCount + 2 ^ 32 - 1) % 2 ^ 32 } := by
  obtain ⟨tl, htl⟩ := List.head?_eq_some_iff.1 hx
  unfold disconnectWorker at h
  rw [front_of_cons htl, ok_bind] at h
  cases hw : d.workers[x]? with
  | none =>
    rw [hw] at h
    injection h with h
    exact .inl ⟨rfl, h.symm⟩
  | some w =>
    rw [hw] at h
    injection h with h
    exact .inr ⟨w, rfl, h.symm⟩

/-- The keys of a map filled from a list. -/
theorem mem_foldl_insertIfNew {b : CircularBuffer ℕ} {ts : List ℕ}
    {m : ExtTreeMap ℕ (CircularBuffer ℕ)} {t : ℕ} :
    t ∈ ts.foldl (fun m i => m.insertIfNew i b) m ↔ t ∈ m ∨ t ∈ ts := by
  induction ts generalizing m with
  | nil => simp
  | cons i ts ih =>
    rw [List.foldl_cons, ih, ExtTreeMap.mem_insertIfNew, LawfulEqCmp.compare_eq_iff_eq, List.mem_cons]
    constructor
    · rintro ((rfl | h) | h)
      · exact .inr (.inl rfl)
      · exact .inl h
      · exact .inr (.inr h)
    · rintro (h | rfl | h)
      · exact .inl (.inr h)
      · exact .inl (.inl rfl)
      · exact .inr h

/-- The values of a map filled with one value. -/
theorem all_foldl_insertIfNew {b : CircularBuffer ℕ} {ts : List ℕ} {m : ExtTreeMap ℕ (CircularBuffer ℕ)}
    (hm : All (fun _ c => c = b) m) : All (fun _ c => c = b)
    (ts.foldl (fun m i => m.insertIfNew i b) m) := by
  induction ts generalizing m with
  | nil => exact hm
  | cons i ts ih =>
    refine ih ?_
    intro k c hc
    rw [ExtTreeMap.getElem?_insertIfNew] at hc
    split at hc
    · exact (Option.some.inj hc).symm
    · exact hm k c hc

/-- A worker just connected, with the range of job types that its HELLO announced in `frame`. -/
structure Fresh (d : Delegator) (m : Message) (frame : Str) (w : Worker) : Prop where
  announced : m.data.head? = some frame
  range : d.jobTypeRange frame = .ok w.jobTypesRange
  address : w.address = m.address
  idle : w.workInProgress = ∅
  times : ∀ t, t ∈ w.times ↔ w.jobTypesRange.1 ≤ t ∧ t < w.jobTypesRange.2
  untimed : All (fun _ b => b = .ofSize 10) w.times

/-- **What a HELLO did**, where it was handled: a worker that is not connected is connected, without
jobs. -/
theorem newWorker_eq_ok (hx : m.address.head? = some x) (h : d.newWorker m now = .ok (d', out)) :
    out = [⟨.heartbeat, m⟩] ∧ ((x ∈ d.workers ∧ d' = d) ∨ x ∉ d.workers ∧ ∃ (w : Worker) (frame : Str),
      Fresh d m frame w ∧
      d' = { d with workers := d.workers.insert x w,
                    workerCount := (d.workerCount + 1) % 2 ^ 32 }) := by
  obtain ⟨tl, htl⟩ := List.head?_eq_some_iff.1 hx
  unfold newWorker at h
  rw [front_of_cons htl, ok_bind] at h
  split at h
  · rename_i hmem
    obtain ⟨rfl, rfl⟩ := ok_pair_inj h
    exact ⟨rfl, .inl ⟨hmem, rfl⟩⟩
  · rename_i hmem
    obtain ⟨d₁, hcon, h⟩ := bind_eq_ok h
    obtain ⟨rfl, rfl⟩ := ok_pair_inj h
    unfold connectWorker at hcon
    obtain ⟨frame, hframe, hcon⟩ := bind_eq_ok hcon
    obtain ⟨range, hrange, hcon⟩ := bind_eq_ok hcon
    simp only [front_of_cons htl, ok_bind, insertIfNew_of_not_mem hmem] at hcon
    injection hcon with hcon
    refine ⟨rfl, .inr ⟨hmem, _, frame,
      ⟨head?_of_front hframe, hrange, rfl, rfl, ?_, all_foldl_insertIfNew All.empty⟩,
      hcon.symm⟩⟩
    intro t
    rw [mem_foldl_insertIfNew, List.mem_range'_1]
    simp only [ExtTreeMap.not_mem_empty, false_or]
    omega

/-- The job that `receiveResult` finds, which may be created for that. -/
def Worker.jobFor (w : Worker) (jobID : Str) : Job := (subscript w.workInProgress jobID).1

/-- The estimate of the time the worker spent on the job, in microseconds. -/
def Worker.timeSpent (w : Worker) (jobID : Str) (now : ℤ) : ℕ :=
  toUint ((now - max (w.jobFor jobID).startTime w.lastResultTime).tdiv 1000)

/-- **What `receiveResult` did**, where it returned: nothing, or it timed the job, which may have
been created for that, and erased it from those in progress at its worker. -/
theorem receiveResult_eq_ok (h : d.receiveResult m now = .ok (d', out)) :
    ∃ x, m.address.head? = some x ∧ (∀ s ∈ out, s.sock = .requester) ∧
      ((d.workers[x]? = none ∧ d' = d) ∨ ∃ (w w' : Worker) (i : Str) (requests : _),
        d.workers[x]? = some w ∧ m.data.head? = some i ∧ w'.address = w.address ∧
        w'.workInProgress = (subscript w.workInProgress i).2.erase i ∧
          w'.jobTypesRange = w.jobTypesRange ∧
        (∃ b, w.times[(w.jobFor i).type]? = some b ∧
          w'.times = w.times.insert (w.jobFor i).type (b.pushBack (w.timeSpent i now))) ∧
        d' = { d with workers := d.workers.insert x w', requests }) := by
  unfold receiveResult at h
  obtain ⟨x, hx, h⟩ := bind_eq_ok h
  refine ⟨x, head?_of_front hx, ?_⟩
  split at h
  · rename_i hnone
    obtain ⟨rfl, rfl⟩ := ok_pair_inj h
    exact ⟨List.forall_mem_nil _, .inl ⟨hnone, rfl⟩⟩
  · rename_i w hw
    obtain ⟨i, hi, h⟩ := bind_eq_ok h
    dsimp only at h
    split at h
    · rename_i b hb
      obtain ⟨times, htimes, h⟩ := bind_eq_ok h
      obtain ⟨data, -, h⟩ := bind_eq_ok h
      split at h
      · cases h
      · injection htimes with htimes
        obtain ⟨rfl, rfl⟩ := ok_pair_inj h
        refine ⟨?_, .inr ⟨w, ⟨w.address, w.jobTypesRange,
          (subscript w.workInProgress i).2.erase i, times, now⟩, i, _, hw,
          head?_of_front hi, rfl, rfl, rfl, ⟨b, hb, htimes.symm⟩, rfl⟩⟩
        intro s hs
        split at hs
        · rw [List.mem_singleton.1 hs]
        · cases hs
    · cases h

/-- **What a dispatch did**, where it returned: the send did not fail, as the fallback erases the worker
that is written to afterwards. -/
theorem dispatch_eq_ok {clock : Str → ℤ} {fails : Str → Bool} {j : Job}
    (haddr : ∀ w, d.workers[x]? = some w → w.address.head? = some x)
    (h : d.dispatch clock fails x j = .ok (d', out)) :
    ∃ w data, d.workers[x]? = some w ∧ fails j.id = false ∧
      out = [⟨.network, ⟨w.address, .job, [toStr j.type, j.id, data]⟩⟩] ∧
      d' = { d with
        requests := (subscript d.requests j.requesterID).2
        workers := d.workers.insert x { w with
          workInProgress := w.workInProgress.insertIfNew j.id
            { j with startTime := clock j.id } } } := by
  unfold dispatch at h
  dsimp only at h
  cases hw : d.workers[x]? with
  | none =>
    rw [hw] at h
    cases h
  | some w =>
    simp only [hw, ok_bind] at h
    split at h
    · -- the fallback has erased the worker
      obtain ⟨d₁, hd₁, h⟩ := bind_eq_ok h
      have hnone : d₁.workers[x]? = none := by
        rcases disconnectWorker_eq_ok (x := x) (haddr w hw) hd₁ with ⟨hnone, rfl⟩ | ⟨w', -, rfl⟩
        · exact hnone
        · exact ExtTreeMap.getElem?_erase_self
      rw [hnone] at h
      cases h
    · rename_i hf
      obtain ⟨rfl, rfl⟩ := ok_pair_inj h
      exact ⟨w, _, rfl, Bool.eq_false_of_not_eq_true hf, rfl, rfl⟩

/-- **Induction over the loop of `onPoll`**, where it returned: a job is passed over or dispatched. -/
theorem pollLoop_returned {clock : Str → ℤ} {fails : Str → Bool} {n : ℕ}
    {P : Delegator → List Job → Delegator → List Send → Prop} (hdone : ∀ d, P d [] d [])
    (hleft : ∀ d i js d' out, P { d with jobQueue := d.jobQueue ++ [i] } js d' out →
      P d (i :: js) d' out)
    (hsent : ∀ d d₁ d' i js x out out', d.dispatch clock fails x i = .ok (d₁, out) →
      P d₁ js d' out' → P d (i :: js) d' (out ++ out'))
    {js : List Job} (h : pollLoop clock fails n d js = .ok (d', out)) : P d js d' out := by
  induction js generalizing d d' out with
  | nil =>
    obtain ⟨rfl, rfl⟩ := ok_pair_inj h
    exact hdone _
  | cons i js ih =>
    rw [pollLoop] at h
    obtain ⟨o, -, h⟩ := bind_eq_ok h
    cases o with
    | none => exact hleft _ _ _ _ _ (ih h)
    | some x =>
      obtain ⟨⟨d₁, out₁⟩, h₁, h⟩ := bind_eq_ok h
      obtain ⟨⟨d₂, out₂⟩, h₂, h⟩ := bind_eq_ok h
      obtain ⟨rfl, rfl⟩ := ok_pair_inj h
      exact hsent _ _ _ _ _ _ _ _ h₁ (ih h₂)

end Returned

/-! ## Outstanding jobs -/

/-- A job without the time it was sent: what stays the same wherever it is. -/
structure Ticket where
  type : ℕ
  id : Str
  requesterID : Str
  requesterIndex : ℕ
  deriving DecidableEq

def Job.ticket (j : Job) : Ticket := ⟨j.type, j.id, j.requesterID, j.requesterIndex⟩

/-- Every outstanding job: those in the queue, and those in progress at a worker. -/
def outstanding (d : Delegator) : List Job :=
  d.jobQueue ++ (vals d.workers).flatMap fun w => vals w.workInProgress

/-- The jobs in progress at a worker. -/
def Worker.load (w : Worker) : Multiset Ticket := ((vals w.workInProgress).map Job.ticket : List Ticket)

/-- The outstanding jobs, counted. -/
def tickets (d : Delegator) : Multiset Ticket := (d.outstanding.map Job.ticket : List Ticket)

/-- A well-formed worker under the key `id`. -/
structure Worker.OK (id : Str) (w : Worker) : Prop where
  front : w.address.head? = some id
  key : All (fun i j => j.id = i) w.workInProgress
  times : ∀ t, t ∈ w.times ↔ w.jobTypesRange.1 ≤ t ∧ t < w.jobTypesRange.2
  typed : All (fun _ j => w.jobTypesRange.1 ≤ j.type ∧ j.type < w.jobTypesRange.2) w.workInProgress
  load_le : w.workInProgress.size ≤ 10

def WorkersOK (d : Delegator) : Prop := All Worker.OK d.workers

theorem tickets_eq (d : Delegator) :
    d.tickets = (d.jobQueue.map Job.ticket : List Ticket) + total Worker.load d.workers := by
  have hflat : ∀ ws : List Worker,
      (((ws.flatMap fun w => vals w.workInProgress).map Job.ticket : List Ticket) : Multiset Ticket) =
        (ws.map Worker.load).sum := by
    intro ws
    induction ws with
    | nil => rfl
    | cons w ws ih =>
      simp only [List.flatMap_cons, List.map_append, ← Multiset.coe_add, ih, List.map_cons,
        List.sum_cons]
      rfl
  simp only [tickets, outstanding, List.map_append, ← Multiset.coe_add, hflat]
  rfl

theorem mem_tickets {d : Delegator} {t : Ticket} :
    t ∈ d.tickets ↔ ∃ j ∈ d.outstanding, j.ticket = t := by
  simp [tickets]

theorem mem_outstanding {d : Delegator} {j : Job} : j ∈ d.outstanding ↔
    j ∈ d.jobQueue ∨ ∃ (id : Str) (w : Worker) (i : Str), d.workers[id]? = some w ∧
      w.workInProgress[i]? = some j := by
  simp only [outstanding, List.mem_append, List.mem_flatMap, mem_vals]
  constructor
  · rintro (h | ⟨w, ⟨id, hw⟩, i, hj⟩)
    · exact .inl h
    · exact .inr ⟨id, w, i, hw, hj⟩
  · rintro (h | ⟨id, w, i, hw, hj⟩)
    · exact .inl h
    · exact .inr ⟨w, ⟨id, hw⟩, i, hj⟩

/-! ## Loads of one worker -/

theorem Worker.load_insert {w : Worker} {i : Str} {j : Job} (h : i ∉ w.workInProgress) :
    Worker.load { w with workInProgress := w.workInProgress.insert i j } = j.ticket ::ₘ w.load := by
  simp only [Worker.load]
  rw [Multiset.cons_coe, Multiset.coe_eq_coe]
  exact (vals_insert_new j h).map Job.ticket

theorem Worker.load_erase {w : Worker} {i : Str} {j : Job} (h : w.workInProgress[i]? = some j) :
    w.load = j.ticket ::ₘ (((vals (w.workInProgress.erase i)).map Job.ticket : List Ticket)) := by
  simp only [Worker.load]
  rw [Multiset.cons_coe, Multiset.coe_eq_coe]
  exact (vals_perm_cons h).map Job.ticket

/-! ## Scheduling -/

/-- A supported type has an estimate. -/
theorem timeForJob_ok {w : Worker} {t : ℕ} (h : t ∈ w.times) : ∃ us, timeForJob w t = .ok us := by
  obtain ⟨b, hb⟩ := mem_iff_getElem?.1 h
  unfold timeForJob; rw [hb]; exact ⟨_, rfl⟩

theorem usTillDone_ok {id : Str} {w : Worker} {t : ℕ} (hw : Worker.OK id w) (h : t ∈ w.times) :
    ∃ us, usTillDone w t = .ok us := by
  obtain ⟨us, hus, -⟩ := foldlM_ok (l := vals w.workInProgress) (b := 0) (P := fun _ => True)
    (f := fun t i => do return (t + (← timeForJob w i.type)) % 2 ^ 32) (by
      intro acc _ j hj
      obtain ⟨i, hi⟩ := mem_vals.1 hj
      obtain ⟨us, hus⟩ := timeForJob_ok ((hw.times _).2 (hw.typed i j hi))
      exact ⟨_, by rw [hus]; rfl, trivial⟩) trivial
  obtain ⟨us', hus'⟩ := timeForJob_ok h
  exact ⟨_, by unfold usTillDone; rw [hus, hus']; rfl⟩

/-- A worker that may take a job of type `t`. -/
def Worker.Eligible (w : Worker) (t maxJobs : ℕ) : Prop :=
  w.jobTypesRange.1 ≤ t ∧ t < w.jobTypesRange.2 ∧ w.workInProgress.size < maxJobs

/-- `bestWorker` never throws, and what it finds is eligible. -/
theorem bestWorker_ok {d : Delegator} (hd : d.WorkersOK) (t maxJobs : ℕ) :
    ∃ o, d.bestWorker t maxJobs = .ok o ∧
      ∀ id, o = some id → ∃ w, d.workers[id]? = some w ∧ w.Eligible t maxJobs := by
  obtain ⟨best, hbest, hel⟩ := foldlM_ok (l := d.workers.toList) (b := (none, 2 ^ 32 - 1))
    (P := fun best => ∀ id, best.1 = some id → ∃ w, d.workers[id]? = some w ∧ w.Eligible t maxJobs)
    (f := better t maxJobs) (by
      intro best hb p hp
      have hp := ExtTreeMap.mem_toList_iff_getElem?_eq_some.1 hp
      unfold better
      split
      · rename_i he
        have hok := hd p.1 p.2 hp
        obtain ⟨us, hus⟩ := usTillDone_ok hok ((hok.times t).2 ⟨he.1, he.2.1⟩)
        refine ⟨_, by rw [hus]; rfl, ?_⟩
        intro id hid
        split at hid
        · injection hid with hid; subst hid; exact ⟨p.2, hp, he⟩
        · exact hb id hid
      · exact ⟨best, rfl, hb⟩) (by simp)
  exact ⟨best.1, by unfold bestWorker; rw [hbest]; rfl, hel⟩

/-! ## Polling -/

/-- The jobs in progress at a worker are among the outstanding ones. -/
theorem load_le_tickets {d : Delegator} {id : Str} {w : Worker} (h : d.workers[id]? = some w) :
    w.load ≤ d.tickets := by
  rw [tickets_eq, total_erase Worker.load h]
  exact (Multiset.le_add_right _ _).trans (Multiset.le_add_left _ _)

/-- With distinct ids, a job that is not in progress anywhere has an id under which no worker
has a job. -/
theorem id_not_in_progress {d : Delegator} (hd : d.WorkersOK) {ts : Multiset Ticket}
    (hnd : ((d.tickets + ts).map Ticket.id).Nodup) {t : Ticket} (ht : t ∈ ts) {id : Str} {w : Worker}
    (hw : d.workers[id]? = some w) : t.id ∉ w.workInProgress := by
  intro hmem
  obtain ⟨j, hj⟩ := mem_iff_getElem?.1 hmem
  have hjid : j.ticket.id = t.id := (hd id w hw).key _ j hj
  have hjt : j.ticket ∈ d.tickets := by
    refine Multiset.mem_of_le (load_le_tickets hw) ?_
    rw [Worker.load_erase hj]; exact Multiset.mem_cons_self _ _
  rw [Multiset.map_add, Multiset.nodup_add] at hnd
  exact Multiset.disjoint_left.1 hnd.2.2 (Multiset.mem_map_of_mem _ hjt)
    (by rw [hjid]; exact Multiset.mem_map_of_mem _ ht)

/-- A worker stays well formed with one more job that it may take. -/
theorem Worker.OK.take {id : Str} {w : Worker} (hw : Worker.OK id w) {i : Job}
    (he : w.Eligible i.type 10) :
    Worker.OK id { w with workInProgress := w.workInProgress.insert i.id i } where
  front := hw.front
  key := hw.key.insert rfl
  times := hw.times
  typed := hw.typed.insert ⟨he.1, he.2.1⟩
  load_le := by
    have h1 := ExtTreeMap.size_insert_le (t := w.workInProgress) (k := i.id) (v := i)
    have h2 := he.2.2
    show (w.workInProgress.insert i.id i).size ≤ 10
    omega

/-- A job passed over is back in the queue. -/
theorem tickets_queued (d : Delegator) (i : Job) :
    ({ d with jobQueue := d.jobQueue ++ [i] } : Delegator).tickets = i.ticket ::ₘ d.tickets := by
  rw [tickets_eq, tickets_eq, List.map_append, ← Multiset.coe_add, List.map_singleton,
    Multiset.coe_singleton, ← Multiset.singleton_add]
  ac_rfl

/-- A job taken by a worker is in progress there. -/
theorem tickets_taken {d : Delegator} {id : Str} {w : Worker} {i : Job} (hw : d.workers[id]? = some w)
    (hi : i.id ∉ w.workInProgress) :
    ({ d with
      workers := d.workers.insert id { w with workInProgress := w.workInProgress.insert i.id i } } :
      Delegator).tickets = i.ticket ::ₘ d.tickets := by
  rw [tickets_eq, tickets_eq, total_insert, total_erase Worker.load hw, Worker.load_insert hi,
    ← Multiset.singleton_add, ← Multiset.singleton_add]
  ac_rfl

/-- What is outstanding, in a round of the loop and with the jobs left after it. -/
theorem tickets_add_cons {d d₁ : Delegator} {i : Job} (ht : d₁.tickets = i.ticket ::ₘ d.tickets)
    (js : List Job) :
    d₁.tickets + (js.map Job.ticket : List Ticket) =
      d.tickets + ((i :: js).map Job.ticket : List Ticket) := by
  rw [ht, List.map_cons, ← Multiset.cons_coe, Multiset.cons_add, Multiset.add_cons]

/-! ## Connecting and disconnecting -/

/-- A handler that only moves jobs around: it changes no request, creates no job and loses none. -/
structure Moved (d d' : Delegator) : Prop where
  workers : d'.WorkersOK
  tickets : d'.tickets = d.tickets
  requests : d'.requests = d.requests
  nextJobId : d'.nextJobId = d.nextJobId
  nJobTypes : d'.nJobTypes = d.nJobTypes

theorem Moved.refl {d : Delegator} (hd : d.WorkersOK) : Moved d d := ⟨hd, rfl, rfl, rfl, rfl⟩

/-- Jobs pushed to the front of the queue, one by one. -/
theorem map_pushed {α : Type} (f : Job → α) (js q : List Job) :
    ((js.foldl (fun q j => j :: q) q).map f : Multiset α) =
      (js.map f : List α) + (q.map f : List α) := by
  induction js generalizing q with
  | nil => simp
  | cons j js ih =>
    rw [List.foldl_cons, ih]
    simp [← Multiset.cons_coe]

/-- **`disconnectWorker`** re-queues the jobs of the worker and forgets it. -/
theorem disconnectWorker_spec {d : Delegator} (hd : d.WorkersOK) {m : Message} {id : Str}
    {rest : Address} (hm : m.address = id :: rest) :
    ∃ d', d.disconnectWorker m = .ok d' ∧ Moved d d' := by
  unfold disconnectWorker
  rw [front_of_cons hm, ok_bind]
  cases hw : d.workers[id]? with
  | none => exact ⟨d, rfl, .refl hd⟩
  | some w =>
    refine ⟨_, rfl, ⟨hd.erase, ?_, rfl, rfl, rfl⟩⟩
    rw [tickets_eq, tickets_eq, total_erase Worker.load hw, map_pushed]
    simp only [Worker.load]
    ac_rfl

/-- A HELLO that `connectWorker` can read: an empty range, or two numbers around a colon. -/
def HelloOK (m : Message) : Prop :=
  m.address ≠ [] ∧ ∃ frame rest, m.data = frame :: rest ∧
    (frame = [] ∨ ∃ a b x y, segments frame ':' = [a, b] ∧ stoi a = some x ∧ stoi b = some y)

/-- **`fNewWorker`** forwards the HELLO, and connects the worker unless it is connected. -/
theorem newWorker_spec {d : Delegator} (hd : d.WorkersOK) {m : Message} (hm : HelloOK m) (now : ℤ) :
    ∃ d', d.newWorker m now = .ok (d', [⟨.heartbeat, m⟩]) ∧ Moved d d' := by
  obtain ⟨haddr, frame, rest, hdata, hframe⟩ := hm
  obtain ⟨id, tl, hid⟩ := List.exists_cons_of_ne_nil haddr
  have hfr : front m.address = .ok id := front_of_cons hid
  unfold newWorker
  rw [hfr, ok_bind]
  by_cases hmem : id ∈ d.workers
  · rw [if_pos hmem]
    exact ⟨d, rfl, .refl hd⟩
  · rw [if_neg hmem]
    -- an empty range is that of all job types
    obtain ⟨range, hrange⟩ : ∃ range, d.jobTypeRange frame = .ok range := by
      unfold jobTypeRange
      rcases hframe with rfl | ⟨a, b, x, y, hseg, hx, hy⟩
      · exact ⟨_, rfl⟩
      · split
        · exact ⟨_, rfl⟩
        · simp only [hseg, hx, hy]; exact ⟨_, rfl⟩
    set w : Worker :=
      { address := m.address, jobTypesRange := range, workInProgress := ∅
        times := (List.range' range.1 (range.2 - range.1)).foldl
          (fun m i => m.insertIfNew i (.ofSize 10)) ∅
        lastResultTime := now } with hw
    set d' : Delegator := { d with
      workers := d.workers.insert id w, workerCount := (d.workerCount + 1) % 2 ^ 32 } with hd'
    have hcon : d.connectWorker m now = .ok d' := by
      unfold connectWorker
      rw [nth_zero_of_cons hdata, ok_bind, hrange, ok_bind]
      simp only [hfr, ok_bind, insertIfNew_of_not_mem hmem]
      rfl
    refine ⟨d', by rw [hcon]; rfl, ⟨?_, ?_, rfl, rfl, rfl⟩⟩
    · refine hd.insert ⟨by rw [hw, hid]; rfl, All.empty, ?_, All.empty, by simp [hw]⟩
      intro t
      rw [hw, mem_foldl_insertIfNew, List.mem_range'_1]
      simp only [ExtTreeMap.not_mem_empty, false_or]
      omega
    · have hload : w.load = 0 := by simp [Worker.load, hw]
      rw [tickets_eq, tickets_eq, hd']
      simp only
      rw [total_insert_new Worker.load _ hmem, hload, zero_add]

end Delegator

end Stateline
