import Stateline.Proof.Requests
import Stateline.Proof.Polling
import Stateline.Lib.Gather

/-!
# Runs of the delegator, observed

`World` is a delegator with what an observer has seen: the requests, numbered in
the order they came, the results received for each of their jobs, and the
messages sent. Its steps are those of `Delegator.handle`; the record only grows.

* `Admissible`: the events that requesters, workers and the heartbeat thread send.
* `step_change`: **what an admissible event does**, if it is no GOODBYE from the network: it
  moves jobs around, or makes one request pending, or ends one job with its result.
* `Inv`: the outstanding jobs of a pending request are those of its parts that
  are not answered yet. `inv_of_reach`: every run keeps it.
-/

namespace Stateline

open Std Lib Delegator

/-- A delegator and the record of an observer. -/
structure World where
  del : Delegator
  /-- The requests received. -/
  asked : List Message
  /-- The number of the request last made under a key. -/
  number : Str → ℕ
  /-- The results received, by the number of the request and the index of the job. -/
  answers : ℕ → ℕ → Option Str
  /-- The messages sent. -/
  sent : List Send
  /-- The messages sent to requesters, with the number of the request they answer. -/
  replies : List (ℕ × Message)

namespace World

/-- A new delegator. -/
def init (nJobTypes workerCount : ℕ) : World :=
  ⟨.init nJobTypes workerCount, [], fun _ => 0, fun _ _ => none, [], []⟩

/-- The number of jobs created. -/
def created (w : World) : ℕ := (w.asked.map fun m => (typesOf m).length).sum

/-- The part that a RESULT from a connected worker answers, for a job in progress there:
the number of the request, the index of the job, the result. -/
def answered (w : World) : Event → Option (ℕ × ℕ × Str)
  | .recv .network m _ _ =>
    if m.subject = .result then do
      let worker ← w.del.workers[← m.address.head?]?
      let j ← worker.workInProgress[← m.data[0]?]?
      return (w.number j.requesterID, j.requesterIndex, ← m.data[1]?)
    else none
  | _ => none

/-- What the observer records of an event that was handled. -/
def observe (w : World) (e : Event) (d : Delegator) (out : List Send) : World :=
  let w' := { w with del := d, sent := w.sent ++ out }
  match e, w.answered e with
  | .recv .requester m _ _, _ =>
    { w' with asked := w.asked ++ [m], number := Function.update w.number (key m) w.asked.length }
  | _, some (n, i, a) =>
    { w' with
      answers := Gather.record w.answers n i a
      replies := w.replies ++ (out.filter fun s => s.sock = .requester).map fun s => (n, s.msg) }
  | _, none => w'

/-- The number of jobs that an event creates. -/
def growth : Event → ℕ
  | .recv .requester m _ _ => (typesOf m).length
  | _ => 0

/-- One event. There is no next state when the handler fails. -/
def step (w : World) (e : Event) : Option World :=
  match w.del.handle e with
  | .ok (d, out) => some (w.observe e d out)
  | .error _ => none

/-- There is no state after a GOODBYE from the network. -/
theorem step_networkGoodbye (w : World) {e : Event} (h : e.NetworkGoodbye) : w.step e = none := by
  unfold step
  rw [handle_networkGoodbye h]

theorem not_networkGoodbye {w w' : World} {e : Event} (h : w.step e = some w') : ¬ e.NetworkGoodbye := by
  intro hbye
  rw [w.step_networkGoodbye hbye] at h
  cases h

/-- The parts of request `n`, of `size` in all, that are not answered yet. -/
def unanswered (w : World) (n size : ℕ) : Multiset ℕ :=
  (Multiset.range size).filter fun i => w.answers n i = none

end World

/-- The events of the protocol: REQUEST under a new key; HELLO; RESULT from an identity
that is not connected or for a job in progress; GOODBYE and HEARTBEAT from either side;
and polls whose sends succeed. -/
def Admissible (w : World) : Event → Prop
  | .recv .requester m _ _ => m.subject = .request ∧ RequestOK w.del m
  | .recv .network m now fails =>
    match m.subject with
    | .hello => HelloOK m
    | .result =>
      (∃ x, m.address.head? = some x ∧ x ∉ w.del.workers) ∨
        (w.answered (.recv .network m now fails)).isSome
    | .heartbeat => True
    | .goodbye => m.address ≠ []
    | _ => False
  | .recv .heartbeat m _ _ => m.address ≠ [] ∧ (m.subject = .heartbeat ∨ m.subject = .goodbye)
  | .poll _ fails => ∀ id, fails id = false

/-- The outstanding jobs of the request under a key. -/
def Delegator.ticketsOf (d : Delegator) (k : Str) : Multiset Ticket :=
  d.tickets.filter fun t => t.requesterID = k

/-- The pending request `r` under `k`: it is the one asked, and its outstanding jobs are its
unanswered parts. -/
structure Pending (w : World) (k : Str) (r : Request) : Prop where
  asked : ∃ q, w.asked[w.number k]? = some q ∧ key q = k ∧ r.address = q.address ∧
    r.jobTypes = typeSet q ∧ r.data = dataOf q
  results : r.results.length = r.jobTypes.size
  parts : (w.del.ticketsOf k).map Ticket.requesterIndex = w.unanswered (w.number k) r.jobTypes.size
  left : w.del.ticketsOf k ≠ 0
  count : r.nDone + (w.del.ticketsOf k).card = r.jobTypes.size
  filled : ∀ i a, w.answers (w.number k) i = some a → r.results[i]? = some a

/-- **The invariant.** -/
structure Inv (w : World) : Prop where
  workers : w.del.WorkersOK
  nextJobId : w.del.nextJobId = w.created
  ids : (w.del.tickets.map Ticket.id).Nodup
  id_lt : ∀ t ∈ w.del.tickets, ∃ n < w.created, t.id = toStr n
  typed : ∀ t ∈ w.del.tickets, ∃ r, w.del.requests[t.requesterID]? = some r ∧
    r.jobTypes.toList[t.requesterIndex]? = some t.type
  pending : All (Pending w) w.del.requests
  unasked : ∀ n, w.asked.length ≤ n → ∀ i, w.answers n i = none

/-- A message that is a JOB only for an outstanding job, with its type, its id and the data of
its request. -/
def JobSend (d : Delegator) (s : Send) : Prop :=
  s.msg.subject = .job → ∃ t ∈ d.tickets, ∃ r, d.requests[t.requesterID]? = some r ∧
    s.msg.data = [toStr t.type, t.id, r.data]

/-- The event is the RESULT `a` of a connected worker for its job in progress `j`. -/
def Names (w : World) (e : Event) (j : Job) (a : Str) : Prop :=
  ∃ m now fails x wk rest, e = .recv .network m now fails ∧ m.subject = .result ∧
    m.address.head? = some x ∧
    w.del.workers[x]? = some wk ∧ wk.workInProgress[j.id]? = some j ∧ m.data = j.id :: a :: rest

/-- What an admissible event does. -/
inductive Change (w : World) (e : Event) : World → Prop
  /-- Jobs are moved around, and nothing is sent to a requester. -/
  | moved {d : Delegator} {out : List Send} : w.answered e = none → Moved w.del d →
      (∀ s ∈ out, s.sock ≠ .requester ∧ JobSend w.del s) →
      Change w e { w with del := d, sent := w.sent ++ out }
  /-- A request becomes pending, with its jobs. -/
  | request {m : Message} {d : Delegator} : w.answered e = none → RequestOK w.del m →
      d.workers = w.del.workers → d.requests = w.del.requests.insert (key m) (requestOf m) →
      d.tickets = w.del.tickets + (newTickets w.del.nextJobId m : List Ticket) →
      d.nextJobId = w.del.nextJobId + (typesOf m).length →
      Change w e { w with
        del := d
        asked := w.asked ++ [m]
        number := Function.update w.number (key m) w.asked.length }
  /-- A job ends with its result, and its request with it when it was the last one. -/
  | result {j : Job} {r : Request} {a : Str} {d : Delegator} : Names w e j a →
      w.del.requests[j.requesterID]? = some r → d.WorkersOK → w.del.tickets = j.ticket ::ₘ d.tickets →
      d.nextJobId = w.del.nextJobId →
      (d.requests = if r.nDone + 1 = r.jobTypes.size then w.del.requests.erase j.requesterID
        else w.del.requests.insert j.requesterID
          { r with results := r.results.set j.requesterIndex a, nDone := r.nDone + 1 }) →
      Change w e { w with
        del := d
        answers := Gather.record w.answers (w.number j.requesterID) j.requesterIndex a
        sent := w.sent ++ if r.nDone + 1 = r.jobTypes.size
          then [⟨.requester, ⟨r.address, .result, r.results.set j.requesterIndex a⟩⟩] else []
        replies := w.replies ++ if r.nDone + 1 = r.jobTypes.size
          then [(w.number j.requesterID, ⟨r.address, .result, r.results.set j.requesterIndex a⟩)]
            else [] }

variable {w w' : World} {e : Event}

/-! ## What an event does -/

theorem size_typeSet (m : Message) : (typeSet m).size = (typesOf m).length := by
  unfold typesOf; rw [ExtTreeSet.length_toList]

/-- A request has no more jobs than were created. -/
theorem length_typesOf_le {q : Message} (hq : q ∈ w.asked) : (typesOf q).length ≤ w.created :=
  List.single_le_sum (by simp) _ (List.mem_map_of_mem hq)

theorem mem_tickets_of_wip {d : Delegator} {x i : Str} {wk : Worker} {j : Job}
    (hw : d.workers[x]? = some wk) (hj : wk.workInProgress[i]? = some j) : j.ticket ∈ d.tickets :=
  mem_tickets.2 ⟨j, mem_outstanding.2 (.inr ⟨x, wk, i, hw, hj⟩), rfl⟩

/-- The part that a RESULT answers is that of a job in progress. -/
theorem answered_eq_some {m : Message} {now : ℤ} {fails : Bool} {p : ℕ × ℕ × Str}
    (h : w.answered (.recv .network m now fails) = some p) :
    m.subject = .result ∧ ∃ x tl wk i a rest j, m.address = x :: tl ∧ w.del.workers[x]? = some wk ∧
      m.data = i :: a :: rest ∧ wk.workInProgress[i]? = some j ∧
      p = (w.number j.requesterID, j.requesterIndex, a) := by
  simp only [World.answered] at h
  split at h
  · rename_i hsub
    simp only [Option.bind_eq_bind, Option.bind_eq_some_iff, Option.pure_def, Option.some.injEq] at h
    obtain ⟨x, hx, wk, hwk, i, hi, j, hj, a, ha, rfl⟩ := h
    obtain ⟨tl, htl⟩ := List.head?_eq_some_iff.1 hx
    match hm : m.data with
    | [] | [_] => rw [hm] at ha; simp at ha
    | i' :: a' :: rest =>
      rw [hm] at hi ha
      simp only [List.getElem?_cons_zero, List.getElem?_cons_succ, Option.some.injEq] at hi ha
      subst hi ha
      exact ⟨hsub, x, tl, wk, _, _, rest, j, htl, hwk, rfl, hj, rfl⟩
  · cases h

theorem growth_of_ne (h : ∀ m now fails, e = .recv .requester m now fails → False) :
    World.growth e = 0 := by
  unfold World.growth
  split
  · exact absurd rfl (h _ _ _)
  · rfl

/-- The record grows by the jobs that an event creates. -/
theorem created_step (h : w.step e = some w') : w'.created = w.created + World.growth e := by
  unfold World.step at h
  split at h
  · injection h with h; subst h
    unfold World.observe
    split
    · simp [World.created, World.growth]
    · rename_i hne _ _; rw [growth_of_ne hne]; rfl
    · rename_i hne _ _; rw [growth_of_ne hne]; rfl
  · cases h

/-- A RESULT for a job in progress. -/
theorem result_change (hinv : Inv w) (hlt : w.created < 2 ^ 32) {m : Message} {now : ℤ} {fails : Bool}
    (ha : (w.answered (.recv .network m now fails)).isSome) :
    ∃ w', w.step (.recv .network m now fails) = some w' ∧ Change w (.recv .network m now fails) w' := by
  obtain ⟨p, hp⟩ := Option.isSome_iff_exists.1 ha
  obtain ⟨hsub, x, tl, wk, i, a, rest, j, haddr, hwk, hdata, hj, rfl⟩ := answered_eq_some hp
  obtain ⟨r, hr, htype⟩ := hinv.typed _ (mem_tickets_of_wip hwk hj)
  have hpend := hinv.pending _ r hr
  -- the place of the job is one of the request
  have hidx : j.requesterIndex < r.results.length := by
    rw [hpend.results, ← ExtTreeSet.length_toList]; exact (List.getElem?_eq_some_iff.1 htype).1
  -- this job is not counted yet
  have hn : r.nDone + 1 < 2 ^ 32 := by
    obtain ⟨q, hq, -, -, htypes, -⟩ := hpend.asked
    have h1 := length_typesOf_le (List.mem_of_getElem? hq)
    rw [← size_typeSet, ← htypes] at h1
    have h2 := hpend.count
    have h3 := Multiset.card_pos.2 hpend.left
    omega
  obtain ⟨d, hrun, hok, ht, hid, hreq⟩ :=
    receiveResult_spec hinv.workers haddr hwk hdata hj hr hidx hn now
  obtain rfl : j.id = i := (hinv.workers x wk hwk).key i j hj
  refine ⟨_, ?_, .result ⟨m, now, fails, x, wk, rest, rfl, hsub, by rw [haddr]; rfl, hwk, hj, hdata⟩
    hr hok ht hid hreq⟩
  unfold World.step handle
  simp only [hsub, hrun, World.observe, hp]
  split <;> simp

/-- A handler that moves jobs around, of an event that the observer does not record. -/
theorem moved_change {d : Delegator} {out : List Send} (hrun : w.del.handle e = .ok (d, out))
    (hd : Moved w.del d) (hout : ∀ s ∈ out, s.sock ≠ .requester ∧ JobSend w.del s)
    (ha : w.answered e = none) (hne : ∀ m now fails, e ≠ .recv .requester m now fails) :
      ∃ w', w.step e = some w' ∧ Change w e w' := by
  refine ⟨_, ?_, .moved ha hd hout⟩
  unfold World.step World.observe
  simp only [hrun, ha]

/-- A message that is forwarded to the heartbeat thread. -/
theorem forward_ok {d : Delegator} {m : Message} (hne : m.subject ≠ .job) :
    ∀ s ∈ [(⟨.heartbeat, m⟩ : Send)], s.sock ≠ .requester ∧ JobSend d s := by
  intro s hs
  rw [List.mem_singleton] at hs
  subst hs
  exact ⟨by simp, fun h => absurd h hne⟩

theorem poll_change (hinv : Inv w) {clock : Str → ℤ} {fails : Str → Bool}
    (hok : ∀ id, fails id = false) :
    ∃ w', w.step (.poll clock fails) = some w' ∧ Change w (.poll clock fails) w' := by
  have hreq : ∀ j ∈ w.del.jobQueue, j.requesterID ∈ w.del.requests := by
    intro j hj
    obtain ⟨r, hr, -⟩ := hinv.typed _ (mem_tickets.2 ⟨j, mem_outstanding.2 (.inl hj), rfl⟩)
    exact mem_iff_getElem?.2 ⟨r, hr⟩
  obtain ⟨d, out, hrun, hd, hsent⟩ := onPoll_spec clock hok hinv.workers hreq hinv.ids
  refine moved_change hrun hd ?_ rfl (by simp)
  intro s hs
  obtain ⟨j, hj, addr, r, hr, rfl⟩ := hsent s hs
  exact ⟨by simp, fun _ => ⟨j.ticket, mem_tickets.2 ⟨j, mem_outstanding.2 (.inl hj), rfl⟩, r, hr, rfl⟩⟩

theorem request_change (hinv : Inv w) {m : Message} {now : ℤ} {fails : Bool}
    (hsub : m.subject = .request) (hm : RequestOK w.del m)
    (hlt : w.created + (typesOf m).length < 2 ^ 32) :
    ∃ w', w.step (.recv .requester m now fails) = some w' ∧
      Change w (.recv .requester m now fails) w' := by
  obtain ⟨d, hrun, hw, hreq, ht, hid⟩ := receiveRequest_spec hm (by rw [hinv.nextJobId]; exact hlt)
  refine ⟨_, ?_, .request rfl hm hw hreq ht hid⟩
  unfold World.step handle
  simp only [hsub, hrun, ok_bind, World.observe]
  simp only [pure, Except.pure, List.append_nil]

theorem heartbeat_change (hinv : Inv w) {m : Message} {now : ℤ} {fails : Bool} (haddr : m.address ≠ [])
    (hsub : m.subject = .heartbeat ∨ m.subject = .goodbye) :
    ∃ w', w.step (.recv .heartbeat m now fails) = some w' ∧
      Change w (.recv .heartbeat m now fails) w' := by
  obtain ⟨x, tl, hx⟩ := List.exists_cons_of_ne_nil haddr
  obtain ⟨d, hrun, hd⟩ := disconnectWorker_spec hinv.workers hx
  rcases hsub with hsub | hsub
  · cases fails with
    | false =>
      have hout : ∀ s ∈ [(⟨.network, m⟩ : Send)], s.sock ≠ .requester ∧ JobSend w.del s := by
        intro s hs
        rw [List.mem_singleton] at hs
        subst hs
        exact ⟨by simp, fun h => by simp [hsub] at h⟩
      exact moved_change (by simp [handle, hsub]) (.refl hinv.workers) hout rfl (by simp)
    | true =>
      have hrun' : w.del.handle (.recv .heartbeat m now true) = .ok (d, []) := by
        simp only [handle, hsub, sendFailed, hrun, if_true, ok_bind]
        rfl
      exact moved_change hrun' hd (by simp) rfl (by simp)
  · have hrun' : w.del.handle (.recv .heartbeat m now fails) = .ok (d, []) := by
      simp only [handle, hsub, hrun, ok_bind]
      rfl
    exact moved_change hrun' hd (by simp) rfl (by simp)

theorem network_change (hinv : Inv w) {m : Message} {now : ℤ} {fails : Bool}
    (hok : Admissible w (.recv .network m now fails))
    (hbye : ¬ (Event.recv .network m now fails).NetworkGoodbye) (hlt : w.created < 2 ^ 32) :
    ∃ w', w.step (.recv .network m now fails) = some w' ∧ Change w (.recv .network m now fails) w' := by
  simp only [Admissible] at hok
  split at hok
  · rename_i hsub
    obtain ⟨d, hrun, hd⟩ := newWorker_spec hinv.workers hok now
    have hne : m.subject ≠ .job := by simp [hsub]
    exact moved_change (by simp only [handle, hsub, hrun]) hd (forward_ok hne)
      (by simp [World.answered, hsub]) (by simp)
  · rename_i hsub
    rcases hok with ⟨x, hx, hmem⟩ | ha
    · obtain ⟨tl, hx⟩ := List.head?_eq_some_iff.1 hx
      have hnone : w.del.workers[x]? = none := by simpa using hmem
      have hrun : w.del.handle (.recv .network m now fails) = .ok (w.del, []) := by
        simp only [handle, hsub, receiveResult_unknown hx hmem]
      exact moved_change hrun (.refl hinv.workers) (by simp)
        (by simp [World.answered, hx, hnone]) (by simp)
    · exact result_change hinv hlt ha
  · rename_i hsub
    have hne : m.subject ≠ .job := by simp [hsub]
    exact moved_change (by simp only [handle, hsub]) (.refl hinv.workers) (forward_ok hne)
      (by simp [World.answered, hsub]) (by simp)
  · rename_i hsub
    exact absurd hsub hbye
  · exact hok.elim

/-- **What an admissible event does** that is no GOODBYE from the network: it succeeds, with one of
the three effects. -/
theorem step_change (hinv : Inv w) (hok : Admissible w e) (hbye : ¬ e.NetworkGoodbye)
    (hlt : w.created + World.growth e < 2 ^ 32) : ∃ w', w.step e = some w' ∧ Change w e w' := by
  cases e with
  | poll clock fails => exact poll_change hinv hok
  | recv sock m now fails =>
    cases sock with
    | requester => exact request_change hinv hok.1 hok.2 hlt
    | heartbeat => exact heartbeat_change hinv hok.1 hok.2
    | network => exact network_change hinv hok hbye (Nat.lt_of_le_of_lt (Nat.le_add_right _ _) hlt)

end Stateline
