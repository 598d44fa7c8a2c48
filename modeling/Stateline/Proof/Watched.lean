import Stateline.Proof.Cluster
import Stateline.Proof.Reply

/-!
# What an observer sees of the cluster

The workers of this program are honest: a RESULT that one of them sends is the answer of its
minion to a JOB that it was sent, and when it is connected the job is in progress there.

* `Watched`: the run of the delegator alone that an observer of the cluster sees.
* `watched_event`: **the delegator handles whatever it reads**, as an event of honest workers.
* `workers_honest`: every run of the cluster is a run of the delegator with honest workers.
-/

namespace Stateline

open Std Lib Delegator

/-- A step of the observed delegator, and what it sends. -/
theorem World.step_sent {w w' : World} {e : Event} (h : w.step e = some w') :
    ∃ sends, w.del.handle e = .ok (w'.del, sends) ∧ w'.sent = w.sent ++ sends := by
  unfold World.step at h
  split at h
  · rename_i d sends hrun
    injection h with h
    refine ⟨sends, ?_, ?_⟩
    · rw [hrun, ← h]
      unfold World.observe
      split <;> rfl
    · rw [← h]
      unfold World.observe
      split <;> rfl
  · cases h

/-- The request that an event brings. -/
def World.requestsOf : Event → List Message
  | .recv .requester m _ _ => [m]
  | _ => []

/-- The observer notes the requests as they come. -/
theorem World.asked_of_step {w w' : World} {e : Event} (h : w.step e = some w') :
    w'.asked = w.asked ++ World.requestsOf e := by
  unfold World.step at h
  split at h
  · injection h with h
    subst h
    cases e with
    | poll => exact (List.append_nil _).symm
    | recv sock m now fails =>
      cases sock with
      | requester => rfl
      | heartbeat => exact (List.append_nil _).symm
      | network =>
        unfold World.observe
        split
        · rename_i heq
          cases heq
        · exact (List.append_nil _).symm
        · exact (List.append_nil _).symm
  · cases h

namespace Cluster

open Net (arriving)
open Relay (results answer)

variable {D : Type} {stod : Str → Option D} {to_string : D → Str} {lhFn : ℕ → List D → D}
    {range : Str → Str} {nJobTypes workerCount : ℕ} {c c' : Cluster D} {out : List Message} {x : Str}
    {w : World}

/-- The message is a JOB that the delegator sent. -/
def Dispatched (w : World) (m : Message) : Prop :=
  ∃ addr t i d, m.data = [toStr t, i, d] ∧ ⟨.network, ⟨addr, .job, [toStr t, i, d]⟩⟩ ∈ w.sent

variable (stod to_string lhFn nJobTypes workerCount) in
/-- The run that an observer of the delegator sees. -/
structure Watched (c : Cluster D) (w : World) : Prop where
  del : w.del = c.del
  created : w.created = c.created
  run : ∃ es, Reach World.step (Bounded (HonestEvent (answer stod to_string lhFn)))
    (.init nJobTypes workerCount) es w
  toWorker : ∀ x, ∀ m ∈ c.toWorker x, m.subject = .job → Dispatched w m
  received : ∀ x, ∀ m ∈ (c.relay x).received, Dispatched w m

theorem Watched.init (range : Str → Str) :
    Watched stod to_string lhFn nJobTypes workerCount (.init nJobTypes workerCount range)
      (.init nJobTypes workerCount) where
  del := rfl
  created := rfl
  run := ⟨[], .start⟩
  toWorker _ _ hm := (List.not_mem_nil hm).elim
  received _ _ hm := (List.not_mem_nil hm).elim

theorem Watched.inv (hw : Watched stod to_string lhFn nJobTypes workerCount c w) : Stateline.Inv w := by
  obtain ⟨es, hrun⟩ := hw.run
  exact inv_of_reach (hrun.mono fun _ _ h => ⟨h.1.1, h.2⟩)

theorem Dispatched.append {w' : World} {m : Message} {sends : List Send} (h : Dispatched w m)
    (hsent : w'.sent = w.sent ++ sends) : Dispatched w' m := by
  obtain ⟨addr, t, i, d, hdata, hmem⟩ := h
  exact ⟨addr, t, i, d, hdata, by rw [hsent]; exact List.mem_append_left _ hmem⟩

/-! ## Events -/

/-- A request is admitted when it is one, under a key that is not pending. -/
def Allowed (c : Cluster D) : Act → Prop
  | .request m => m.subject = .request ∧ RequestOK c.del m
  | _ => True

/-- **What the delegator reads is admissible.** -/
theorem admissible_of_reads {a : Act} {e : Event} {c₁ : Cluster D} (hi : Inv stod to_string lhFn range c)
    (hw : Watched stod to_string lhFn nJobTypes workerCount c w) (hr : Reads c a e c₁)
    (hrange : ∀ x, HelloOK ⟨[x], .hello, [range x]⟩) (hok : c.Allowed a) : Admissible w e := by
  cases hr with
  | request =>
    rw [Admissible, hw.del]
    exact hok
  | poll => exact fun _ => rfl
  | timeout => exact ⟨List.cons_ne_nil _ _, .inr rfl⟩
  | beat => exact ⟨List.cons_ne_nil _ _, .inl rfl⟩
  | @deliver x now m rest hm =>
    have hmem : m ∈ c.fromWorker x := hm ▸ List.mem_cons_self
    cases hi.net.posted x m hmem with
    | @hello r =>
      have hr : r = range x := (List.cons.inj (hi.hello x _ hmem rfl)).1
      rw [hr]
      exact hrange x
    | heartbeat => trivial
    | @result i a =>
      rcases hwk : w.del.workers[x]? with _ | wk
      · exact .inl ⟨x, rfl, by simpa using hwk⟩
      · right
        have hin : i ∈ wk.workInProgress := hi.net.in_progress hm (by rw [← hwk, hw.del]; rfl)
        obtain ⟨j, hj⟩ := mem_iff_getElem?.1 hin
        simp [World.answered, hwk, hj]

/-- The workers never send a GOODBYE. -/
theorem not_networkGoodbye_of_reads {a : Act} {e : Event} {c₁ : Cluster D}
    (hi : Inv stod to_string lhFn range c) (hr : Reads c a e c₁) : ¬ e.NetworkGoodbye := by
  cases hr with
  | @deliver x now m rest hm =>
    have hmem : m ∈ c.fromWorker x := hm ▸ List.mem_cons_self
    cases hi.net.posted x m hmem <;> exact Subject.noConfusion
  | _ => exact not_false

/-- **A RESULT that is read is honest.** -/
theorem honest_of_reads {a : Act} {e : Event} {c₁ : Cluster D} (hi : Inv stod to_string lhFn range c)
    (hw : Watched stod to_string lhFn nJobTypes workerCount c w) (hr : Reads c a e c₁) :
    Honest (answer stod to_string lhFn) w e := by
  rintro j b ⟨m', now', fails, y, wk, more, rfl, hsub, -, -, -, hdata⟩
  cases hr with
  | @deliver x now m rest hm =>
    -- the worker has sent the RESULT, for a JOB that it has received
    have hmem : m ∈ results (c.relay x).sent :=
      List.mem_filter.2 ⟨(hi.sent x).subset (hm ▸ List.mem_cons_self), decide_eq_true hsub⟩
    obtain ⟨k, hk⟩ := List.getElem?_of_mem hmem
    obtain ⟨job, hjob, hans⟩ := (hi.relay x).answers hk
    obtain ⟨addr, t, i, d, hjobdata, hsent⟩ := hw.received x job (List.mem_of_getElem? hjob)
    rw [hans.eq hjobdata] at hdata
    cases hdata
    exact ⟨addr, t, d, hsent, rfl⟩

/-- The jobs that a request makes. -/
theorem jobsOf_eq {d d' : Delegator} {m : Message} (h : d.receiveRequest m = .ok d') :
    Net.jobsOf m = (typesOf m).length := by
  obtain ⟨-, ⟨frame, hframe, htypes⟩, -⟩ := receiveRequest_eq_ok h
  unfold Net.jobsOf
  rw [hframe, ok_bind, htypes]
  rfl

/-- The observer counts the jobs that are created. -/
theorem created_of_reads {a : Act} {e : Event} {c₁ : Cluster D} {d : Delegator} {sends : List Send}
    (hr : Reads c a e c₁) (hok : c.Allowed a) (h : c.del.handle e = .ok (d, sends)) :
    c₁.created = c.created + World.growth e := by
  cases hr with
  | @request m =>
    obtain ⟨hsub, -⟩ := hok
    simp only [handle, hsub] at h
    obtain ⟨d', hreq, -⟩ := bind_eq_ok h
    rw [World.growth, ← jobsOf_eq hreq]
  | _ => rfl

/-- A JOB that arrives was sent. -/
theorem dispatched_of_arriving {sends : List Send} {w' : World} (hsends : ∀ s ∈ sends, JobSend w.del s)
    (hsent : w'.sent = w.sent ++ sends) {m : Message} (hm : m ∈ arriving sends x)
    (hsub : m.subject = .job) : Dispatched w' m := by
  obtain ⟨⟨sock, addr, subject, data⟩, hs, rfl⟩ := List.mem_map.1 hm
  obtain ⟨hs, hto⟩ := List.mem_filter.1 hs
  obtain ⟨t, -, r, -, hdata⟩ := hsends _ hs hsub
  obtain ⟨hnet, -⟩ := of_decide_eq_true hto
  dsimp only at hsub hdata hnet
  subst hsub hdata hnet
  refine ⟨addr, t.type, t.id, r.data, rfl, ?_⟩
  rw [hsent]
  exact List.mem_append_right _ hs

/-- The delegator sends JOBs for outstanding jobs only. -/
theorem jobSend_of_change {e : Event} {w' : World} {sends : List Send} (h : Change w e w')
    (hsent : w'.sent = w.sent ++ sends) : ∀ s ∈ sends, JobSend w.del s := by
  cases h with
  | @moved d out _ _ hout =>
    obtain rfl : out = sends := List.append_cancel_left hsent
    exact fun s hs => (hout s hs).2
  | request =>
    obtain rfl : [] = sends := List.append_cancel_left ((List.append_nil _).trans hsent)
    exact List.forall_mem_nil _
  | result =>
    rw [← List.append_cancel_left hsent]
    intro s hs hsub
    split at hs
    · rw [List.mem_singleton.1 hs] at hsub
      cases hsub
    · cases hs

/-- **The delegator handles whatever it reads**, and the observer sees an event of honest workers. -/
theorem watched_event {a : Act} {e : Event} {c₁ : Cluster D} (hi : Inv stod to_string lhFn range c)
    (hw : Watched stod to_string lhFn nJobTypes workerCount c w) (hr : Reads c a e c₁)
    (hrange : ∀ x, HelloOK ⟨[x], .hello, [range x]⟩) (hok : c.Allowed a)
    (hc : c.created + World.growth e < 2 ^ 32) :
    ∃ d sends w', c.del.handle e = .ok (d, sends) ∧ c₁.created < 2 ^ 32 ∧ w.step e = some w' ∧
      Change w e w' ∧ w'.sent = w.sent ++ sends ∧
      Watched stod to_string lhFn nJobTypes workerCount
        { c₁ with del := d, toWorker := fun x => c₁.toWorker x ++ arriving sends x } w' := by
  have hadm := admissible_of_reads hi hw hr hrange hok
  obtain ⟨w', hstep, hchange⟩ :=
    step_change hw.inv hadm (not_networkGoodbye_of_reads hi hr) (by rw [hw.created]; exact hc)
  obtain ⟨sends, hrun, hsent⟩ := World.step_sent hstep
  rw [hw.del] at hrun
  have hcreated := created_of_reads hr hok hrun
  have hcreated' : w'.created = c₁.created := by rw [created_step hstep, hw.created, hcreated]
  refine ⟨w'.del, sends, w', hrun, by rw [hcreated]; exact hc, hstep, hchange, hsent, rfl, hcreated',
    ?_, ?_, ?_⟩
  · obtain ⟨es, hreach⟩ := hw.run
    refine ⟨_, hreach.next ⟨⟨hadm, honest_of_reads hi hw hr⟩, ?_⟩ hstep⟩
    intro w'' hstep'
    obtain rfl : w' = w'' := Option.some.inj (hstep.symm.trans hstep')
    rw [hcreated', hcreated]
    exact hc
  · intro x m hm hsub
    rw [(fromWorker_of_reads hr x).2.2] at hm
    rcases List.mem_append.1 hm with hm | hm
    · exact (hw.toWorker x m hm hsub).append hsent
    · exact dispatched_of_arriving (jobSend_of_change hchange hsent) hsent hm hsub
  · intro x m hm
    change m ∈ (c₁.relay x).received at hm
    rw [(fromWorker_of_reads hr x).2.1] at hm
    exact (hw.received x m hm).append hsent

/-! ## Steps of the workers -/

/-- A step of a worker is not seen. -/
theorem Watched.worked {toWorker : Str → List Message} {r : Relay D} {new : List Message}
    (hw : Watched stod to_string lhFn nJobTypes workerCount c w) (hto : ∀ y, toWorker y <:+ c.toWorker y)
    (hreceived : ∀ m ∈ r.received, Dispatched w m) :
    Watched stod to_string lhFn nJobTypes workerCount (c.worked toWorker x r new) w := by
  refine ⟨hw.del, hw.created, hw.run, fun y m hm => hw.toWorker y m ((hto y).subset hm), ?_⟩
  intro y m hm
  change m ∈ (Function.update c.relay x r y).received at hm
  rcases eq_or_ne y x with rfl | hne
  · rw [Function.update_self] at hm
    exact hreceived m hm
  · rw [Function.update_of_ne hne] at hm
    exact hw.received y m hm

theorem watched_take {m : Message} {rest : List Message} {r : Relay D}
    (hw : Watched stod to_string lhFn nJobTypes workerCount c w) (hm : c.toWorker x = m :: rest)
    (hr : (c.relay x).step stod to_string lhFn (.network m) = some r) (new : List Message) :
    Watched stod to_string lhFn nJobTypes workerCount
      (c.worked (Function.update c.toWorker x rest) x r new) w := by
  refine hw.worked ?_ ?_
  · intro y
    rcases eq_or_ne y x with rfl | hne
    · rw [Function.update_self, hm]
      exact List.suffix_cons m rest
    · rw [Function.update_of_ne hne]
  · cases Relay.step_effect hr with
    | job hsub hreceived _ _ =>
      rw [hreceived]
      intro m' hm'
      rcases List.mem_append.1 hm' with hm' | hm'
      · exact hw.received x m' hm'
      · rw [List.mem_singleton.1 hm']
        exact hw.toWorker x m (hm ▸ List.mem_cons_self) hsub
    | other _ hreceived _ _ =>
      rw [hreceived]
      exact hw.received x

theorem watched_work {k : Work} {r : Relay D} (hi : Inv stod to_string lhFn range c)
    (hw : Watched stod to_string lhFn nJobTypes workerCount c w)
    (hr : (c.relay x).step stod to_string lhFn k.act = some r) {new : List Message} :
    Watched stod to_string lhFn nJobTypes workerCount (c.worked c.toWorker x r new) w := by
  refine hw.worked (fun y => List.suffix_refl _) ?_
  rw [(inv_work hi hr).2]
  exact hw.received x

/-! ## Runs -/

variable (stod to_string lhFn) in
/-- A step, without what it sends to requesters. -/
def next (c : Cluster D) (a : Act) : Option (Cluster D) := (c.step stod to_string lhFn a).map Prod.fst

theorem next_eq_some {a : Act} (h : next stod to_string lhFn c a = some c') :
    ∃ out, c.step stod to_string lhFn a = some (c', out) := by
  obtain ⟨⟨c₁, out⟩, hs, rfl⟩ := Option.map_eq_some_iff.1 h
  exact ⟨out, hs⟩

/-- Jobs are created, and never taken back. -/
theorem created_le {a : Act} (h : c.step stod to_string lhFn a = some (c', out)) :
    c.created ≤ c'.created := by
  cases step_cases h with
  | event hr =>
    cases hr with
    | request => exact Nat.le_add_right _ _
    | _ => exact le_rfl
  | take => exact le_rfl
  | work => exact le_rfl

/-- **Every step is watched.** -/
theorem watched_step {a : Act} (hi : Inv stod to_string lhFn range c)
    (hw : Watched stod to_string lhFn nJobTypes workerCount c w)
    (hrange : ∀ x, HelloOK ⟨[x], .hello, [range x]⟩) (hok : c.Allowed a)
    (h : c.step stod to_string lhFn a = some (c', out)) (hc : c'.created < 2 ^ 32) :
    ∃ w', Watched stod to_string lhFn nJobTypes workerCount c' w' := by
  cases step_cases h with
  | event hr hrun =>
    have hgrown : c.created + World.growth _ < 2 ^ 32 := created_of_reads hr hok hrun ▸ hc
    obtain ⟨d, sends, w', hrun', -, -, -, -, hw'⟩ := watched_event hi hw hr hrange hok hgrown
    rw [hrun] at hrun'
    obtain ⟨rfl, rfl⟩ := ok_pair_inj hrun'
    exact ⟨w', hw'⟩
  | take hm hr => exact ⟨w, watched_take hw hm hr _⟩
  | work hr => exact ⟨w, watched_work hi hw hr⟩

theorem watched_of_reach {as : List Act} (hrange : ∀ x, HelloOK ⟨[x], .hello, [range x]⟩)
    (h : Reach (next stod to_string lhFn) Allowed (.init nJobTypes workerCount range) as c)
    (hc : c.created < 2 ^ 32) :
    Inv stod to_string lhFn range c ∧ ∃ w, Watched stod to_string lhFn nJobTypes workerCount c w := by
  have hmono : ∀ (c : Cluster D) a c', next stod to_string lhFn c a = some c' →
      c.created ≤ c'.created := by
    intro c a c' hs
    obtain ⟨out, hs⟩ := next_eq_some hs
    exact created_le hs
  refine (h.bounded hmono hc).invariant (P := fun _ c => Inv stod to_string lhFn range c ∧
    ∃ w, Watched stod to_string lhFn nJobTypes workerCount c w)
    ⟨.init nJobTypes workerCount range, _, .init range⟩ ?_
  rintro as c a c' - ⟨hi, w, hw⟩ ⟨hok, hbound⟩ hs
  have hc' := hbound c' hs
  obtain ⟨out, hs⟩ := next_eq_some hs
  exact ⟨inv_step hi hs hc'.le, watched_step hi hw hrange hok hs hc'⟩

/-- **The workers are honest**: in every run of the delegator and its workers, the delegator handles
whatever is there to be read, and a RESULT of a connected worker is for a job in progress there and
carries the likelihood of its type and of the data of its request. -/
theorem workers_honest {as : List Act} (hrange : ∀ x, HelloOK ⟨[x], .hello, [range x]⟩)
    (h : Reach (next stod to_string lhFn) Allowed (.init nJobTypes workerCount range) as c)
    (hc : c.created < 2 ^ 32) :
    (∀ a e c₁, Reads c a e c₁ → c.Allowed a → c.created + World.growth e < 2 ^ 32 →
      (c.step stod to_string lhFn a).isSome) ∧
    ∀ x m rest wk, c.fromWorker x = m :: rest → m.subject = .result → c.del.workers[x]? = some wk →
      ∃ (j : Job) (r : Request), wk.workInProgress[j.id]? = some j ∧
        c.del.requests[j.requesterID]? = some r ∧
        r.jobTypes.toList[j.requesterIndex]? = some j.type ∧
        m.data = [j.id, answer stod to_string lhFn j.type r.data] := by
  obtain ⟨hi, w, hw⟩ := watched_of_reach hrange h hc
  refine ⟨?_, ?_⟩
  · intro a e c₁ hr hok hgrown
    obtain ⟨d, sends, w', hrun, -⟩ := watched_event hi hw hr hrange hok hgrown
    rw [step_of_reads hr hrun]
    rfl
  · intro x m rest wk hm hsub hwk
    cases hi.net.posted x m (show m ∈ c.fromWorker x from hm ▸ List.mem_cons_self) with
    | hello => cases hsub
    | heartbeat => cases hsub
    | @result i a =>
      have hin : i ∈ wk.workInProgress := hi.net.in_progress hm hwk
      obtain ⟨j, hj⟩ := mem_iff_getElem?.1 hin
      rw [← hw.del] at hwk
      obtain rfl : j.id = i := (hw.inv.workers x wk hwk).key i j hj
      -- the JOB that was sent under its id agrees with the job in progress
      have hnames : Names w (.recv .network ⟨[x], .result, [j.id, a]⟩ 0 false) j a :=
        ⟨_, _, _, x, wk, [], rfl, rfl, rfl, hwk, hj, rfl⟩
      obtain ⟨addr, t, d, hsent, rfl⟩ := honest_of_reads hi hw (.deliver hm) j a hnames
      obtain ⟨es, hreach⟩ := hw.run
      obtain ⟨t', n, d', -, hdata, hagree⟩ := (honest_invariant hreach).1 _ hsent rfl
      obtain ⟨ht, hid, rfl⟩ : toStr t = toStr t' ∧ j.id = toStr n ∧ d = d' := by simpa using hdata
      have hticket := mem_tickets_of_wip hwk hj
      obtain ⟨htype, r, hr, hrdata⟩ := hagree j.ticket hticket hid
      obtain ⟨r', hr', hidx⟩ := hw.inv.typed _ hticket
      obtain rfl : r = r' := Option.some.inj (hr.symm.trans hr')
      refine ⟨j, r, hj, hw.del ▸ hr, hidx, ?_⟩
      rw [hrdata, show j.type = t from htype.trans (toStr_inj.1 ht).symm]

/-- A whole number, as `std::to_string` writes it. -/
def wholeToString (n : ℕ) : Str := toStr n ++ ".000000".toList

/-- Workers whose likelihood is the sum of the sample, on whole numbers. -/
def sumNext : Cluster ℕ → Act → Option (Cluster ℕ) :=
  next stoul wholeToString fun _ sample => sample.sum

/-- A request with one job, of type 0, for the sample (2, 1). -/
def requestTwo : Message := ⟨[['r']], .request, [['0'], "2.000000:1.000000".toList]⟩

set_option maxRecDepth 8000 in
/-- A worker connects, is sent a job, and sends its RESULT. -/
theorem workers_honest_run : ∃ c : Cluster ℕ, Reach sumNext Allowed (.init 1 0 fun _ => [])
      [.work ['w'] .fromMinion, .deliver ['w'] 0, .request requestTwo, .poll fun _ => 0, .take ['w'],
        .work ['w'] .nextJob, .work ['w'] .submitResult, .work ['w'] .fromMinion] c ∧
    c.fromWorker ['w'] = [⟨[], .result, [['0'], "3.000000".toList]⟩] ∧
    ∃ wk, c.del.workers[['w']]? = some wk ∧ ∃ (j : Job) (r : Request),
      wk.workInProgress[j.id]? = some j ∧ c.del.requests[j.requesterID]? = some r ∧
      r.jobTypes.toList[j.requesterIndex]? = some j.type ∧
      [['0'], "3.000000".toList] =
        [j.id, answer stoul wholeToString (fun _ sample => sample.sum) j.type r.data] := by
  have h : Reach sumNext Allowed (.init 1 0 fun _ => []) [] _ := .start
  have h := h.next' (e := .work ['w'] .fromMinion) (by exact trivial) (by decide)
  have h := h.next' (e := .deliver ['w'] 0) (by exact trivial) (by decide)
  have h := h.next' (e := .request requestTwo)
    (by exact ⟨rfl, by decide, by decide, by decide, [0], by decide, by decide, by decide⟩) (by decide)
  have h := h.next' (e := .poll fun _ => 0) (by exact trivial) (by decide)
  have h := h.next' (e := .take ['w']) (by exact trivial) (by decide)
  have h := h.next' (e := .work ['w'] .nextJob) (by exact trivial) (by decide)
  have h := h.next' (e := .work ['w'] .submitResult) (by exact trivial) (by decide)
  have h := h.next' (e := .work ['w'] .fromMinion) (by exact trivial) (by decide)
  refine ⟨_, h, by decide, _, (Option.some_get (by decide)).symm, ?_⟩
  exact (workers_honest (fun x => ⟨List.cons_ne_nil _ _, [], [], rfl, .inl rfl⟩) h (by decide)).2 _
    ⟨[], .result, [['0'], "3.000000".toList]⟩ [] _ (by decide) rfl (Option.some_get (by decide)).symm

end Cluster

end Stateline
