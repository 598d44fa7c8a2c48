import Stateline.Proof.Effort
import Stateline.Proof.Greedy
import Stateline.Proof.Watched

/-!
# When nothing is left to do

A delegator and its workers that can only act on what comes from outside have done all that they can.
The minions can read every JOB, as the data of every request is legible; one that cannot throws, and
its worker keeps the job for ever.

* `Cluster.Legible`: the minions can read all that they are sent.
* `Cluster.idle_of_quiet`: **no job is in progress when the cluster is quiet**, and those in the queue
  fit no worker.
-/

namespace Stateline

open Std Lib Delegator

/-! ## The steps of a worker -/

namespace Relay

variable {D : Type} {stod : Str → Option D} {to_string : D → Str} {lhFn : ℕ → List D → D}
    {s : Relay D} {m : Message} {rest : List Message}

/-- The worker takes what the delegator sends. -/
theorem network_ok (h : m.subject = .heartbeat ∨ m.subject = .job) :
    (s.step stod to_string lhFn (.network m)).isSome := by
  rcases h with h | h <;> simp [step, Worker.handle, h, afterWorker]

/-- The worker takes a RESULT of its minion. -/
theorem fromMinion_ok (hto : s.toWorker = m :: rest) (h : m.subject = .result) :
    (s.step stod to_string lhFn .fromMinion).isSome := by
  simp [step, hto, Worker.handle, h, afterWorker]

/-- An idle minion takes a JOB that it can read. -/
theorem nextJob_ok {r : Str × ℕ × List D} (hjob : s.minion.job = none) (hto : s.toMinion = m :: rest)
    (h : Relay.nextJob stod m = .ok r) : (s.step stod to_string lhFn .nextJob).isSome := by
  obtain ⟨id, job⟩ := r
  simp [step, hjob, hto, h]

/-- A busy minion sends its result. -/
theorem submitResult_ok (hjob : s.minion.job.isSome) :
    (s.step stod to_string lhFn .submitResult).isSome := by
  obtain ⟨⟨jobType, sample⟩, hjob⟩ := Option.isSome_iff_exists.1 hjob
  simp [step, hjob]

/-- **A worker with nothing on the way** has answered all its jobs. -/
theorem Inv.idle (hi : Inv stod to_string lhFn s) (hto : s.toMinion = []) (hjob : s.minion.job = none)
    (hres : results s.toWorker = []) : s.unanswered = [] := by
  obtain ⟨hcon, hphase⟩ := hi
  rw [unanswered, List.drop_eq_nil_iff]
  cases hphase with
  | waiting hw hdone =>
    rw [hcon, hw, List.append_nil, hdone.length_eq]
  | busy hw hhanded hdone hflight =>
    -- a job in flight is somewhere
    rw [hto, hres] at hflight
    cases hflight with
    | atMinion _ hsome =>
      rw [hjob] at hsome
      cases hsome

end Relay

namespace Cluster

open Net (arriving)

variable {D : Type} {stod : Str → Option D} {to_string : D → Str} {lhFn : ℕ → List D → D}
    {range : Str → Str} {nJobTypes workerCount : ℕ} {c c' : Cluster D} {out : List Message} {x : Str}
    {w w' : World}

/-! ## Legible requests -/

/-- The minion can read the JOB. -/
def Readable (stod : Str → Option D) (m : Message) : Prop := ∃ r, Relay.nextJob stod m = .ok r

/-- The data of a request are numbers, and its job types are small. -/
structure LegibleRequest (stod : Str → Option D) (r : Request) : Prop where
  types : ∀ t ∈ r.jobTypes, t < 2 ^ 31
  data : ∀ s ∈ segments r.data ':', (stod s).isSome

/-- **All JOBs can be read.** -/
structure Legible (stod : Str → Option D) (c : Cluster D) : Prop where
  requests : ∀ (k : Str) (r : Request), c.del.requests[k]? = some r → LegibleRequest stod r
  toWorker : ∀ x, ∀ m ∈ c.toWorker x, m.subject = .heartbeat ∨ m.subject = .job ∧ Readable stod m
  waiting : ∀ x, ∀ m ∈ (c.relay x).waiting, Readable stod m

theorem mapM_orThrow {l : List Str} (h : ∀ s ∈ l, (stod s).isSome) :
    ∃ v, l.mapM (fun s => orThrow (stod s)) = (.ok v : Except Fault (List D)) := by
  induction l with
  | nil => exact ⟨[], rfl⟩
  | cons s l ih =>
    obtain ⟨hs, hl⟩ := List.forall_mem_cons.1 h
    obtain ⟨x, hx⟩ := Option.isSome_iff_exists.1 hs
    obtain ⟨v, hv⟩ := ih hl
    refine ⟨x :: v, ?_⟩
    rw [List.mapM_cons, hx, hv]
    rfl

theorem readable_of_data {m : Message} {t : ℕ} {i data : Str} (hm : m.data = [toStr t, i, data])
    (ht : t < 2 ^ 31) (hdata : ∀ s ∈ segments data ':', (stod s).isSome) : Readable stod m := by
  obtain ⟨v, hv⟩ := mapM_orThrow hdata
  refine ⟨(i, toUint t, v), ?_⟩
  simp only [Relay.nextJob, hm, nth, List.getElem?_cons_zero, List.getElem?_cons_succ, ok_bind, hv,
    stoi_toStr ht]
  rfl

theorem Legible.init (nJobTypes workerCount : ℕ) (range : Str → Str) :
    Legible stod (.init nJobTypes workerCount range) where
  requests k r hr := by simp [Cluster.init, Delegator.init] at hr
  toWorker _ _ hm := (List.not_mem_nil hm).elim
  waiting _ _ hm := (List.not_mem_nil hm).elim

/-- The delegator sends JOBs and HEARTBEATs to its workers. -/
theorem handle_network {d d' : Delegator} {e : Event} {sends : List Send} (hd : Keyed d)
    (h : d.handle e = .ok (d', sends)) :
    ∀ s ∈ sends, s.sock = .network → s.msg.subject = .heartbeat ∨ s.msg.subject = .job := by
  -- of most events nothing is sent to a worker
  have hnone (hother : ∀ s ∈ sends, s.sock ≠ .network) :
      ∀ s ∈ sends, s.sock = .network → s.msg.subject = .heartbeat ∨ s.msg.subject = .job :=
    fun s hs hsock => absurd hsock (hother s hs)
  cases e with
  | poll clock fails =>
    refine pollLoop_returned (P := fun d _ _ sends => Keyed d →
      ∀ s ∈ sends, s.sock = .network → s.msg.subject = .heartbeat ∨ s.msg.subject = .job) ?_ ?_ ?_ h hd
    · exact fun _ _ => List.forall_mem_nil _
    · exact fun _ _ _ _ _ ih hd => ih hd
    · intro d d₁ d' i js y sends sends' h₁ ih hd s hs hsock
      have hkeyed := (dispatch_keys hd h₁).1
      obtain ⟨w, data, -, -, rfl, -⟩ := dispatch_eq_ok (fun w hw => hd y w hw) h₁
      rcases List.mem_append.1 hs with hs | hs
      · rw [List.mem_singleton.1 hs]
        exact .inr rfl
      · exact ih hkeyed s hs hsock
  | recv sock m now fails =>
    simp only [handle] at h
    split at h
    · obtain ⟨d₁, -, h⟩ := bind_eq_ok h
      obtain ⟨-, rfl⟩ := ok_pair_inj h
      exact hnone (List.forall_mem_nil _)
    · obtain ⟨y, hy, -⟩ := bind_eq_ok h
      rw [(newWorker_eq_ok (head?_of_front hy) h).1] at hnone ⊢
      exact hnone (by simp)
    · obtain ⟨y, -, hout, -⟩ := receiveResult_eq_ok h
      refine hnone ?_
      intro s hs
      rw [hout s hs]
      decide
    · obtain ⟨-, rfl⟩ := ok_pair_inj h
      exact hnone (by simp)
    · cases h
    · rename_i hsub
      split at h
      · obtain ⟨d₁, -, h⟩ := bind_eq_ok h
        obtain ⟨-, rfl⟩ := ok_pair_inj h
        exact hnone (List.forall_mem_nil _)
      · obtain ⟨-, rfl⟩ := ok_pair_inj h
        intro s hs _
        rw [List.mem_singleton.1 hs]
        exact .inl hsub
    · obtain ⟨d₁, -, h⟩ := bind_eq_ok h
      obtain ⟨-, rfl⟩ := ok_pair_inj h
      exact hnone (List.forall_mem_nil _)
    · cases h

/-- The requests of an event are legible. -/
def LegibleEvent (stod : Str → Option D) : Event → Prop
  | .recv .requester m _ _ => ∀ s ∈ segments (dataOf m) ':', (stod s).isSome
  | _ => True

/-- The requests stay legible. -/
theorem requests_of_change {e : Event} (hchange : Change w e w') (hstep : w.step e = some w')
    (hl : ∀ (k : Str) (r : Request), w.del.requests[k]? = some r → LegibleRequest stod r)
    (he : LegibleEvent stod e) (k : Str) (r : Request) (hr : w'.del.requests[k]? = some r) :
    LegibleRequest stod r := by
  cases hchange with
  | moved _ hd => exact hl k r (hd.requests ▸ hr)
  | @request m d _ hm _ hreq =>
    change d.requests[k]? = some r at hr
    rw [hreq, getElem?_insert_eq] at hr
    split at hr
    · cases hr
      -- the request is the one of the event
      have hasked : [m] = World.requestsOf e := List.append_cancel_left (World.asked_of_step hstep)
      unfold World.requestsOf at hasked
      split at hasked
      · obtain ⟨rfl, -⟩ := List.cons.inj hasked
        refine ⟨?_, he⟩
        intro t ht
        obtain ⟨-, -, -, ts, -, hts, hseg⟩ := id hm
        have hmem := (mem_typesOf hm).1 (ExtTreeSet.mem_toList.2 ht)
        rw [hseg, List.mem_map] at hmem
        obtain ⟨u, hu, hut⟩ := hmem
        exact toStr_inj.1 hut ▸ hts u hu
      · cases hasked
    · exact hl k r hr
  | @result j r₀ a d _ hr₀ _ _ _ hreq =>
    change d.requests[k]? = some r at hr
    rw [hreq] at hr
    split at hr
    · rw [getElem?_erase_eq] at hr
      split at hr
      · cases hr
      · exact hl k r hr
    · rw [getElem?_insert_eq] at hr
      split at hr
      · cases hr
        exact ⟨(hl _ _ hr₀).types, (hl _ _ hr₀).data⟩
      · exact hl k r hr

/-- **The delegator sends what can be read.** -/
theorem legible_event {a : Act} {e : Event} {c₁ : Cluster D} {d : Delegator} {sends : List Send}
    (hi : Inv stod to_string lhFn range c)
    (hw : Watched stod to_string lhFn nJobTypes workerCount c w) (hl : Legible stod c)
    (hr : Reads c a e c₁) (hrun : c.del.handle e = .ok (d, sends)) (hstep : w.step e = some w')
    (hchange : Change w e w') (hsent : w'.sent = w.sent ++ sends) (hdel : w'.del = d)
    (he : LegibleEvent stod e) :
    Legible stod { c₁ with del := d, toWorker := fun x => c₁.toWorker x ++ arriving sends x } := by
  have hrelay : c₁.relay = c.relay := (fromWorker_of_reads hr []).2.1
  have hto : c₁.toWorker = c.toWorker := (fromWorker_of_reads hr []).2.2
  have hold : ∀ (k : Str) (r : Request), w.del.requests[k]? = some r → LegibleRequest stod r := by
    rw [hw.del]
    exact hl.requests
  refine ⟨?_, ?_, ?_⟩
  · rw [← hdel]
    exact requests_of_change hchange hstep hold he
  · intro x m hm
    rw [hto] at hm
    rcases List.mem_append.1 hm with hm | hm
    · exact hl.toWorker x m hm
    · obtain ⟨s, hs, rfl⟩ := List.mem_map.1 hm
      obtain ⟨hs, hsx⟩ := List.mem_filter.1 hs
      refine (handle_network hi.keyed hrun s hs (of_decide_eq_true hsx).1).imp_right
        fun hsub => ⟨hsub, ?_⟩
      -- a JOB is for an outstanding job of a request
      obtain ⟨t, ht, r, hr, hdata⟩ := jobSend_of_change hchange hsent s hs hsub
      obtain ⟨r', hr', htype⟩ := hw.inv.typed t ht
      rw [hr] at hr'
      cases hr'
      have hlegible := hold _ _ hr
      refine readable_of_data (m := { s.msg with address := s.msg.address.tail }) hdata ?_ hlegible.data
      exact hlegible.types _ (ExtTreeSet.mem_toList.1 (List.mem_of_getElem? htype))
  · show ∀ x, ∀ m ∈ (c₁.relay x).waiting, _
    rw [hrelay]
    exact hl.waiting

/-- A step of a worker, which holds only JOBs that it was sent. -/
theorem Legible.worked {toWorker : Str → List Message} {r : Relay D} {new : List Message}
    (hl : Legible stod c) (hto : ∀ y, toWorker y <:+ c.toWorker y)
    (hwaiting : ∀ m ∈ r.waiting, Readable stod m) : Legible stod (c.worked toWorker x r new) := by
  refine ⟨hl.requests, fun y m hm => hl.toWorker y m ((hto y).subset hm), ?_⟩
  intro y m hm
  change m ∈ (Function.update c.relay x r y).waiting at hm
  rcases eq_or_ne y x with rfl | hne
  · rw [Function.update_self] at hm
    exact hwaiting m hm
  · rw [Function.update_of_ne hne] at hm
    exact hl.waiting y m hm

theorem legible_take {m : Message} {rest : List Message} {r : Relay D} (hl : Legible stod c)
    (hm : c.toWorker x = m :: rest)
    (hr : (c.relay x).step stod to_string lhFn (.network m) = some r) (new : List Message) :
    Legible stod (c.worked (Function.update c.toWorker x rest) x r new) := by
  refine hl.worked ?_ ?_
  · intro y
    rcases eq_or_ne y x with rfl | hne
    · rw [Function.update_self, hm]
      exact List.suffix_cons m rest
    · rw [Function.update_of_ne hne]
  · intro j hj
    cases Relay.step_shift hr with
    | job hsub hwaiting _ _ =>
      rcases List.mem_cons.1 (hwaiting.subset hj) with rfl | hj
      · rcases hl.toWorker x j (hm ▸ List.mem_cons_self) with hbeat | ⟨-, hread⟩
        · rw [hsub] at hbeat
          cases hbeat
        · exact hread
      · exact hl.waiting x j hj
    | other _ hwaiting _ _ =>
      rw [hwaiting] at hj
      exact hl.waiting x j hj

theorem legible_work {k : Work} {r : Relay D} (hl : Legible stod c)
    (hr : (c.relay x).step stod to_string lhFn k.act = some r) (new : List Message) :
    Legible stod (c.worked c.toWorker x r new) := by
  refine hl.worked (fun y => List.suffix_refl _) ?_
  intro j hj
  cases k with
  | fromMinion =>
    cases Relay.step_shift hr with
    | fromMinion _ hwaiting _ => exact hl.waiting x j (hwaiting.subset hj)
  | nextJob =>
    cases Relay.step_shift hr with
    | nextJob hwaiting _ _ _ => exact hl.waiting x j (hwaiting.symm.subset (List.mem_cons_of_mem _ hj))
  | submitResult =>
    cases Relay.step_shift hr with
    | submitResult hwaiting _ _ _ =>
      rw [hwaiting] at hj
      exact hl.waiting x j hj
  | pulse =>
    cases Relay.step_shift hr with
    | heartbeat hwaiting _ _ =>
      rw [hwaiting] at hj
      exact hl.waiting x j hj

/-- **Every step** sends only what can be read, when the requests are legible. -/
theorem legible_step {a : Act} (hi : Inv stod to_string lhFn range c)
    (hw : Watched stod to_string lhFn nJobTypes workerCount c w) (hl : Legible stod c)
    (hrange : ∀ x, HelloOK ⟨[x], .hello, [range x]⟩) (hok : c.Allowed a)
    (hdata : ∀ m, a = .request m → ∀ s ∈ segments (dataOf m) ':', (stod s).isSome)
    (h : c.step stod to_string lhFn a = some (c', out)) (hc : c'.created < 2 ^ 32) :
    Legible stod c' := by
  cases step_cases h with
  | event hr hrun =>
    have hgrown : c.created + World.growth _ < 2 ^ 32 := created_of_reads hr hok hrun ▸ hc
    obtain ⟨d, sends, w', hrun', -, hstep, hchange, hsent, hw'⟩ :=
      watched_event hi hw hr hrange hok hgrown
    rw [hrun] at hrun'
    obtain ⟨rfl, rfl⟩ := ok_pair_inj hrun'
    refine legible_event hi hw hl hr hrun hstep hchange hsent hw'.del ?_
    cases hr with
    | request => exact hdata _ rfl
    | poll | timeout | beat | deliver => trivial
  | take hm hr => exact legible_take hl hm hr _
  | work hr => exact legible_work hl hr _

/-! ## Quiet states -/

variable (stod to_string lhFn) in
/-- No work can be done. -/
def Quiet (c : Cluster D) : Prop := ∀ a, Internal c a → c.step stod to_string lhFn a = none

/-- A poll that sends nothing has found no worker for any job. -/
theorem pollLoop_silent {clock : Str → ℤ} {n : ℕ} {js : List Job} {d d' : Delegator} (hd : Keyed d)
    (h : pollLoop clock (fun _ => false) n d js = .ok (d', [])) :
    ∀ j ∈ js, d.bestWorker j.type n = .ok none := by
  induction js generalizing d with
  | nil => exact List.forall_mem_nil _
  | cons i js ih =>
    rw [pollLoop] at h
    obtain ⟨o, ho, h⟩ := bind_eq_ok h
    cases o with
    | none =>
      refine List.forall_mem_cons.2 ⟨ho, ?_⟩
      exact ih (d := { d with jobQueue := d.jobQueue ++ [i] }) hd h
    | some y =>
      -- a dispatch sends something
      obtain ⟨⟨d₁, out₁⟩, h₁, h⟩ := bind_eq_ok h
      obtain ⟨⟨d₂, out₂⟩, h₂, h⟩ := bind_eq_ok h
      obtain ⟨-, hout⟩ := ok_pair_inj h
      obtain ⟨w, data, -, -, rfl, -⟩ := dispatch_eq_ok (fun w hw => hd y w hw) h₁
      cases hout

section Quiet

variable (hi : Inv stod to_string lhFn range c)
    (hw : Watched stod to_string lhFn nJobTypes workerCount c w) (hl : Legible stod c)
    (hrange : ∀ x, HelloOK ⟨[x], .hello, [range x]⟩) (hq : Quiet stod to_string lhFn c)
    (hc : c.created < 2 ^ 32)

include hi hw hrange hq hc in
/-- All messages of the workers are read. -/
theorem fromWorker_of_quiet (x : Str) : c.fromWorker x = [] := by
  by_contra hne
  obtain ⟨m, rest, hm⟩ := List.exists_cons_of_ne_nil hne
  have hreads : Reads c (.deliver x 0) _ _ := .deliver hm
  obtain ⟨d, sends, w', hrun, -⟩ := watched_event hi hw hreads hrange trivial hc
  have hnone := hq (.deliver x 0) .deliver
  rw [step_of_reads hreads hrun] at hnone
  cases hnone

include hl hq in
/-- All messages to the workers are taken. -/
theorem toWorker_of_quiet (x : Str) : c.toWorker x = [] := by
  by_contra hne
  obtain ⟨m, rest, hm⟩ := List.exists_cons_of_ne_nil hne
  have htaken : ((c.relay x).step stod to_string lhFn (.network m)).isSome :=
    Relay.network_ok ((hl.toWorker x m (by rw [hm]; exact List.mem_cons_self)).imp_right And.left)
  obtain ⟨r, hr⟩ := Option.isSome_iff_exists.1 htaken
  have hnone := hq _ (.take (x := x))
  simp [step, hm, hr, afterWork] at hnone

include hi hl hq in
/-- Every worker has answered all its jobs. -/
theorem unanswered_of_quiet (x : Str) : (c.relay x).unanswered = [] := by
  -- a step of the worker is none
  have hstuck {k : Work} (ha : Internal c (.work x k)) :
      ¬ ((c.relay x).step stod to_string lhFn k.act).isSome := by
    intro hsome
    obtain ⟨r, hr⟩ := Option.isSome_iff_exists.1 hsome
    have hnone := hq _ ha
    simp [step, hr, afterWork] at hnone
  have hjob : (c.relay x).minion.job = none := by
    rw [← Option.not_isSome_iff_eq_none]
    exact fun hsome => hstuck .submitResult (Relay.submitResult_ok hsome)
  have hto : (c.relay x).toMinion = [] := by
    by_contra hne
    obtain ⟨m, rest, hm⟩ := List.exists_cons_of_ne_nil hne
    obtain ⟨r, hr⟩ := hl.waiting x m (List.mem_append_right _ (hm ▸ List.mem_cons_self))
    exact hstuck .nextJob (Relay.nextJob_ok hjob hm hr)
  cases hm : (c.relay x).toWorker with
  | nil => exact (hi.relay x).idle hto hjob (by rw [hm]; rfl)
  | cons m rest =>
    rcases hi.minion x m (hm ▸ List.mem_cons_self) with rfl | ⟨i, a, rfl⟩
    · -- a worker that has not said HELLO has no jobs
      have hnew := hi.new x (by
        rw [greetings, hm, Relay.hellos_append, Relay.hellos_cons_of_hello rfl]
        exact List.cons_ne_nil _ _)
      rw [Relay.unanswered, hnew.received, List.drop_nil]
    · exact absurd (Relay.fromMinion_ok hm rfl) (hstuck (.fromMinion hm rfl))

include hi hw hl hrange hq hc in
/-- **A quiet cluster is idle**: no job is in progress, and a job that is queued fits no worker whose
estimate is not the sentinel of `bestWorker`. -/
theorem idle_of_quiet : (∀ (x : Str) (wk : Worker), c.del.workers[x]? = some wk → wk.ids = 0) ∧
    ∀ j ∈ c.del.jobQueue, ∀ (x : Str) (wk : Worker), c.del.workers[x]? = some wk →
      wk.Eligible j.type 10 → usTillDone wk j.type = .ok (2 ^ 32 - 1) := by
  refine ⟨?_, ?_⟩
  · intro x wk hwk
    rw [← hi.net.flight x wk hwk]
    show jobIds (c.toWorker x) + (heldIds (c.relay x) : Multiset Str) +
      Net.resultIds (c.fromWorker x) = 0
    rw [toWorker_of_quiet hl hq x, fromWorker_of_quiet hi hw hrange hq hc x, heldIds,
      unanswered_of_quiet hi hl hq x]
    rfl
  · intro j hj x wk hwk he
    have hreads : Reads c (.poll fun _ => 0) _ _ := .poll
    obtain ⟨d, sends, w', hrun, -⟩ := watched_event hi hw hreads hrange trivial hc
    have hnone : sends = [] := by
      by_contra hne
      have hstep := hq _ (.poll hrun hne)
      rw [step_of_reads hreads hrun] at hstep
      cases hstep
    rw [hnone] at hrun
    have hbest := pollLoop_silent (d := { c.del with jobQueue := [] }) hi.keyed hrun j hj
    obtain ⟨es, hreach⟩ := hw.run
    have htimed : c.del.TimedTable := hw.del ▸ (orderly_of_reach hreach).sane.timed
    rcases bestWorker_cases htimed j.type 10 with ⟨-, hall⟩ | ⟨y, v, hsome, -⟩
    · rw [usTillDone_estimate (htimed x wk hwk) ((htimed x wk hwk).range _ he.1 he.2.1),
        hall x wk hwk he]
    · have hsame : c.del.bestWorker j.type 10 = .ok none := hbest
      rw [hsome] at hsame
      cases hsame

end Quiet

end Cluster

end Stateline
