import Stateline.Proof.Cluster

/-!
# The work that is left

Each step that a job takes on its way, from the queue of the delegator to the answer that it reads,
is one less of those that are left. The delegator and its workers can only take so many steps before
somebody else has to act.

* `Relay.Shift`: what a step of a worker does to the jobs that it holds.
* `Cluster.Internal`: the steps that get work done. The others come from outside: a worker that
  connects, a heartbeat, a timeout, a request.
* `Cluster.weight_lt`: **each internal step leaves less work.**
-/

namespace Stateline

open Std Lib Delegator

/-! ## A worker -/

namespace Relay

variable {D : Type} {stod : Str → Option D} {to_string : D → Str} {lhFn : ℕ → List D → D}
    {s s' : Relay D} {m : Message}

/-- The JOBs that the minion has not taken. -/
def waiting (s : Relay D) : List Message := s.worker.queue ++ s.toMinion

/-- What a step does to the jobs at the worker and its minion. -/
inductive Shift (s s' : Relay D) : Act → Prop
  | job {m : Message} : m.subject = .job → s'.waiting.Perm (m :: s.waiting) → s'.minion = s.minion →
      s'.toWorker = s.toWorker → Shift s s' (.network m)
  | other {m : Message} : m.subject ≠ .job → s'.waiting = s.waiting → s'.minion = s.minion →
      s'.toWorker = s.toWorker → Shift s s' (.network m)
  | heartbeat {m : Message} : s'.waiting = s.waiting → s'.minion = s.minion → s'.toWorker = s.toWorker →
      Shift s s' (.heartbeat m)
  | fromMinion {m : Message} : s.toWorker = m :: s'.toWorker → s'.waiting.Perm s.waiting →
      s'.minion = s.minion → Shift s s' .fromMinion
  | nextJob {m : Message} : s.waiting.Perm (m :: s'.waiting) → s.minion.job = none →
      s'.minion.job.isSome → s'.toWorker = s.toWorker → Shift s s' .nextJob
  | submitResult {i a : Str} : s'.waiting = s.waiting → s.minion.job.isSome → s'.minion.job = none →
      s'.toWorker = s.toWorker ++ [⟨[], .result, [i, a]⟩] → Shift s s' .submitResult

/-- A JOB arrives, in the queue or on the way to the minion. -/
theorem waiting_onJobFromNetwork (s : Relay D) (m : Message) :
    ((s.worker.onJobFromNetwork m).1.queue ++
      (s.toMinion ++ sends .minion (s.worker.onJobFromNetwork m).2)).Perm (m :: s.waiting) := by
  unfold Worker.onJobFromNetwork waiting
  split
  · rw [sends_cons, if_pos rfl, sends_nil, ← List.append_assoc]
    exact List.perm_append_singleton _ _
  · rw [sends_nil, List.append_nil, List.append_assoc]
    exact List.perm_middle

/-- A RESULT makes the next JOB leave the queue. -/
theorem waiting_onResultFromMinion (s : Relay D) (m : Message) :
    ((s.worker.onResultFromMinion m).1.queue ++
      (s.toMinion ++ sends .minion (s.worker.onResultFromMinion m).2)).Perm s.waiting := by
  unfold Worker.onResultFromMinion waiting
  split
  · rename_i job queue hq
    simp only [sends_cons, sends_nil, reduceCtorEq, if_false, if_true, hq]
    rw [← List.append_assoc]
    exact List.perm_append_singleton _ _
  · rename_i hq
    simp only [sends_cons, sends_nil, reduceCtorEq, if_false, List.append_nil, hq]
    exact .refl _

/-- **What a step does.** -/
theorem step_shift {a : Act} (hs : s.step stod to_string lhFn a = some s') : Shift s s' a := by
  cases a with
  | network m =>
    simp only [step] at hs
    cases hsub : m.subject with
    | job =>
      simp only [Worker.handle, hsub, if_true, afterWorker, Option.some.injEq] at hs
      subst hs
      exact .job hsub (waiting_onJobFromNetwork s m) rfl rfl
    | hello | heartbeat | goodbye =>
      simp only [Worker.handle, hsub, reduceCtorEq, if_false, afterWorker, Option.some.injEq] at hs
      subst hs
      refine .other ?_ ?_ rfl rfl
      · rw [hsub]
        decide
      · simp [waiting, Worker.forwardToHB]
    | request | result =>
      simp only [Worker.handle, hsub, afterWorker] at hs
      cases hs
  | heartbeat m =>
    simp only [step] at hs
    cases hsub : m.subject with
    | heartbeat =>
      simp only [Worker.handle, hsub, afterWorker, Option.some.injEq] at hs
      subst hs
      refine .heartbeat ?_ rfl rfl
      simp [waiting, Worker.forwardToNetwork]
    | hello | goodbye | request | result | job =>
      simp only [Worker.handle, hsub, afterWorker] at hs
      cases hs
  | fromMinion =>
    simp only [step] at hs
    split at hs
    · cases hs
    · rename_i m rest hto
      cases hsub : m.subject with
      | result =>
        simp only [Worker.handle, hsub, afterWorker, Option.some.injEq] at hs
        subst hs
        exact .fromMinion hto (waiting_onResultFromMinion s m) rfl
      | hello =>
        simp only [Worker.handle, hsub, afterWorker, Option.some.injEq] at hs
        subst hs
        refine .fromMinion hto (.of_eq ?_) rfl
        simp [waiting, Worker.forwardToNetwork]
      | heartbeat | goodbye | request | job =>
        simp only [Worker.handle, hsub, afterWorker] at hs
        cases hs
  | nextJob =>
    simp only [step] at hs
    split at hs
    · rename_i m rest hjob hto
      split at hs
      · cases hs
        refine .nextJob (m := m) ?_ hjob rfl rfl
        rw [waiting, hto]
        exact List.perm_middle
      · cases hs
    · cases hs
  | submitResult =>
    simp only [step] at hs
    split at hs
    · rename_i jobType sample hjob
      cases hs
      exact .submitResult rfl (by rw [hjob]; rfl) rfl rfl
    · cases hs

/-- The steps that a worker and its minion still take for their jobs, and the delegator for their
results. -/
def load (s : Relay D) : ℕ :=
  4 * s.waiting.length + (if s.minion.job.isSome then 3 else 0) + 2 * (results s.toWorker).length

theorem Shift.load_network (h : Shift s s' (.network m)) :
    s'.load = s.load + if m.subject = .job then 4 else 0 := by
  unfold load
  cases h with
  | job hsub hwaiting hminion hto =>
    rw [hwaiting.length_eq, hminion, hto, if_pos hsub, List.length_cons]
    omega
  | other hsub hwaiting hminion hto =>
    rw [hwaiting, hminion, hto, if_neg hsub, Nat.add_zero]

theorem Shift.load_fromMinion (h : Shift s s' .fromMinion) :
    s'.load + (if (s.toWorker.head?.map Message.subject) = some .result then 2 else 0) = s.load := by
  unfold load
  cases h with
  | @fromMinion m hto hwaiting hminion =>
    rw [hto, List.head?_cons, Option.map_some, hwaiting.length_eq, hminion]
    by_cases hsub : m.subject = .result
    · rw [results_cons_of_result hsub, if_pos (congrArg some hsub), List.length_cons]
      omega
    · rw [results_cons_of_ne hsub, if_neg fun h => hsub (Option.some.inj h), Nat.add_zero]

theorem Shift.load_nextJob (h : Shift s s' .nextJob) : s'.load + 1 = s.load := by
  unfold load
  cases h with
  | nextJob hwaiting hnone hsome hto =>
    rw [hwaiting.length_eq, hnone, if_pos hsome, hto, List.length_cons]
    simp only [Option.isSome_none, Bool.false_eq_true, if_false]
    omega

theorem Shift.load_submitResult (h : Shift s s' .submitResult) : s'.load + 1 = s.load := by
  unfold load
  cases h with
  | submitResult hwaiting hsome hnone hto =>
    rw [hwaiting, hnone, if_pos hsome, hto, results_append, List.length_append,
      results_cons_of_result rfl]
    simp only [Option.isSome_none, Bool.false_eq_true, if_false, List.length_singleton, results,
      List.filter_nil]
    omega

end Relay

/-! ## The delegator and its workers -/

namespace Cluster

open Net (arriving)

variable {D : Type} {stod : Str → Option D} {to_string : D → Str} {lhFn : ℕ → List D → D}
    {range : Str → Str} {c c' : Cluster D} {out : List Message} {x : Str} {A : Finset Str}

/-- The steps that get work done. -/
inductive Internal (c : Cluster D) : Act → Prop
  /-- A poll that hands out a job. -/
  | poll {clock : Str → ℤ} {d : Delegator} {sends : List Send} :
    c.del.handle (.poll clock fun _ => false) = .ok (d, sends) → sends ≠ [] → Internal c (.poll clock)
  | deliver {x : Str} {now : ℤ} : Internal c (.deliver x now)
  | take {x : Str} : Internal c (.take x)
  | fromMinion {x : Str} {m : Message} {rest : List Message} : (c.relay x).toWorker = m :: rest →
    m.subject = .result → Internal c (.work x .fromMinion)
  | nextJob {x : Str} : Internal c (.work x .nextJob)
  | submitResult {x : Str} : Internal c (.work x .submitResult)

/-- The steps that a message to a worker takes. -/
def price (m : Message) : ℕ := if m.subject = .job then 5 else 1

/-- The steps that are left at a worker, and on the way to it and from it. -/
def cost (c : Cluster D) (x : Str) : ℕ :=
  ((c.toWorker x).map price).sum + (c.relay x).load + (c.fromWorker x).length

/-- The steps that are left, for the workers in `A`. -/
def weight (A : Finset Str) (c : Cluster D) : ℕ := 6 * c.del.jobQueue.length + ∑ x ∈ A, c.cost x

/-- Only the workers in `A` are connected or have something to do. -/
structure Within (A : Finset Str) (c : Cluster D) : Prop where
  cost : ∀ x, c.cost x ≠ 0 → x ∈ A
  workers : ∀ x ∈ c.del.workers, x ∈ A

/-! ### Polls -/

/-- The JOBs that a poll sends go to workers that are connected. -/
def ToConnected (d : Delegator) (s : Send) : Prop :=
  s.sock = .network ∧ s.msg.subject = .job ∧ ∃ x ∈ d.workers, s.msg.address.head? = some x

/-- **A poll** takes the jobs that it hands out from the queue. -/
theorem poll_effort {d d' : Delegator} {clock : Str → ℤ} {sends : List Send} (hd : Keyed d)
    (h : d.handle (.poll clock fun _ => false) = .ok (d', sends)) :
    d'.jobQueue.length + sends.length = d.jobQueue.length ∧ (∀ s ∈ sends, ToConnected d s) ∧
      ∀ x, x ∈ d'.workers ↔ x ∈ d.workers := by
  have key := pollLoop_returned (P := fun d js d' sends => Keyed d →
    d'.jobQueue.length + sends.length = d.jobQueue.length + js.length ∧ (∀ s ∈ sends, ToConnected d s) ∧
      ∀ x, x ∈ d'.workers ↔ x ∈ d.workers) ?_ ?_ ?_ h hd
  · rw [List.length_nil, Nat.zero_add] at key
    exact key
  · exact fun d _ => ⟨rfl, List.forall_mem_nil _, fun _ => Iff.rfl⟩
  · -- the job is passed over
    intro d i js d' sends ih hd
    obtain ⟨hlen, hto, hkeys⟩ := ih hd
    refine ⟨?_, hto, hkeys⟩
    rw [List.length_cons, hlen, List.length_append, List.length_singleton]
    omega
  · intro d d₁ d' i js y sends sends' h₁ ih hd
    obtain ⟨hkeyed, -, hkeys⟩ := dispatch_keys hd h₁
    obtain ⟨hlen, hto, hkeys'⟩ := ih hkeyed
    obtain ⟨w, data, hw, -, rfl, rfl⟩ := dispatch_eq_ok (fun w hw => hd y w hw) h₁
    refine ⟨?_, ?_, fun x => (hkeys' x).trans (hkeys x)⟩
    · rw [List.length_append, List.length_singleton, List.length_cons]
      dsimp only at hlen
      omega
    · intro s hs
      rcases List.mem_append.1 hs with hs | hs
      · rw [List.mem_singleton.1 hs]
        exact ⟨rfl, rfl, y, mem_iff_getElem?.2 ⟨w, hw⟩, hd y w hw⟩
      · obtain ⟨hsock, hsub, x, hx, hhead⟩ := hto s hs
        exact ⟨hsock, hsub, x, (hkeys x).1 hx, hhead⟩

/-- Each JOB arrives at one worker. -/
theorem sum_arriving {d : Delegator} {sends : List Send} (hto : ∀ s ∈ sends, ToConnected d s)
    (hA : ∀ x ∈ d.workers, x ∈ A) :
    ∑ x ∈ A, ((arriving sends x).map price).sum = 5 * sends.length := by
  induction sends with
  | nil => exact Finset.sum_const_zero
  | cons s sends ih =>
    obtain ⟨⟨hsock, hsub, y, hy, hhead⟩, hto⟩ := List.forall_mem_cons.1 hto
    have hone : ∀ x ∈ A, ((arriving (s :: sends) x).map price).sum =
        (if y = x then 5 else 0) + ((arriving sends x).map price).sum := by
      intro x _
      have hcons : arriving (s :: sends) x = arriving [s] x ++ arriving sends x :=
        Net.arriving_append [s] sends x
      rw [hcons, List.map_append, List.sum_append]
      congr 1
      by_cases he : y = x
      · simp [arriving, hsock, hhead, he, price, hsub]
      · simp [arriving, hhead, he]
    rw [Finset.sum_congr rfl hone, Finset.sum_add_distrib, ih hto, Finset.sum_ite_eq,
      if_pos (hA y hy), List.length_cons]
    omega

/-! ### Results and greetings -/

/-- **What a worker sends** is handled without a message to any worker. -/
theorem deliver_effort {d d' : Delegator} {m : Message} {now : ℤ} {sends : List Send}
    (hm : Net.Posted m)
    (h : d.handle (.recv .network { m with address := m.address ++ [x] } now false) = .ok (d', sends)) :
    d'.jobQueue = d.jobQueue ∧ (∀ s ∈ sends, s.sock ≠ .network) ∧
      ∀ y ∈ d'.workers, y = x ∨ y ∈ d.workers := by
  cases hm with
  | hello =>
    obtain ⟨rfl, ⟨-, rfl⟩ | ⟨-, w, frame, -, rfl⟩⟩ := newWorker_eq_ok (x := x) rfl h
    · exact ⟨rfl, by simp, fun y hy => .inr hy⟩
    · refine ⟨rfl, by simp, ?_⟩
      intro y hy
      rw [ExtTreeMap.mem_insert, LawfulEqCmp.compare_eq_iff_eq] at hy
      exact hy.imp_left Eq.symm
  | heartbeat =>
    obtain ⟨rfl, rfl⟩ := ok_pair_inj h
    exact ⟨rfl, by simp, fun y hy => .inr hy⟩
  | result =>
    obtain ⟨y, hy, hout, hdone⟩ := receiveResult_eq_ok h
    obtain rfl : x = y := Option.some.inj hy
    have hnet : ∀ s ∈ sends, s.sock ≠ .network := by
      intro s hs
      rw [hout s hs]
      decide
    rcases hdone with ⟨-, rfl⟩ | ⟨w, w', i, requests, -, -, -, -, -, -, rfl⟩
    · exact ⟨rfl, hnet, fun y hy => .inr hy⟩
    · refine ⟨rfl, hnet, ?_⟩
      intro y hy
      rw [ExtTreeMap.mem_insert, LawfulEqCmp.compare_eq_iff_eq] at hy
      exact hy.imp_left Eq.symm

/-! ### The steps -/

/-- The cost of one worker is less, and that of the others is the same. -/
theorem sum_lt {f g : Str → ℕ} (hx : x ∈ A) (hne : ∀ y, y ≠ x → g y = f y) (hlt : g x < f x) :
    ∑ y ∈ A, g y < ∑ y ∈ A, f y := by
  refine Finset.sum_lt_sum ?_ ⟨x, hx, hlt⟩
  intro y _
  rcases eq_or_ne y x with rfl | hy
  · exact hlt.le
  · exact (hne y hy).le

/-- A step at one worker leaves less to do there. -/
theorem lt_of_cost (h : Within A c) (hqueue : c'.del.jobQueue = c.del.jobQueue)
    (hworkers : ∀ y ∈ c'.del.workers, y = x ∨ y ∈ c.del.workers)
    (hne : ∀ y, y ≠ x → c'.cost y = c.cost y) (hlt : c'.cost x < c.cost x) :
    Within A c' ∧ c'.weight A < c.weight A := by
  have hx : x ∈ A := h.cost x (Nat.ne_zero_of_lt hlt)
  refine ⟨⟨?_, ?_⟩, ?_⟩
  · intro y hy
    rcases eq_or_ne y x with rfl | hyx
    · exact hx
    · exact h.cost y (by rwa [← hne y hyx])
  · intro y hy
    rcases hworkers y hy with rfl | hy
    · exact hx
    · exact h.workers y hy
  · rw [weight, weight, hqueue]
    exact Nat.add_lt_add_left (sum_lt hx hne hlt) _

/-- A poll that hands out a job. -/
theorem weight_poll {clock : Str → ℤ} {d : Delegator} {sends : List Send} (hd : Keyed c.del)
    (hA : Within A c) (h : c.del.handle (.poll clock fun _ => false) = .ok (d, sends))
    (hne : sends ≠ []) :
    let c' := { c with del := d, toWorker := fun x => c.toWorker x ++ arriving sends x }
    Within A c' ∧ c'.weight A < c.weight A := by
  intro c'
  obtain ⟨hlen, hto, hkeys⟩ := poll_effort hd h
  have hpos := List.length_pos_of_ne_nil hne
  have hcost (y : Str) : c'.cost y = c.cost y + ((arriving sends y).map price).sum := by
    simp only [c', cost, List.map_append, List.sum_append]
    omega
  refine ⟨⟨?_, fun y hy => hA.workers y ((hkeys y).1 hy)⟩, ?_⟩
  · intro y hy
    by_contra hyA
    refine hy ?_
    rw [hcost, Nat.add_eq_zero_iff]
    refine ⟨by_contra fun h0 => hyA (hA.cost y h0), ?_⟩
    -- nothing arrives at a worker that is not connected
    have hnone : arriving sends y = [] := by
      rw [arriving, List.filter_eq_nil_iff.2, List.map_nil]
      intro s hs hsy
      obtain ⟨-, -, x, hx, hhead⟩ := hto s hs
      rw [(of_decide_eq_true hsy).2] at hhead
      cases hhead
      exact hyA (hA.workers y hx)
    rw [hnone]
    rfl
  · rw [weight, weight, Finset.sum_congr rfl fun y _ => hcost y, Finset.sum_add_distrib,
      sum_arriving hto hA.workers]
    show 6 * d.jobQueue.length + _ < _
    omega

/-- **A request** brings its jobs. -/
theorem weight_request {m : Message} {d : Delegator} {sends : List Send} {n : ℕ} (hA : Within A c)
    (hsub : m.subject = .request) (h : c.del.handle (.recv .requester m 0 false) = .ok (d, sends))
    (hn : c.del.nextJobId = n % 2 ^ 32) (created : ℕ) :
    let c' := { c with del := d, toWorker := fun x => c.toWorker x ++ arriving sends x, created }
    Within A c' ∧ c'.weight A = c.weight A + 6 * (typesOf m).length := by
  intro c'
  simp only [handle, hsub] at h
  obtain ⟨d₁, hreq, h⟩ := bind_eq_ok h
  obtain ⟨rfl, rfl⟩ := ok_pair_inj h
  obtain ⟨hworkers, -, -, js, hqueue, htypes, -⟩ := receiveRequest_queued hreq hn
  have hcost (y : Str) : c'.cost y = c.cost y := by
    simp only [c', cost, arriving, List.filter_nil, List.map_nil, List.append_nil]
  refine ⟨⟨fun y hy => hA.cost y (hcost y ▸ hy), fun y hy => hA.workers y (hworkers ▸ hy)⟩, ?_⟩
  rw [weight, weight, Finset.sum_congr rfl fun y _ => hcost y]
  show 6 * d₁.jobQueue.length + ∑ y ∈ A, c.cost y = _
  rw [hqueue, List.length_append, ← htypes, List.length_map]
  omega

/-- A message of a worker is read. -/
theorem weight_deliver {now : ℤ} {m : Message} {rest : List Message} {d : Delegator} {sends : List Send}
    (hA : Within A c) (hm : c.fromWorker x = m :: rest) (hposted : Net.Posted m)
    (h : c.del.handle (.recv .network { m with address := m.address ++ [x] } now false) =
      .ok (d, sends)) :
    let c' := { c with
      del := d
      toWorker := fun y => c.toWorker y ++ arriving sends y
      fromWorker := Function.update c.fromWorker x rest }
    Within A c' ∧ c'.weight A < c.weight A := by
  obtain ⟨hqueue, hnet, hworkers⟩ := deliver_effort hposted h
  refine lt_of_cost (x := x) hA hqueue hworkers ?_ ?_
  · intro y hy
    simp only [cost, arriving_eq_nil hnet, List.append_nil, Function.update_of_ne hy]
  · simp only [cost, arriving_eq_nil hnet, List.append_nil, Function.update_self, hm,
      List.length_cons]
    omega

/-- A worker takes a step of its own. -/
theorem weight_work {k : Work} {r : Relay D} (hA : Within A c) (ha : Internal c (.work x k))
    (hr : (c.relay x).step stod to_string lhFn k.act = some r) :
    let c' := c.worked c.toWorker x r (r.sent.drop (c.relay x).sent.length)
    Within A c' ∧ c'.weight A < c.weight A := by
  refine lt_of_cost (x := x) hA rfl (fun y hy => .inr hy) ?_ ?_
  · intro y hy
    simp only [worked, cost, Function.update_of_ne hy]
  · simp only [worked, cost, Function.update_self, List.length_append]
    cases ha with
    | fromMinion hto hsub =>
      have hload := (Relay.step_shift hr).load_fromMinion
      rw [hto, List.head?_cons, Option.map_some, hsub, if_pos rfl] at hload
      have hnew : (r.sent.drop (c.relay x).sent.length).length = 1 := by
        cases Relay.step_effect hr with
        | result _ _ _ hsent => simp [hsent]
        | hello _ _ _ hsent => simp [hsent]
      omega
    | nextJob =>
      have hload := (Relay.step_shift hr).load_nextJob
      have hnew : r.sent.drop (c.relay x).sent.length = [] := by
        cases Relay.step_effect hr with
        | nextJob _ hsent _ => simp [hsent]
      rw [hnew, List.length_nil]
      omega
    | submitResult =>
      have hload := (Relay.step_shift hr).load_submitResult
      have hnew : r.sent.drop (c.relay x).sent.length = [] := by
        cases Relay.step_effect hr with
        | submitResult _ hsent _ => simp [hsent]
      rw [hnew, List.length_nil]
      omega

/-- **Each internal step leaves less work.** -/
theorem weight_lt {a : Act} (hi : Inv stod to_string lhFn range c) (hA : Within A c)
    (ha : Internal c a) (hs : c.step stod to_string lhFn a = some (c', out)) :
    Within A c' ∧ c'.weight A < c.weight A := by
  cases step_cases hs with
  | event hr hrun =>
    cases hr with
    | poll =>
      cases ha with
      | poll hpoll hne =>
        obtain ⟨rfl, rfl⟩ := ok_pair_inj (hpoll.symm.trans hrun)
        exact weight_poll hi.keyed hA hrun hne
    | @deliver x now m rest hm =>
      have hmem : m ∈ c.fromWorker x := by
        rw [hm]
        exact List.mem_cons_self
      exact weight_deliver hA hm (hi.net.posted x m hmem) hrun
    | request | timeout | beat => cases ha
  | @take x m rest r hm hr =>
    have hsent := (inv_take hi hm hr).2
    refine lt_of_cost (x := x) hA rfl (fun y hy => .inr hy) ?_ ?_
    · intro y hy
      simp only [cost, Function.update_of_ne hy]
    · have hload := (Relay.step_shift hr).load_network
      simp only [cost, Function.update_self, hsent, List.drop_length, List.append_nil, hload, hm,
        List.map_cons, List.sum_cons, price]
      split <;> omega
  | work hr => exact weight_work hA ha hr

/-- They create no jobs. -/
theorem Internal.created {a : Act} (ha : Internal c a)
    (hs : c.step stod to_string lhFn a = some (c', out)) : c'.created = c.created := by
  cases step_cases hs with
  | event hr =>
    cases hr with
    | request => cases ha
    | poll | timeout | beat | deliver => rfl
  | take => rfl
  | work => rfl

/-! ### The workers that matter -/

/-- Only finitely many workers have something to do. -/
def FiniteCost (c : Cluster D) : Prop := {x | c.cost x ≠ 0}.Finite

theorem FiniteCost.init (nJobTypes workerCount : ℕ) (range : Str → Str) :
    FiniteCost (.init nJobTypes workerCount range : Cluster D) := by
  refine (Set.finite_empty).subset ?_
  intro x hx
  refine hx ?_
  simp [cost, Cluster.init, Relay.init, Relay.load, Relay.waiting, Relay.Worker.init, Relay.results]

/-- A step that costs more only at finitely many workers. -/
theorem FiniteCost.of_ne (h : FiniteCost c) (B : List Str) (hB : ∀ x ∉ B, c'.cost x = c.cost x) :
    FiniteCost c' := by
  refine (h.union B.finite_toSet).subset ?_
  intro x hx
  by_cases hxB : x ∈ B
  · exact .inr hxB
  · refine .inl ?_
    show c.cost x ≠ 0
    rwa [← hB x hxB]

/-- **Every step** concerns finitely many workers. -/
theorem finiteCost_step {a : Act} (h : FiniteCost c)
    (hs : c.step stod to_string lhFn a = some (c', out)) : FiniteCost c' := by
  cases step_cases hs with
  | @event _ e c₁ d sends hr hrun =>
    -- those that something is sent to, and the one that is read from
    have hnone : ∀ x ∉ sends.filterMap fun s => s.msg.address.head?, arriving sends x = [] := by
      intro x hx
      rw [arriving, List.filter_eq_nil_iff.2, List.map_nil]
      intro s hs hsx
      exact hx (List.mem_filterMap.2 ⟨s, hs, (of_decide_eq_true hsx).2⟩)
    cases hr with
    | @deliver y now m rest hm =>
      refine h.of_ne (y :: sends.filterMap fun s => s.msg.address.head?) ?_
      intro x hx
      obtain ⟨hxy, hx⟩ := not_or.1 (mt List.mem_cons.2 hx)
      simp only [cost, hnone x hx, List.append_nil, Function.update_of_ne hxy]
    | request | poll | timeout | beat =>
      refine h.of_ne (sends.filterMap fun s => s.msg.address.head?) ?_
      intro x hx
      simp only [cost, hnone x hx, List.append_nil]
  | @take x m rest r hm hr =>
    refine h.of_ne [x] ?_
    intro y hy
    have hyx : y ≠ x := List.ne_of_not_mem_cons hy
    simp only [cost, Function.update_of_ne hyx]
  | @work x k r hr =>
    refine h.of_ne [x] ?_
    intro y hy
    have hyx : y ≠ x := List.ne_of_not_mem_cons hy
    simp only [cost, Function.update_of_ne hyx]

theorem FiniteCost.within (h : FiniteCost c) : ∃ A, Within A c := by
  refine ⟨h.toFinset ∪ c.del.workers.keys.toFinset, ?_, ?_⟩
  · exact fun x hx => Finset.mem_union_left _ (h.mem_toFinset.2 hx)
  · intro x hx
    exact Finset.mem_union_right _ (List.mem_toFinset.2 (ExtTreeMap.mem_keys.2 hx))

/-- Only one worker matters when it has said HELLO, and no other has done anything. -/
theorem within_of_alone {range : Str} {r : Relay D} {ms : List Message} (hto : c.toWorker = fun _ => [])
    (hfrom : c.fromWorker = Function.update (Function.update (fun _ => []) x ms) x [])
    (hrelay : c.relay = Function.update (fun _ => .init range) x r)
    (hkeys : c.del.workers.keys = [x]) : Within {x} c := by
  refine ⟨?_, ?_⟩
  · intro y hy
    rw [Finset.mem_singleton]
    by_contra hne
    refine hy ?_
    unfold cost
    rw [hto, hfrom, hrelay, Function.update_of_ne hne, Function.update_of_ne hne,
      Function.update_of_ne hne]
    rfl
  · intro y hy
    rw [← ExtTreeMap.mem_keys, hkeys, List.mem_singleton] at hy
    exact Finset.mem_singleton.2 hy

end Cluster

end Stateline
