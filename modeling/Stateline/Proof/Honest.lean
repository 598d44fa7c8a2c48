import Stateline.Comms.Network
import Stateline.Proof.Requests

/-!
# Honest workers

A worker that has been timed out may still hold jobs, which are queued again under
their ids. If it says HELLO before it has answered them, the delegator takes it for
a worker without jobs. `Safe` is the condition on one step under which it is one.

* `Inv`: the jobs in progress at a connected worker are those on the way to it,
  those it holds, and those on the way back. `inv_step`: a safe step keeps it.
* `honest_results`: **in every run of safe steps a RESULT of a connected worker is for
  a job in progress there.**
* `stray_of_honest`: two runs that are not safe, and end with a RESULT that is stray.
-/

namespace Stateline

open Std Lib Delegator

/-! ## The ids of the outstanding jobs -/

namespace Delegator

/-- The ids of the jobs in progress at a worker. -/
def Worker.ids (w : Worker) : Multiset Str := ((vals w.workInProgress).map Job.id : List Str)

/-- The ids of the outstanding jobs. -/
def ids (d : Delegator) : Multiset Str :=
  (d.jobQueue.map Job.id : List Str) + total Worker.ids d.workers

/-- A worker under its identity, with its jobs under their ids. -/
structure Worker.Named (x : Str) (w : Worker) : Prop where
  address : w.address = [x]
  key : All (fun i j => j.id = i) w.workInProgress

/-- Every worker is named. -/
def Named (d : Delegator) : Prop := All Worker.Named d.workers

variable {d d' : Delegator} {w : Worker} {x i : Str} {j : Job} {m : Message} {now : ℤ} {out : List Send}

theorem Worker.mem_ids (hw : Worker.Named x w) : i ∈ w.ids ↔ i ∈ w.workInProgress := by
  unfold Worker.ids
  rw [Multiset.mem_coe, List.mem_map, mem_iff_getElem?]
  constructor
  · rintro ⟨j, hj, rfl⟩
    obtain ⟨k, hk⟩ := mem_vals.1 hj
    exact ⟨j, (hw.key k j hk) ▸ hk⟩
  · rintro ⟨j, hj⟩
    exact ⟨j, mem_vals.2 ⟨i, hj⟩, hw.key i j hj⟩

/-- One more job. -/
theorem Worker.ids_insert (h : i ∉ w.workInProgress) (hj : j.id = i) :
    Worker.ids { w with workInProgress := w.workInProgress.insert i j } = i ::ₘ w.ids := by
  unfold Worker.ids
  rw [Multiset.cons_coe, Multiset.coe_eq_coe, ← hj]
  exact (vals_insert_new j (hj ▸ h)).map Job.id

/-- One job less. -/
theorem Worker.ids_erase (h : w.workInProgress[i]? = some j) :
    w.ids = j.id ::ₘ Worker.ids { w with workInProgress := w.workInProgress.erase i } := by
  unfold Worker.ids
  rw [Multiset.cons_coe, Multiset.coe_eq_coe]
  exact (vals_perm_cons h).map Job.id

theorem ids_le (h : d.workers[x]? = some w) : w.ids ≤ d.ids := by
  unfold ids
  rw [total_erase Worker.ids h]
  exact (Multiset.le_add_right _ _).trans (Multiset.le_add_left _ _)

/-- A job passed over is back in the queue. -/
theorem ids_queued (d : Delegator) (i : Job) :
    ({ d with jobQueue := d.jobQueue ++ [i] } : Delegator).ids = i.id ::ₘ d.ids := by
  unfold ids
  rw [List.map_append, ← Multiset.coe_add, List.map_singleton, Multiset.coe_singleton,
    ← Multiset.singleton_add]
  ac_rfl

/-- What is outstanding when one worker is replaced. -/
theorem ids_replaced {w' : Worker} (hw : d.workers[x]? = some w) (hids : w'.ids = i ::ₘ w.ids)
    (hq : d'.jobQueue = d.jobQueue) (hworkers : d'.workers = d.workers.insert x w') :
      d'.ids = i ::ₘ d.ids := by
  unfold ids
  rw [hq, hworkers, total_insert, total_erase Worker.ids hw, hids, ← Multiset.singleton_add,
    ← Multiset.singleton_add]
  ac_rfl

/-! ## Polls -/

/-- The id a JOB names. -/
def jobId (m : Message) : Option Str := if m.subject = .job then m.data[1]? else none

/-- The ids that the JOBs among messages name. -/
def jobIds (ms : List Message) : Multiset Str := (ms.filterMap jobId : List Str)

@[simp] theorem jobIds_nil : jobIds [] = 0 := rfl

theorem jobIds_append (ms ms' : List Message) : jobIds (ms ++ ms') = jobIds ms + jobIds ms' := by
  unfold jobIds
  rw [List.filterMap_append, Multiset.coe_add]

/-- **A dispatch** that returns: the job is in progress at the worker it is sent to. -/
theorem dispatch_ids {clock : Str → ℤ} (hd : Named d)
    (h : d.dispatch clock (fun _ => false) x j = .ok (d', out))
    (hnew : ∀ w, d.workers[x]? = some w → j.id ∉ w.workInProgress) :
    ∃ w w', d.workers[x]? = some w ∧ d'.workers = d.workers.insert x w' ∧ Worker.Named x w' ∧
      w'.ids = j.id ::ₘ w.ids ∧ d'.jobQueue = d.jobQueue ∧ d'.nextJobId = d.nextJobId ∧
      ∀ y, jobIds (Net.arriving out y) = if y = x then {j.id} else 0 := by
  obtain ⟨w, data, hw, -, rfl, rfl⟩ := dispatch_eq_ok (fun w hw => by rw [(hd x w hw).address]; rfl) h
  have hi := hnew w hw
  have haddr := (hd x w hw).address
  rw [insertIfNew_of_not_mem hi]
  refine ⟨w, _, hw, rfl, ⟨haddr, (hd x w hw).key.insert rfl⟩, Worker.ids_insert hi rfl, rfl, rfl, ?_⟩
  intro y
  by_cases he : y = x
  · subst he
    rw [if_pos rfl]
    simp [Net.arriving, haddr, jobIds, jobId]
  · rw [if_neg he]
    simp [Net.arriving, haddr, Ne.symm he]

/-- What a run of the loop of `onPoll` over the jobs `js` does, where it returns. -/
structure Ran (d : Delegator) (js : List Job) (d' : Delegator) (out : List Send) : Prop where
  named : Named d'
  ids : d'.ids = d.ids + (js.map Job.id : List Str)
  nextJobId : d'.nextJobId = d.nextJobId
  load : ∀ x w', d'.workers[x]? = some w' →
    ∃ w, d.workers[x]? = some w ∧ w'.ids = w.ids + jobIds (Net.arriving out x)

/-- What is outstanding, in a round of the loop and with the jobs left after it. -/
theorem ids_add_cons {d₁ : Delegator} (h : d₁.ids = j.id ::ₘ d.ids) (js : List Job) :
    d₁.ids + (js.map Job.id : List Str) = d.ids + ((j :: js).map Job.id : List Str) := by
  rw [h, List.map_cons, ← Multiset.cons_coe, Multiset.cons_add, Multiset.add_cons]

/-- **The loop of `onPoll`**, where it returns. -/
theorem pollLoop_ids {clock : Str → ℤ} {n : ℕ} {js : List Job} (hd : Named d)
    (hnd : (d.ids + (js.map Job.id : List Str)).Nodup)
    (h : pollLoop clock (fun _ => false) n d js = .ok (d', out)) :
    Ran d js d' out := by
  refine pollLoop_returned (P := fun d js d' out => Named d →
    (d.ids + (js.map Job.id : List Str)).Nodup → Ran d js d' out) ?_ ?_ ?_ h hd hnd
  · intro d hd _
    exact ⟨hd, by simp, rfl, fun x w' hw' => ⟨w', hw', (add_zero _).symm⟩⟩
  · -- no worker may take the job: it is passed over
    intro d j js d' out ih hd hnd
    have hids := ids_queued d j
    have hran := ih hd (by rw [ids_add_cons hids]; exact hnd)
    exact ⟨hran.named, hran.ids.trans (ids_add_cons hids js), hran.nextJobId, hran.load⟩
  · intro d d₁ d' j js x out out' h₁ ih hd hnd
    -- the id of the job is not that of any job in progress
    have hnew : ∀ w, d.workers[x]? = some w → j.id ∉ w.workInProgress := by
      intro w hw hmem
      have hin : j.id ∈ d.ids := Multiset.mem_of_le (ids_le hw) ((Worker.mem_ids (hd x w hw)).2 hmem)
      exact Multiset.disjoint_left.1 (Multiset.nodup_add.1 hnd).2.2 hin (by simp)
    obtain ⟨w, w', hw, hworkers, hw', hidsw, hq, hnext, hsent⟩ := dispatch_ids hd h₁ hnew
    have hids : d₁.ids = j.id ::ₘ d.ids := ids_replaced hw hidsw hq hworkers
    have hnamed : Named d₁ := by
      unfold Named
      rw [hworkers]
      exact All.insert hd hw'
    have hran := ih hnamed (by rw [ids_add_cons hids]; exact hnd)
    refine ⟨hran.named, hran.ids.trans (ids_add_cons hids js), hran.nextJobId.trans hnext, ?_⟩
    intro y v' hv'
    obtain ⟨v, hv, hload⟩ := hran.load y v' hv'
    rw [hworkers, getElem?_insert_eq] at hv
    rw [Net.arriving_append, jobIds_append, hsent y, hload]
    rcases eq_or_ne x y with rfl | hne
    · rw [if_pos rfl] at hv ⊢
      injection hv with hv
      subst hv
      refine ⟨w, hw, ?_⟩
      rw [hidsw, ← Multiset.singleton_add]
      ac_rfl
    · rw [if_neg hne] at hv
      rw [if_neg hne.symm, zero_add]
      exact ⟨v, hv, rfl⟩

/-- **A poll**, where it returns. -/
theorem onPoll_ids {clock : Str → ℤ} (hd : Named d) (hnd : d.ids.Nodup)
    (h : d.onPoll clock (fun _ => false) = .ok (d', out)) :
    Named d' ∧ d'.ids = d.ids ∧ d'.nextJobId = d.nextJobId ∧ ∀ x w', d'.workers[x]? = some w' →
      ∃ w, d.workers[x]? = some w ∧ w'.ids = w.ids + jobIds (Net.arriving out x) := by
  have hids : ({ d with jobQueue := [] } : Delegator).ids +
      (d.jobQueue.map Job.id : List Str) = d.ids := by
    unfold ids
    simp only [List.map_nil, Multiset.coe_nil, zero_add, add_comm]
  have hran := pollLoop_ids (d := { d with jobQueue := [] }) hd (by rw [hids]; exact hnd) h
  exact ⟨hran.named, hran.ids.trans hids, hran.nextJobId, hran.load⟩

/-! ## The other handlers -/

/-- `disconnectWorker` re-queues the jobs of the worker and forgets it. -/
theorem disconnectWorker_ids (hd : Named d) (hm : m.address = [x]) (h : d.disconnectWorker m = .ok d') :
    Named d' ∧ d'.ids = d.ids ∧ d'.nextJobId = d.nextJobId ∧
      ∀ (y : Str) (w : Worker), d'.workers[y]? = some w → d.workers[y]? = some w := by
  have hhead : m.address.head? = some x := by rw [hm]; rfl
  rcases disconnectWorker_eq_ok hhead h with ⟨-, rfl⟩ | ⟨w, hw, rfl⟩
  · exact ⟨hd, rfl, rfl, fun _ _ hy => hy⟩
  · refine ⟨All.erase hd, ?_, rfl, ?_⟩
    · unfold ids
      rw [total_erase Worker.ids hw, map_pushed]
      show (_ : Multiset Str) = _ + (Worker.ids w + _)
      unfold Worker.ids
      ac_rfl
    · intro y v hv
      simp only [getElem?_erase_eq] at hv
      split at hv
      · cases hv
      · exact hv

/-- `fNewWorker` connects a worker without jobs, unless it is connected. -/
theorem newWorker_ids (hd : Named d) (hm : m.address = [x]) (h : d.newWorker m now = .ok (d', out)) :
    Named d' ∧ d'.ids = d.ids ∧ d'.nextJobId = d.nextJobId ∧ out = [⟨.heartbeat, m⟩] ∧
      ∀ (y : Str) (w : Worker), d'.workers[y]? = some w → d.workers[y]? = some w ∨
        (y = x ∧ x ∉ d.workers ∧ w.ids = 0) := by
  have hhead : m.address.head? = some x := by rw [hm]; rfl
  obtain ⟨rfl, ⟨-, rfl⟩ | ⟨hmem, v, frame, hv, rfl⟩⟩ := newWorker_eq_ok hhead h
  · exact ⟨hd, rfl, rfl, rfl, fun _ _ hy => .inl hy⟩
  · have hnone : v.ids = 0 := by simp [Worker.ids, hv.idle]
    refine ⟨All.insert hd ⟨hv.address.trans hm, by rw [hv.idle]; exact All.empty⟩, ?_, rfl, rfl, ?_⟩
    · unfold ids
      simp only
      rw [total_insert_new Worker.ids _ hmem, hnone, zero_add]
    · intro y w hw
      simp only [getElem?_insert_eq] at hw
      split at hw
      · rename_i he
        injection hw with hw
        subst hw
        exact .inr ⟨he.symm, hmem, hnone⟩
      · exact .inl hw

/-- `receiveResult` of a connected worker for a job in progress there ends the job, where it
returns. -/
theorem receiveResult_ids (hd : Named d) (hm : m.address = [x]) (hw : d.workers[x]? = some w)
    (hi : m.data.head? = some i) (hmem : i ∈ w.workInProgress)
    (h : d.receiveResult m now = .ok (d', out)) :
    Named d' ∧ d.ids = i ::ₘ d'.ids ∧ d'.nextJobId = d.nextJobId ∧ (∀ s ∈ out, s.sock = .requester) ∧
      ∃ w', d'.workers = d.workers.insert x w' ∧ w.ids = i ::ₘ w'.ids := by
  obtain ⟨j, hj⟩ := mem_iff_getElem?.1 hmem
  obtain ⟨y, hy, hout, hdone⟩ := receiveResult_eq_ok h
  obtain rfl : y = x := by
    rw [hm] at hy
    exact (Option.some.inj hy).symm
  rcases hdone with ⟨hnone, -⟩ | ⟨v, w', i', requests, hv, hi', haddr, hwip, -, -, rfl⟩
  · rw [hw] at hnone
    cases hnone
  · rw [hw] at hv
    cases hv
    rw [hi] at hi'
    cases hi'
    rw [subscript_of_some hj] at hwip
    -- the job is kept under its id
    have hjid : j.id = i := (hd y w hw).key i j hj
    have hids : w.ids = i ::ₘ w'.ids := by
      have herase := Worker.ids_erase (hjid ▸ hj)
      rw [hjid] at herase
      rw [herase, Worker.ids, Worker.ids, hwip]
    refine ⟨All.insert hd ⟨haddr.trans (hd y w hw).address, ?_⟩, ?_, rfl, hout, w', rfl, hids⟩
    · rw [hwip]
      exact (hd y w hw).key.erase
    · unfold ids
      simp only
      rw [total_erase Worker.ids hw, total_insert, hids, ← Multiset.singleton_add,
        ← Multiset.singleton_add]
      ac_rfl

/-- **`receiveRequest`**, where it returns. -/
theorem receiveRequest_ids {n : ℕ} (hn : d.nextJobId = n % 2 ^ 32) (h : d.receiveRequest m = .ok d') :
    d'.workers = d.workers ∧
      d'.ids = d.ids + ((List.range' n (Net.jobsOf m)).map (fun k => toStr (k % 2 ^ 32)) : List Str) ∧
      d'.nextJobId = (n + Net.jobsOf m) % 2 ^ 32 := by
  obtain ⟨-, ⟨frame, hframe, htypes⟩, -⟩ := receiveRequest_eq_ok h
  obtain ⟨hworkers, -, hnext, js, hqueue, -, hids⟩ := receiveRequest_queued h hn
  have hjobs : Net.jobsOf m = (typesOf m).length := by
    unfold Net.jobsOf
    rw [hframe, ok_bind, htypes]
    rfl
  refine ⟨hworkers, ?_, by rw [hjobs]; exact hnext⟩
  unfold ids
  rw [hworkers, hqueue, List.map_append, hids, hjobs, ← Multiset.coe_add]
  ac_rfl

end Delegator

/-! ## The invariant -/

namespace Net

/-- The id a RESULT names. -/
def resultId (m : Message) : Option Str := if m.subject = .result then m.data.head? else none

/-- The ids that the RESULTs among messages name. -/
def resultIds (ms : List Message) : Multiset Str := (ms.filterMap resultId : List Str)

/-- The jobs in flight at a worker: on the way to it, held by it, or on the way back. -/
def flight (s : Net) (x : Str) : Multiset Str :=
  jobIds (s.toWorker x) + (s.held x : Multiset Str) + resultIds (s.fromWorker x)

/-- The condition on a step: the delegator reads a HELLO of a worker that is not connected only when
no job is in flight there; and no more than `2 ^ 32` jobs are created. -/
def Safe (s : Net) : Act → Prop
  | .deliver x _ =>
    (∃ m rest, s.fromWorker x = m :: rest ∧ m.subject = .hello) → x ∉ s.del.workers → s.flight x = 0
  | .request m => s.created + jobsOf m ≤ 2 ^ 32
  | _ => True

/-- What a worker sends. -/
inductive Posted : Message → Prop
  | hello {r : Str} : Posted ⟨[], .hello, [r]⟩
  | heartbeat : Posted ⟨[], .heartbeat, []⟩
  | result {i a : Str} : Posted ⟨[], .result, [i, a]⟩

/-- **The invariant.** -/
structure Inv (s : Net) : Prop where
  named : Named s.del
  nodup : s.del.ids.Nodup
  numbered : ∀ i ∈ s.del.ids, ∃ n < s.created, i = toStr n
  bound : s.created ≤ 2 ^ 32
  next : s.del.nextJobId = s.created % 2 ^ 32
  posted : ∀ x, ∀ m ∈ s.fromWorker x, Posted m
  flight : ∀ x w, s.del.workers[x]? = some w → s.flight x = w.ids

variable {range : Str → Str} {s s' : Net} {x : Str}

theorem Inv.init (nJobTypes workerCount : ℕ) : Inv (.init nJobTypes workerCount) := by
  have hids : (Delegator.init nJobTypes workerCount).ids = 0 := by simp [Delegator.init, ids]
  refine ⟨All.empty, by rw [Net.init, hids]; exact Multiset.nodup_zero, ?_, Nat.zero_le _, rfl, ?_, ?_⟩
  · intro i hi
    rw [Net.init, hids] at hi
    exact absurd hi (Multiset.notMem_zero i)
  · intro x m hm
    exact absurd hm List.not_mem_nil
  · intro x w hw
    simp [Net.init, Delegator.init] at hw

/-- The worker posts a message. -/
theorem flight_post (s : Net) (x : Str) (m : Message) (y : Str) :
    (s.post x m).flight y = s.flight y + if y = x then resultIds [m] else 0 := by
  unfold post Net.flight
  simp only
  rcases eq_or_ne y x with rfl | hne
  · rw [Function.update_self, if_pos rfl]
    unfold resultIds
    rw [List.filterMap_append, ← Multiset.coe_add]
    ac_rfl
  · rw [Function.update_of_ne hne, if_neg hne, add_zero]

/-- A step of the workers, or of the network. -/
theorem Inv.quiet (hi : Inv s) (hdel : s'.del = s.del) (hcreated : s'.created = s.created)
    (hposted : ∀ x, ∀ m ∈ s'.fromWorker x, Posted m) (hflight : ∀ x, s'.flight x = s.flight x) :
      Inv s' := by
  refine ⟨hdel ▸ hi.named, hdel ▸ hi.nodup, ?_, hcreated ▸ hi.bound, ?_, hposted, ?_⟩
  · rw [hdel, hcreated]
    exact hi.numbered
  · rw [hdel, hcreated]
    exact hi.next
  · intro x w hw
    rw [hdel] at hw
    rw [hflight]
    exact hi.flight x w hw

/-- A callback of the delegator that creates no job. -/
theorem Inv.callback {s₁ : Net} {d : Delegator} {out : List Send} (hi : Inv s)
    (hcreated : s₁.created = s.created) (hposted : ∀ x, ∀ m ∈ s₁.fromWorker x, Posted m)
    (hnamed : Named d) (hids : d.ids ≤ s.del.ids) (hnext : d.nextJobId = s.del.nextJobId)
    (hflight : ∀ x w, d.workers[x]? = some w → s₁.flight x + jobIds (arriving out x) = w.ids) :
    Inv { s₁ with del := d, toWorker := fun x => s₁.toWorker x ++ arriving out x } := by
  refine ⟨hnamed, Multiset.nodup_of_le hids hi.nodup, ?_, hcreated ▸ hi.bound, ?_, hposted, ?_⟩
  · intro i hmem
    rw [hcreated]
    exact hi.numbered i (Multiset.mem_of_le hids hmem)
  · rw [hcreated]
    exact hnext.trans hi.next
  · intro x w hw
    rw [← hflight x w hw]
    unfold Net.flight
    simp only [jobIds_append]
    ac_rfl

/-! ## Steps of the delegator -/

theorem afterDel_eq_some {s₁ : Net} {res : Except Fault (Delegator × List Send)}
    (hs : s₁.afterDel res = some s') :
    ∃ d out, res = .ok (d, out) ∧ s' =
      { s₁ with del := d, toWorker := fun x => s₁.toWorker x ++ arriving out x } := by
  unfold afterDel at hs
  split at hs
  · rename_i d out
    injection hs with hs
    exact ⟨d, out, rfl, hs.symm⟩
  · cases hs

/-- Messages that are no JOBs bring none. -/
theorem jobIds_arriving {out : List Send}
    (h : ∀ s ∈ out, s.sock = .network → s.msg.subject ≠ .job) (x : Str) :
    jobIds (arriving out x) = 0 := by
  unfold jobIds arriving
  rw [Multiset.coe_eq_zero, List.filterMap_eq_nil_iff]
  intro m hm
  obtain ⟨s, hs, rfl⟩ := List.mem_map.1 hm
  obtain ⟨hs, hnet⟩ := List.mem_filter.1 hs
  simp only [Bool.decide_and, Bool.and_eq_true, decide_eq_true_eq] at hnet
  unfold jobId
  rw [if_neg (h s hs hnet.1)]

theorem inv_request {m : Message} (hi : Inv s) (hsafe : s.created + jobsOf m ≤ 2 ^ 32)
    (hs : s.step range (.request m) = some s') : Inv s' := by
  obtain ⟨d, out, h, rfl⟩ := afterDel_eq_some hs
  cases hsub : m.subject with
  | request =>
    simp only [handle, hsub] at h
    obtain ⟨d₁, hd₁, h⟩ := bind_eq_ok h
    obtain ⟨rfl, rfl⟩ := ok_pair_inj h
    obtain ⟨hw, hids, hnext⟩ := receiveRequest_ids hi.next hd₁
    -- the new ids are fresh
    have hnew : ∀ i ∈ (List.range' s.created (jobsOf m)).map (fun k => toStr (k % 2 ^ 32)),
        ∃ n, s.created ≤ n ∧ n < s.created + jobsOf m ∧ i = toStr n := by
      intro i hmem
      obtain ⟨n, hn, rfl⟩ := List.mem_map.1 hmem
      rw [List.mem_range'_1] at hn
      exact ⟨n, hn.1, hn.2, by rw [Nat.mod_eq_of_lt (by omega)]⟩
    refine ⟨?_, ?_, ?_, hsafe, hnext, hi.posted, ?_⟩
    · unfold Named
      rw [hw]
      exact hi.named
    · rw [hids, Multiset.nodup_add]
      refine ⟨hi.nodup, ?_, ?_⟩
      · rw [Multiset.coe_nodup]
        refine List.Nodup.map_on ?_ List.nodup_range'
        intro a ha b hb he
        rw [List.mem_range'_1] at ha hb
        rw [toStr_inj] at he
        omega
      · rw [Multiset.disjoint_left]
        intro i hold hmem
        obtain ⟨n, hn, rfl⟩ := hi.numbered i hold
        obtain ⟨n', hn', -, he⟩ := hnew _ hmem
        rw [toStr_inj] at he
        omega
    · intro i hmem
      rw [hids] at hmem
      rcases Multiset.mem_add.1 hmem with hmem | hmem
      · obtain ⟨n, hn, rfl⟩ := hi.numbered i hmem
        exact ⟨n, Nat.lt_add_right _ hn, rfl⟩
      · obtain ⟨n, -, hn, rfl⟩ := hnew i hmem
        exact ⟨n, hn, rfl⟩
    · intro x w hwx
      rw [hw] at hwx
      rw [← hi.flight x w hwx]
      simp [Net.flight, arriving]
  | _ => simp only [handle, hsub] at h; cases h

theorem inv_poll {clock : Str → ℤ} (hi : Inv s) (hs : s.step range (.poll clock) = some s') :
    Inv s' := by
  obtain ⟨d, out, h, rfl⟩ := afterDel_eq_some hs
  obtain ⟨hnamed, hids, hnext, hload⟩ := onPoll_ids hi.named hi.nodup h
  refine hi.callback rfl hi.posted hnamed hids.le hnext ?_
  intro x w' hw'
  obtain ⟨w, hw, he⟩ := hload x w' hw'
  rw [he, hi.flight x w hw]

theorem inv_timeout (hi : Inv s) (hs : s.step range (.timeout x) = some s') : Inv s' := by
  obtain ⟨d, out, h, rfl⟩ := afterDel_eq_some hs
  simp only [handle] at h
  obtain ⟨d₁, hd₁, h⟩ := bind_eq_ok h
  obtain ⟨rfl, rfl⟩ := ok_pair_inj h
  obtain ⟨hnamed, hids, hnext, hworkers⟩ := disconnectWorker_ids hi.named rfl hd₁
  refine hi.callback rfl hi.posted hnamed hids.le hnext ?_
  intro y w hw
  rw [jobIds_arriving (by simp), add_zero]
  exact hi.flight y w (hworkers y w hw)

theorem inv_beat (hi : Inv s) (hs : s.step range (.beat x) = some s') : Inv s' := by
  simp only [step] at hs
  obtain ⟨d, out, h, rfl⟩ := afterDel_eq_some hs
  simp only [handle, Bool.false_eq_true, if_false] at h
  obtain ⟨rfl, rfl⟩ := ok_pair_inj h
  refine hi.callback rfl hi.posted hi.named le_rfl rfl ?_
  intro y w hw
  rw [jobIds_arriving (by simp), add_zero]
  exact hi.flight y w hw

/-- What is in flight when the oldest message of a worker is read. -/
theorem flight_read {m : Message} {rest : List Message} (hm : s.fromWorker x = m :: rest) (y : Str) :
    s.flight y = ({ s with fromWorker := Function.update s.fromWorker x rest } : Net).flight y +
      if y = x then resultIds [m] else 0 := by
  unfold Net.flight
  simp only
  rcases eq_or_ne y x with rfl | hne
  · rw [hm, Function.update_self, if_pos rfl, ← List.singleton_append]
    unfold resultIds
    rw [List.filterMap_append, ← Multiset.coe_add]
    ac_rfl
  · rw [Function.update_of_ne hne, if_neg hne, add_zero]

/-- A RESULT of a connected worker is for a job in progress there. -/
theorem Inv.in_progress {i a : Str} {rest : List Message} {w : Worker} (hi : Inv s)
    (hm : s.fromWorker x = ⟨[], .result, [i, a]⟩ :: rest) (hw : s.del.workers[x]? = some w) :
      i ∈ w.workInProgress := by
  rw [← Worker.mem_ids (hi.named x w hw), ← hi.flight x w hw, flight_read hm x, if_pos rfl]
  exact Multiset.mem_add.2 (.inr (by simp [resultIds, resultId]))

/-- The delegator reads the oldest message of a worker and sends no JOB: what is in flight at the other
workers is as before, and at this one it is less by the RESULT, if the message is one. -/
theorem Inv.read {m : Message} {rest : List Message} {d : Delegator} {out : List Send} (hi : Inv s)
    (hm : s.fromWorker x = m :: rest) (hnamed : Named d) (hids : d.ids ≤ s.del.ids)
    (hnext : d.nextJobId = s.del.nextJobId) (hout : ∀ y, jobIds (arriving out y) = 0)
    (hflight : ∀ y w, d.workers[y]? = some w →
      s.flight y = w.ids + if y = x then resultIds [m] else 0) :
    Inv { s with
      del := d
      toWorker := fun y => s.toWorker y ++ arriving out y
      fromWorker := Function.update s.fromWorker x rest } := by
  have hposted : ∀ y, ∀ m' ∈ Function.update s.fromWorker x rest y, Posted m' := by
    intro y m' hm'
    rcases eq_or_ne y x with rfl | hne
    · rw [Function.update_self] at hm'
      exact hi.posted y m' (hm ▸ List.mem_cons_of_mem _ hm')
    · rw [Function.update_of_ne hne] at hm'
      exact hi.posted y m' hm'
  have hcreated : ({ s with fromWorker := Function.update s.fromWorker x rest } : Net).created =
      s.created := rfl
  refine hi.callback hcreated hposted hnamed hids hnext ?_
  intro y w hw
  have hy := hflight y w hw
  rw [flight_read hm y, add_right_cancel_iff] at hy
  rw [hout, add_zero, hy]

/-- The delegator reads a RESULT. -/
theorem inv_result {i a : Str} {rest : List Message} {now : ℤ} {d : Delegator} {out : List Send}
    (hi : Inv s) (hm : s.fromWorker x = ⟨[], .result, [i, a]⟩ :: rest)
    (h : s.del.receiveResult ⟨[x], .result, [i, a]⟩ now = .ok (d, out)) :
    Inv { s with
      del := d
      toWorker := fun y => s.toWorker y ++ arriving out y
      fromWorker := Function.update s.fromWorker x rest } := by
  cases hw : s.del.workers[x]? with
  | none =>
    -- the worker is not connected, and the RESULT is dropped
    rw [receiveResult_unknown rfl (by simpa using hw)] at h
    obtain ⟨rfl, rfl⟩ := ok_pair_inj h
    refine hi.read hm hi.named le_rfl rfl (jobIds_arriving (by simp)) ?_
    intro y v hv
    have hne : y ≠ x := by
      rintro rfl
      rw [hw] at hv
      cases hv
    rw [if_neg hne, add_zero]
    exact hi.flight y v hv
  | some w =>
    obtain ⟨hnamed, hids, hnext, hout, w', hworkers, hload⟩ :=
      receiveResult_ids hi.named rfl hw rfl (hi.in_progress hm hw) h
    have hless : d.ids ≤ s.del.ids := by
      rw [hids]
      exact Multiset.le_cons_self _ _
    refine hi.read hm hnamed hless hnext
      (jobIds_arriving fun s hs hnet => by rw [hout s hs] at hnet; cases hnet) ?_
    intro y v hv
    rw [hworkers, getElem?_insert_eq] at hv
    rcases eq_or_ne x y with rfl | hne
    · rw [if_pos rfl] at hv
      injection hv with hv
      subst hv
      rw [hi.flight x w hw, hload, if_pos rfl, show resultIds [⟨[], .result, [i, a]⟩] = {i} from rfl,
        ← Multiset.singleton_add, add_comm]
    · rw [if_neg hne] at hv
      rw [if_neg hne.symm, add_zero]
      exact hi.flight y v hv

theorem inv_deliver {now : ℤ} (hi : Inv s) (hsafe : s.Safe (.deliver x now))
    (hs : s.step range (.deliver x now) = some s') : Inv s' := by
  simp only [step] at hs
  split at hs
  · cases hs
  · rename_i m rest hm
    obtain ⟨d, out, h, rfl⟩ := afterDel_eq_some hs
    cases hi.posted x m (hm ▸ List.mem_cons_self) with
    | @hello r =>
      simp only [handle, List.nil_append] at h
      obtain ⟨hnamed, hids, hnext, rfl, hworkers⟩ := newWorker_ids hi.named rfl h
      refine hi.read hm hnamed hids.le hnext (jobIds_arriving (by simp)) ?_
      intro y w hw
      rw [show resultIds [⟨[], .hello, [r]⟩] = 0 from rfl, ite_self, add_zero]
      rcases hworkers y w hw with hold | ⟨rfl, hnot, hnone⟩
      · exact hi.flight y w hold
      · -- a new worker has no jobs, and the step is safe
        rw [hnone]
        exact hsafe ⟨_, rest, hm, rfl⟩ hnot
    | heartbeat =>
      simp only [handle] at h
      obtain ⟨rfl, rfl⟩ := ok_pair_inj h
      refine hi.read hm hi.named le_rfl rfl (jobIds_arriving (by simp)) ?_
      intro y w hw
      rw [show resultIds [⟨[], .heartbeat, []⟩] = 0 from rfl, ite_self, add_zero]
      exact hi.flight y w hw
    | result =>
      simp only [handle, List.nil_append] at h
      exact inv_result hi hm h

/-! ## Steps of the workers -/

theorem posted_post {m : Message} (hi : Inv s) (hm : Posted m) (y : Str) :
    ∀ m' ∈ (s.post x m).fromWorker y, Posted m' := by
  intro m' hm'
  simp only [post] at hm'
  rcases eq_or_ne y x with rfl | hne
  · rw [Function.update_self] at hm'
    rcases List.mem_append.1 hm' with hm' | hm'
    · exact hi.posted y m' hm'
    · rw [List.mem_singleton] at hm'
      exact hm' ▸ hm
  · rw [Function.update_of_ne hne] at hm'
    exact hi.posted y m' hm'

/-- The worker sends something that is no RESULT. -/
theorem inv_post {m : Message} (hi : Inv s) (hm : Posted m) (hno : resultIds [m] = 0) :
    Inv (s.post x m) := by
  refine hi.quiet rfl rfl (posted_post hi hm) ?_
  intro y
  rw [flight_post, hno, ite_self, add_zero]

theorem inv_take (hi : Inv s) (hs : s.step range (.take x) = some s') : Inv s' := by
  simp only [step] at hs
  split at hs
  · cases hs
  · rename_i m rest hm
    injection hs with hs
    subst hs
    refine hi.quiet rfl rfl hi.posted ?_
    intro y
    unfold Net.flight
    simp only
    rcases eq_or_ne y x with rfl | hne
    -- the job goes from those on the way to those held
    · rw [Function.update_self, Function.update_self, hm, ← List.singleton_append, jobIds_append,
        ← Multiset.coe_add]
      have hjob : jobIds [m] = ((if m.subject = .job then m.data[1]?.toList else [] : List Str) :
          Multiset Str) := by
        unfold jobIds jobId
        split
        · cases hd : m.data[1]? with
          | none => simp_all
          | some i => simp_all
        · simp_all
      rw [hjob]
      ac_rfl
    · rw [Function.update_of_ne hne, Function.update_of_ne hne]

theorem inv_answer {id data : Str} (hi : Inv s)
    (hs : s.step range (.answer x id data) = some s') : Inv s' := by
  simp only [step] at hs
  split at hs
  · rename_i hheld
    injection hs with hs
    subst hs
    refine hi.quiet rfl rfl ?_ ?_
    · intro y m hm
      exact posted_post hi .result y m hm
    · intro y
      rw [flight_post]
      unfold Net.flight
      simp only
      rcases eq_or_ne y x with rfl | hne
      · rw [Function.update_self, if_pos rfl,
          show resultIds [⟨[], .result, [id, data]⟩] = {id} from rfl]
        -- the job goes from those held to those on the way back
        have hcons : (s.held y : Multiset Str) = id ::ₘ ((s.held y).erase id : List Str) := by
          rw [Multiset.cons_coe, Multiset.coe_eq_coe]
          exact List.perm_cons_erase hheld
        rw [hcons, ← Multiset.singleton_add]
        ac_rfl
      · rw [Function.update_of_ne hne, if_neg hne, add_zero]
  · cases hs

/-! ## Runs -/

/-- **A safe step keeps the invariant.** -/
theorem inv_step {a : Act} (hi : Inv s) (hsafe : s.Safe a) (hs : s.step range a = some s') :
    Inv s' := by
  cases a with
  | request m => exact inv_request hi hsafe hs
  | poll clock => exact inv_poll hi hs
  | timeout x => exact inv_timeout hi hs
  | beat x => exact inv_beat hi hs
  | deliver x now => exact inv_deliver hi hsafe hs
  | take x => exact inv_take hi hs
  | answer x id data => exact inv_answer hi hs
  | hello x =>
    injection hs with hs
    subst hs
    exact inv_post hi .hello rfl
  | pulse x =>
    injection hs with hs
    subst hs
    exact inv_post hi .heartbeat rfl

/-- **Honest workers send no stray results**: in every run of safe steps, when the oldest message of
a connected worker is a RESULT, its id is that of a job in progress at this worker. -/
theorem honest_results {nJobTypes workerCount : ℕ} {as : List Act}
    (h : Reach (step range) Safe (.init nJobTypes workerCount) as s) {m : Message} {rest : List Message}
    (hm : s.fromWorker x = m :: rest) (hsub : m.subject = .result) {w : Worker}
    (hw : s.del.workers[x]? = some w) :
    ∃ i, m.data.head? = some i ∧ i ∈ w.workInProgress := by
  have hi : Inv s := h.invariant
    (P := fun _ s => Inv s) (.init _ _) fun _ _ _ _ _ ih hok hs => inv_step ih hok hs
  cases hi.posted x m (hm ▸ List.mem_cons_self) with
  | hello => cases hsub
  | heartbeat => cases hsub
  | result => exact ⟨_, rfl, hi.in_progress hm hw⟩

/-- A request with one job, of type 0. -/
def oneJob : Act := .request ⟨[['r']], .request, [['0'], ['x']]⟩

/-- A poll of the delegator, with a clock that stands still. -/
def pollNow : Act := .poll fun _ => 0

set_option maxRecDepth 8000 in
/-- A worker connects, is sent a job and answers it. -/
theorem honest_results_run : ∃ s w, Reach (step fun _ => []) Safe (.init 2 0)
      [.hello ['w'], .deliver ['w'] 0, oneJob, pollNow, .take ['w'], .answer ['w'] ['0'] ['y']] s ∧
    s.fromWorker ['w'] = [⟨[], .result, [['0'], ['y']]⟩] ∧ s.del.workers[['w']]? = some w ∧
    ∃ i, [['0'], ['y']].head? = some i ∧ i ∈ w.workInProgress := by
  have h : Reach (step fun _ => []) Safe (.init 2 0) [] _ := .start
  have h := h.next' (e := .hello ['w']) (by exact trivial) (by decide)
  have h := h.next' (e := .deliver ['w'] 0) (fun _ _ => by rfl) (by decide)
  have h := h.next' (e := oneJob) (by exact (by decide : (0 : ℕ) + 1 ≤ 2 ^ 32)) (by decide)
  have h := h.next' (e := pollNow) (by exact trivial) (by decide)
  have h := h.next' (e := .take ['w']) (by exact trivial) (by decide)
  have h := h.next' (e := .answer ['w'] ['0'] ['y']) (by exact trivial) (by decide)
  refine ⟨_, _, h, by decide, (Option.some_get (by decide)).symm, ?_⟩
  exact honest_results h (show _ = [(⟨[], .result, [['0'], ['y']]⟩ : Message)] by decide) rfl
    (Option.some_get (by decide)).symm

set_option maxRecDepth 8000 in
/-- **Two runs of honest workers that end with a stray result**. A worker is timed out while it holds
a job and says HELLO: the job is sent to it again, and the second answer is stray; or it is sent to
another worker, and the answer is. -/
theorem stray_of_honest :
    (∃ s w, Reach (step fun _ => []) (fun _ _ => True) (.init 2 0)
      [.hello ['w'], .deliver ['w'] 0, pollNow, oneJob, pollNow, .take ['w'], .timeout ['w'],
        pollNow, .hello ['w'], .deliver ['w'] 1, pollNow, .take ['w'], .answer ['w'] ['0'] ['y'],
        .answer ['w'] ['0'] ['y'], .deliver ['w'] 2, pollNow] s ∧
      s.fromWorker ['w'] = [⟨[], .result, [['0'], ['y']]⟩] ∧ s.del.workers[['w']]? = some w ∧
      ['0'] ∉ w.workInProgress) ∧
    ∃ s w, Reach (step fun _ => []) (fun _ _ => True) (.init 2 0)
      [.hello ['w'], .deliver ['w'] 0, pollNow, oneJob, pollNow, .take ['w'], .timeout ['w'],
        pollNow, .hello ['v'], .deliver ['v'] 1, pollNow, .hello ['w'], .deliver ['w'] 2, pollNow,
        .answer ['w'] ['0'] ['y']] s ∧
      s.fromWorker ['w'] = [⟨[], .result, [['0'], ['y']]⟩] ∧ s.del.workers[['w']]? = some w ∧
      ['0'] ∉ w.workInProgress := by
  have h : Reach (step fun _ => []) (fun _ _ => True) (.init 2 0) [] _ := .start
  have h := h.next' (e := .hello ['w']) trivial (by decide)
  have h := h.next' (e := .deliver ['w'] 0) trivial (by decide)
  have h := h.next' (e := pollNow) trivial (by decide)
  have h := h.next' (e := oneJob) trivial (by decide)
  have h := h.next' (e := pollNow) trivial (by decide)
  have h := h.next' (e := .take ['w']) trivial (by decide)
  have h := h.next' (e := .timeout ['w']) trivial (by decide)
  have h := h.next' (e := pollNow) trivial (by decide)
  constructor
  · have h := h.next' (e := .hello ['w']) trivial (by decide)
    have h := h.next' (e := .deliver ['w'] 1) trivial (by decide)
    have h := h.next' (e := pollNow) trivial (by decide)
    have h := h.next' (e := .take ['w']) trivial (by decide)
    have h := h.next' (e := .answer ['w'] ['0'] ['y']) trivial (by decide)
    have h := h.next' (e := .answer ['w'] ['0'] ['y']) trivial (by decide)
    have h := h.next' (e := .deliver ['w'] 2) trivial (by decide)
    have h := h.next' (e := pollNow) trivial (by decide)
    exact ⟨_, _, h, by decide, (Option.some_get (by decide)).symm, by decide⟩
  · have h := h.next' (e := .hello ['v']) trivial (by decide)
    have h := h.next' (e := .deliver ['v'] 1) trivial (by decide)
    have h := h.next' (e := pollNow) trivial (by decide)
    have h := h.next' (e := .hello ['w']) trivial (by decide)
    have h := h.next' (e := .deliver ['w'] 2) trivial (by decide)
    have h := h.next' (e := pollNow) trivial (by decide)
    have h := h.next' (e := .answer ['w'] ['0'] ['y']) trivial (by decide)
    exact ⟨_, _, h, by decide, (Option.some_get (by decide)).symm, by decide⟩

end Net

end Stateline
