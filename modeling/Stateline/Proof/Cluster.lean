import Stateline.Comms.Cluster
import Stateline.Proof.Honest
import Stateline.Proof.Register
import Stateline.Proof.Relay

/-!
# Runs of the delegator and its workers

* `Relay.Effect`: what a step of a worker does to what it has received and sent.
* `Cluster.Move`: what a step of the delegator or of a worker does.
* `Cluster.Inv`: **the invariant.** The jobs in progress at a connected worker are in flight
  there, and a HELLO is only on its way from a worker that was never connected.
* `Cluster.inv_step`: every step keeps it.
-/

namespace Stateline

open Std Lib Delegator

/-! ## The steps of a worker -/

namespace Relay

variable {D : Type} {stod : Str → Option D} {to_string : D → Str} {lhFn : ℕ → List D → D}
    {s s' : Relay D} {m : Message}

/-- The JOBs that a worker has received and not answered. -/
def unanswered (s : Relay D) : List Message := s.received.drop (results s.sent).length

/-- The JOBs that are answered are the first ones received. -/
theorem Inv.answered (hi : Inv stod to_string lhFn s) :
    ∃ done, done <+: s.received ∧ List.Forall₂ (Answers stod to_string lhFn) done (results s.sent) := by
  obtain ⟨hcon, hphase⟩ := hi
  have hhanded : s.handed <+: s.received := ⟨s.worker.queue, hcon.symm⟩
  cases hphase with
  | waiting _ hdone => exact ⟨s.handed, hhanded, hdone⟩
  | @busy done job _ hbusy hdone =>
    refine ⟨done, ?_, hdone⟩
    rw [hbusy] at hhanded
    exact (List.prefix_append done [job]).trans hhanded

/-- A RESULT that was sent answers a JOB that was received, in their order. -/
theorem Inv.answers (hi : Inv stod to_string lhFn s) {k : ℕ} {r : Message}
    (hr : (results s.sent)[k]? = some r) :
    ∃ job, s.received[k]? = some job ∧ Answers stod to_string lhFn job r := by
  obtain ⟨done, hpre, hdone⟩ := hi.answered
  obtain ⟨hk, rfl⟩ := List.getElem?_eq_some_iff.1 hr
  have hk' : k < done.length := by
    rw [hdone.length_eq]
    exact hk
  refine ⟨done[k], ?_, hdone.get hk' hk⟩
  rw [List.prefix_iff_getElem?.1 hpre k hk']

theorem Inv.length_results (hi : Inv stod to_string lhFn s) :
    (results s.sent).length ≤ s.received.length := by
  obtain ⟨done, hpre, hdone⟩ := hi.answered
  rw [← hdone.length_eq]
  exact hpre.length_le

/-- What a step does to what a worker has received and sent, and to what its minion has sent. -/
inductive Effect (s s' : Relay D) : Act → Prop
  | job {m : Message} : m.subject = .job → s'.received = s.received ++ [m] → s'.sent = s.sent →
      s'.toWorker = s.toWorker → Effect s s' (.network m)
  | other {m : Message} : m.subject ≠ .job → s'.received = s.received → s'.sent = s.sent →
      s'.toWorker = s.toWorker → Effect s s' (.network m)
  | heartbeat {m : Message} : s'.received = s.received →
      s'.sent = s.sent ++ [⟨[], .heartbeat, m.data⟩] → s'.toWorker = s.toWorker →
      Effect s s' (.heartbeat m)
  | result {m : Message} : s.toWorker = m :: s'.toWorker → m.subject = .result →
      s'.received = s.received → s'.sent = s.sent ++ [m] → Effect s s' .fromMinion
  | hello {m : Message} : s.toWorker = m :: s'.toWorker → m.subject = .hello →
      s'.received = s.received → s'.sent = s.sent ++ [⟨[], .hello, m.data⟩] → Effect s s' .fromMinion
  | nextJob : s'.received = s.received → s'.sent = s.sent → s'.toWorker = s.toWorker →
      Effect s s' .nextJob
  | submitResult {i a : Str} : s'.received = s.received → s'.sent = s.sent →
      s'.toWorker = s.toWorker ++ [⟨[], .result, [i, a]⟩] → Effect s s' .submitResult

/-- **What a step does.** -/
theorem step_effect {a : Act} (hs : s.step stod to_string lhFn a = some s') : Effect s s' a := by
  cases a with
  | network m =>
    simp only [step] at hs
    cases hsub : m.subject with
    | job =>
      simp only [Worker.handle, hsub, if_true, afterWorker, Option.some.injEq] at hs
      subst hs
      refine .job hsub rfl ?_ rfl
      unfold Worker.onJobFromNetwork
      split <;> exact List.append_nil _
    | hello | heartbeat | goodbye =>
      simp only [Worker.handle, hsub, reduceCtorEq, if_false, afterWorker, Option.some.injEq] at hs
      subst hs
      refine .other ?_ rfl (List.append_nil _) rfl
      rw [hsub]
      decide
    | request | result =>
      simp only [Worker.handle, hsub, afterWorker] at hs
      cases hs
  | heartbeat m =>
    simp only [step] at hs
    cases hsub : m.subject with
    | heartbeat =>
      simp only [Worker.handle, hsub, afterWorker, Option.some.injEq] at hs
      subst hs
      refine .heartbeat rfl ?_ rfl
      rw [← hsub]
      rfl
    | hello | goodbye | request | result | job =>
      simp only [Worker.handle, hsub, afterWorker] at hs
      cases hs
  | fromMinion =>
    simp only [step] at hs
    split at hs
    · cases hs
    · rename_i m rest hto
      cases hsub : m.subject with
      | result =>
        simp only [Worker.handle, hsub, afterWorker, Option.some.injEq] at hs
        subst hs
        refine .result hto hsub rfl ?_
        unfold Worker.onResultFromMinion
        split <;> rfl
      | hello =>
        simp only [Worker.handle, hsub, afterWorker, Option.some.injEq] at hs
        subst hs
        refine .hello hto hsub rfl ?_
        rw [← hsub]
        rfl
      | heartbeat | goodbye | request | job =>
        simp only [Worker.handle, hsub, afterWorker] at hs
        cases hs
  | nextJob =>
    simp only [step] at hs
    split at hs
    · split at hs
      · cases hs
        exact .nextJob rfl rfl rfl
      · cases hs
    · cases hs
  | submitResult =>
    simp only [step] at hs
    split at hs
    · cases hs
      exact .submitResult rfl rfl rfl
    · cases hs

/-! ## Its minion -/

/-- The id that the minion keeps is that of the JOB. -/
theorem nextJob_id {job : Message} {id : Str} {p : ℕ × List D}
    (h : Relay.nextJob stod job = .ok (id, p)) : job.data[1]? = some id := by
  obtain ⟨currentJob, hid, h⟩ := bind_eq_ok h
  obtain ⟨frame, -, h⟩ := bind_eq_ok h
  obtain ⟨sample, -, h⟩ := bind_eq_ok h
  obtain ⟨t, -, h⟩ := bind_eq_ok h
  obtain ⟨jobType, -, h⟩ := bind_eq_ok h
  obtain ⟨rfl, -⟩ := ok_pair_inj h
  unfold nth at hid
  split at hid
  · rename_i s hs
    cases hid
    exact hs
  · cases hid

/-- The type and the sample of a JOB do not depend on its id. -/
theorem nextJob_data {job : Message} {t id data : Str} (h : job.data = [t, id, data]) :
    Relay.nextJob stod job =
      (Relay.nextJob stod ⟨[], .job, [t, [], data]⟩).map fun p => (id, p.2) := by
  simp only [Relay.nextJob, h, nth, List.getElem?_cons_succ, List.getElem?_cons_zero, ok_bind]
  cases (segments data ':').mapM fun x => orThrow (stod x) with
  | error f => rfl
  | ok sample =>
    simp only [ok_bind]
    cases orThrow (stoi t) with
    | error f => rfl
    | ok jobType => rfl

variable (stod to_string lhFn) in
/-- What the minion answers to a JOB of a type with a sample. -/
def answer (t : ℕ) (data : Str) : Str :=
  match Relay.nextJob stod ⟨[], .job, [toStr t, [], data]⟩ with
  | .ok (_, jobType, sample) => to_string (lhFn jobType sample)
  | .error _ => []

/-- **The RESULT of a JOB** carries its id and the answer. -/
theorem Answers.eq {job r : Message} {t : ℕ} {id data : Str} (h : job.data = [toStr t, id, data])
    (ha : Answers stod to_string lhFn job r) :
    r = ⟨[], .result, [id, answer stod to_string lhFn t data]⟩ := by
  obtain ⟨i, jobType, sample, hnext, rfl⟩ := ha
  obtain rfl : i = id := by
    have hid := nextJob_id hnext
    rw [h] at hid
    exact (Option.some.inj hid).symm
  rw [nextJob_data h] at hnext
  unfold answer
  cases hcase : Relay.nextJob stod ⟨[], .job, [toStr t, [], data]⟩ with
  | error f =>
    rw [hcase] at hnext
    cases hnext
  | ok p =>
    obtain ⟨id', jobType', sample'⟩ := p
    rw [hcase] at hnext
    cases hnext
    rfl

/-- What a minion sends: its HELLO, and RESULTs. -/
def FromMinion (jobstring : Str) (m : Message) : Prop :=
  m = ⟨[], .hello, [jobstring]⟩ ∨ ∃ i a, m = ⟨[], .result, [i, a]⟩

/-- The HELLOs among messages. -/
def hellos (ms : List Message) : List Message := ms.filter fun m => m.subject = .hello

theorem hellos_cons_of_hello {ms : List Message} (h : m.subject = .hello) :
    hellos (m :: ms) = m :: hellos ms := List.filter_cons_of_pos (by simpa using h)

theorem hellos_cons_of_ne {ms : List Message} (h : m.subject ≠ .hello) :
    hellos (m :: ms) = hellos ms := List.filter_cons_of_neg (by simpa using h)

theorem hellos_append (ms ms' : List Message) : hellos (ms ++ ms') = hellos ms ++ hellos ms' :=
  List.filter_append ..

theorem results_append (ms ms' : List Message) : results (ms ++ ms') = results ms ++ results ms' :=
  List.filter_append ..

end Relay

namespace Cluster

open Net (arriving resultIds)
open Relay (hellos results)

variable {D : Type} {stod : Str → Option D} {to_string : D → Str} {lhFn : ℕ → List D → D}
    {range : Str → Str} {c c' : Cluster D} {out : List Message} {x : Str}

/-! ## The steps -/

/-- The event that the delegator handles, and the state of the channels once it is read. -/
inductive Reads (c : Cluster D) : Act → Event → Cluster D → Prop
  | request {m : Message} :
    Reads c (.request m) (.recv .requester m 0 false) { c with created := c.created + Net.jobsOf m }
  | poll {clock : Str → ℤ} : Reads c (.poll clock) (.poll clock fun _ => false) c
  | timeout {x : Str} : Reads c (.timeout x) (.recv .heartbeat ⟨[x], .goodbye, []⟩ 0 false) c
  | beat {x : Str} : Reads c (.beat x) (.recv .heartbeat ⟨[x], .heartbeat, []⟩ 0 false) c
  | deliver {x : Str} {now : ℤ} {m : Message} {rest : List Message} : c.fromWorker x = m :: rest →
    Reads c (.deliver x now) (.recv .network { m with address := m.address ++ [x] } now false)
      { c with fromWorker := Function.update c.fromWorker x rest }

variable (stod to_string lhFn) in
/-- What a step does. -/
inductive Move (c : Cluster D) : Act → Cluster D → List Message → Prop
  | event {a : Act} {e : Event} {c₁ : Cluster D} {d : Delegator} {out : List Send} : Reads c a e c₁ →
      c.del.handle e = .ok (d, out) →
      Move c a { c₁ with del := d, toWorker := fun x => c₁.toWorker x ++ arriving out x }
        (toRequesters out)
  | take {x : Str} {m : Message} {rest : List Message} {r : Relay D} : c.toWorker x = m :: rest →
      (c.relay x).step stod to_string lhFn (.network m) = some r →
      Move c (.take x) { c with
        toWorker := Function.update c.toWorker x rest
        relay := Function.update c.relay x r
        fromWorker := Function.update c.fromWorker x
          (c.fromWorker x ++ r.sent.drop (c.relay x).sent.length) } []
  | work {x : Str} {k : Work} {r : Relay D} :
      (c.relay x).step stod to_string lhFn k.act = some r →
      Move c (.work x k) { c with
        relay := Function.update c.relay x r
        fromWorker := Function.update c.fromWorker x
          (c.fromWorker x ++ r.sent.drop (c.relay x).sent.length) } []

theorem afterDel_eq_some {res : Except Fault (Delegator × List Send)}
    (h : c.afterDel res = some (c', out)) :
    ∃ d sends, res = .ok (d, sends) ∧ out = toRequesters sends ∧
      c' = { c with del := d, toWorker := fun x => c.toWorker x ++ arriving sends x } := by
  unfold afterDel at h
  split at h
  · rename_i d sends
    cases h
    exact ⟨d, sends, rfl, rfl, rfl⟩
  · cases h

/-- **What a step does.** -/
theorem step_cases {a : Act} (h : c.step stod to_string lhFn a = some (c', out)) :
    Move stod to_string lhFn c a c' out := by
  -- a callback of the delegator
  have hevent : ∀ {e : Event} {c₁ : Cluster D}, Reads c a e c₁ →
      c₁.afterDel (c.del.handle e) = some (c', out) → Move stod to_string lhFn c a c' out := by
    intro e c₁ hr h
    obtain ⟨d, sends, hrun, rfl, rfl⟩ := afterDel_eq_some h
    exact .event hr hrun
  cases a with
  | request m => exact hevent .request h
  | poll clock => exact hevent .poll h
  | timeout x => exact hevent .timeout h
  | beat x => exact hevent .beat h
  | deliver x now =>
    simp only [step] at h
    split at h
    · cases h
    · rename_i m rest hm
      exact hevent (.deliver hm) h
  | take x =>
    simp only [step] at h
    split at h
    · cases h
    · rename_i m rest hm
      unfold afterWork at h
      split at h
      · rename_i r hr
        cases h
        exact .take hm hr
      · cases h
  | work x k =>
    simp only [step, afterWork] at h
    split at h
    · rename_i r hr
      cases h
      exact .work hr
    · cases h

/-- The event that is read is handled. -/
theorem step_of_reads {a : Act} {e : Event} {c₁ : Cluster D} {d : Delegator} {out : List Send}
    (hr : Reads c a e c₁) (h : c.del.handle e = .ok (d, out)) :
    c.step stod to_string lhFn a = some
      ({ c₁ with del := d, toWorker := fun x => c₁.toWorker x ++ arriving out x }, toRequesters out) := by
  cases hr with
  | deliver hm =>
    simp only [step, hm, h]
    rfl
  | _ =>
    simp only [step, h]
    rfl

/-! ## The invariant -/

/-- The ids of the JOBs that a worker has received and not answered. -/
def heldIds (r : Relay D) : List Str := r.unanswered.filterMap fun m => m.data[1]?

/-- The network, without what the workers do with their jobs. -/
def net (c : Cluster D) : Net :=
  ⟨c.del, c.toWorker, fun x => heldIds (c.relay x), c.fromWorker, c.created⟩

/-- The HELLOs of a worker that are not read. -/
def greetings (c : Cluster D) (x : Str) : List Message :=
  hellos ((c.relay x).toWorker ++ c.fromWorker x)

/-- The worker has never been connected. -/
structure New (c : Cluster D) (x : Str) : Prop where
  unconnected : x ∉ c.del.workers
  toWorker : ∀ m ∈ c.toWorker x, m.subject ≠ .job
  received : (c.relay x).received = []

variable (stod to_string lhFn range) in
/-- **The invariant.** -/
structure Inv (c : Cluster D) : Prop where
  net : c.net.Inv
  relay : ∀ x, Relay.Inv stod to_string lhFn (c.relay x)
  minion : ∀ x, ∀ m ∈ (c.relay x).toWorker, Relay.FromMinion (range x) m
  sent : ∀ x, c.fromWorker x <:+ (c.relay x).sent
  hello : ∀ x, ∀ m ∈ c.fromWorker x, m.subject = .hello → m.data = [range x]
  once : ∀ x, (c.greetings x).length ≤ 1
  new : ∀ x, c.greetings x ≠ [] → c.New x

theorem Inv.init (nJobTypes workerCount : ℕ) (range : Str → Str) :
    Inv stod to_string lhFn range (.init nJobTypes workerCount range) where
  net := Net.Inv.init nJobTypes workerCount
  relay x := .init (range x)
  minion _ _ hm := .inl (List.mem_singleton.1 hm)
  sent _ := List.suffix_refl []
  hello _ _ hm := (List.not_mem_nil hm).elim
  once _ := le_rfl
  new _ _ := ⟨ExtTreeMap.not_mem_empty, fun _ hm => (List.not_mem_nil hm).elim, rfl⟩

/-- Nothing is in flight at a worker that has never been connected. -/
theorem Inv.flight_eq_zero (hi : Inv stod to_string lhFn range c) (hnew : c.New x) :
    c.net.flight x = 0 := by
  have hjobs : jobIds (c.toWorker x) = 0 := by
    rw [jobIds, Multiset.coe_eq_zero, List.filterMap_eq_nil_iff]
    intro m hm
    exact if_neg (hnew.toWorker m hm)
  have hheld : heldIds (c.relay x) = [] := by
    rw [heldIds, Relay.unanswered, hnew.received, List.drop_nil]
    rfl
  have hresults : resultIds (c.fromWorker x) = 0 := by
    have hlen := (hi.relay x).length_results
    rw [hnew.received, List.length_nil, Nat.le_zero, List.length_eq_zero_iff] at hlen
    rw [resultIds, Multiset.coe_eq_zero, List.filterMap_eq_nil_iff]
    intro m hm
    refine if_neg ?_
    intro hsub
    have hmem : m ∈ results (c.relay x).sent :=
      List.mem_filter.2 ⟨(hi.sent x).subset hm, decide_eq_true hsub⟩
    rw [hlen] at hmem
    exact List.not_mem_nil hmem
  show jobIds (c.toWorker x) + (heldIds (c.relay x) : Multiset Str) + resultIds (c.fromWorker x) = 0
  rw [hjobs, hheld, hresults]
  rfl

theorem Inv.keyed (hi : Inv stod to_string lhFn range c) : Keyed c.del := by
  intro x w hw
  rw [(hi.net.named x w hw).address]
  rfl

/-! ## Steps of the delegator -/

/-- Nothing of what is sent is for the network. -/
theorem arriving_eq_nil {sends : List Send} (h : ∀ s ∈ sends, s.sock ≠ .network) (x : Str) :
    arriving sends x = [] := by
  unfold arriving
  rw [List.filter_eq_nil_iff.2, List.map_nil]
  intro s hs hto
  exact h s hs (of_decide_eq_true hto).1

/-- **A JOB is only sent to a worker that is connected.** -/
theorem handle_jobs {d d' : Delegator} {e : Event} {sends : List Send} (hd : Keyed d)
    (h : d.handle e = .ok (d', sends)) (hx : x ∉ d.workers) :
    ∀ m ∈ arriving sends x, m.subject ≠ .job := by
  cases e with
  | poll clock fails =>
    refine pollLoop_returned (P := fun d _ _ sends => Keyed d → x ∉ d.workers →
      ∀ m ∈ arriving sends x, m.subject ≠ .job) ?_ ?_ ?_ h hd hx
    · intro d _ _ m hm
      cases hm
    · intro d i js d' sends ih hd hx
      exact ih hd hx
    · intro d d₁ d' i js y sends sends' h₁ ih hd hx
      obtain ⟨hkeyed, -, hkeys⟩ := dispatch_keys hd h₁
      obtain ⟨w, data, hw, -, rfl, -⟩ := dispatch_eq_ok (fun w hw => hd y w hw) h₁
      -- the worker that is sent the job is another one
      have hne : y ≠ x := by
        rintro rfl
        exact hx (mem_iff_getElem?.2 ⟨w, hw⟩)
      have hnone : arriving [⟨.network, ⟨w.address, .job, [toStr i.type, i.id, data]⟩⟩] x = [] := by
        have hhead : w.address.head? = some y := hd y w hw
        simp [arriving, hhead, hne]
      rw [Net.arriving_append, hnone, List.nil_append]
      exact ih hkeyed (mt (hkeys x).1 hx)
  | recv sock m now fails =>
    have hnone : (∀ s ∈ sends, s.sock ≠ .network) → ∀ m ∈ arriving sends x, m.subject ≠ .job := by
      intro hother m hm
      rw [arriving_eq_nil hother] at hm
      cases hm
    simp only [handle] at h
    split at h
    · obtain ⟨d₁, -, h⟩ := bind_eq_ok h
      obtain ⟨-, rfl⟩ := ok_pair_inj h
      exact hnone (List.forall_mem_nil _)
    · obtain ⟨y, hy, -⟩ := bind_eq_ok h
      rw [(newWorker_eq_ok (head?_of_front hy) h).1] at hnone ⊢
      exact hnone (by simp)
    · obtain ⟨y, -, hout, -⟩ := receiveResult_eq_ok h
      refine hnone ?_
      intro s hs
      rw [hout s hs]
      decide
    · obtain ⟨-, rfl⟩ := ok_pair_inj h
      exact hnone (by simp)
    · cases h
    · rename_i hsub
      split at h
      · obtain ⟨d₁, -, h⟩ := bind_eq_ok h
        obtain ⟨-, rfl⟩ := ok_pair_inj h
        exact hnone (List.forall_mem_nil _)
      · obtain ⟨-, rfl⟩ := ok_pair_inj h
        intro m' hm'
        obtain ⟨s, hs, rfl⟩ := List.mem_map.1 hm'
        rw [List.mem_singleton.1 (List.mem_filter.1 hs).1]
        show m.subject ≠ .job
        rw [hsub]
        decide
    · obtain ⟨d₁, -, h⟩ := bind_eq_ok h
      obtain ⟨-, rfl⟩ := ok_pair_inj h
      exact hnone (List.forall_mem_nil _)
    · cases h

/-- Only the HELLO of a worker connects it. -/
theorem unconnected_of_reads {a : Act} {e : Event} {c₁ : Cluster D} {d : Delegator} {sends : List Send}
    (hi : Inv stod to_string lhFn range c) (hr : Reads c a e c₁) (h : c.del.handle e = .ok (d, sends))
    (hx : x ∉ c.del.workers)
    (hhello : ∀ now m rest, a = .deliver x now → c.fromWorker x = m :: rest → m.subject ≠ .hello) :
    x ∉ d.workers := by
  cases handle_turnover hi.keyed h with
  | @connects m now fails y frame w hsub hhead hy hw =>
    have hne : y ≠ x := by
      rintro rfl
      cases hr with
      | @deliver z now m rest hm =>
        have hmem : m ∈ c.net.fromWorker z := by
          show m ∈ c.fromWorker z
          rw [hm]
          exact List.mem_cons_self
        have hz : z = y := by
          cases hi.net.posted z m hmem with
          | _ => exact Option.some.inj hhead
        subst hz
        exact hhello now m rest rfl hm hsub
    rw [ExtTreeMap.mem_insert, LawfulEqCmp.compare_eq_iff_eq]
    rintro (he | hmem)
    · exact hne he
    · exact hx hmem
  | answers _ _ hw _ _ _ _ _ =>
    rw [ExtTreeMap.mem_insert, LawfulEqCmp.compare_eq_iff_eq]
    rintro (rfl | hmem)
    · exact hx (mem_iff_getElem?.2 ⟨_, hw⟩)
    · exact hx hmem
  | leaves _ _ hworkers _ =>
    rw [hworkers]
    exact fun hmem => hx (ExtTreeMap.mem_of_mem_erase hmem)
  | same _ hsame =>
    intro hmem
    obtain ⟨w, hw⟩ := mem_iff_getElem?.1 hmem
    obtain ⟨v, hv, -⟩ := hsame.find hw
    exact hx (mem_iff_getElem?.2 ⟨v, hv⟩)

/-- What the event means for the network. -/
theorem net_inv_of_reads {a : Act} {e : Event} {c₁ : Cluster D} {d : Delegator} {sends : List Send}
    (hi : Inv stod to_string lhFn range c) (hr : Reads c a e c₁) (h : c.del.handle e = .ok (d, sends))
    (hbound : c₁.created ≤ 2 ^ 32) :
    Net.Inv { c₁.net with del := d, toWorker := fun x => c₁.toWorker x ++ arriving sends x } := by
  cases hr with
  | @request m =>
    refine @Net.inv_step range _ _ (.request m) hi.net hbound ?_
    show Net.afterDel _ (c.del.handle _) = _
    rw [h]
    rfl
  | @poll clock =>
    refine @Net.inv_step range _ _ (.poll clock) hi.net trivial ?_
    show Net.afterDel _ (c.del.handle _) = _
    rw [h]
    rfl
  | @timeout x =>
    refine @Net.inv_step range _ _ (.timeout x) hi.net trivial ?_
    show Net.afterDel _ (c.del.handle _) = _
    rw [h]
    rfl
  | @beat x =>
    refine @Net.inv_step range _ _ (.beat x) hi.net trivial ?_
    simp only [Net.step, net, h]
    rfl
  | @deliver x now m rest hm =>
    refine @Net.inv_step range _ _ (.deliver x now) hi.net ?_ ?_
    · -- a HELLO comes from a worker that was never connected
      rintro ⟨m', rest', hm', hsub⟩ -
      obtain ⟨rfl, rfl⟩ := List.cons.inj (hm.symm.trans hm')
      refine hi.flight_eq_zero (hi.new x ?_)
      rw [greetings, Relay.hellos_append, hm, Relay.hellos_cons_of_hello hsub]
      exact List.append_ne_nil_of_right_ne_nil _ (List.cons_ne_nil _ _)
    · simp only [Net.step, net, hm, h]
      rfl

/-- The messages of a worker are read from the front. -/
theorem fromWorker_of_reads {a : Act} {e : Event} {c₁ : Cluster D} (hr : Reads c a e c₁) (x : Str) :
    c₁.fromWorker x <:+ c.fromWorker x ∧ c₁.relay = c.relay ∧ c₁.toWorker = c.toWorker := by
  cases hr with
  | @deliver y now m rest hm =>
    refine ⟨?_, rfl, rfl⟩
    rcases eq_or_ne x y with rfl | hne
    · rw [hm]
      show Function.update c.fromWorker x rest x <:+ _
      rw [Function.update_self]
      exact List.suffix_cons m rest
    · show Function.update c.fromWorker y rest x <:+ _
      rw [Function.update_of_ne hne]
  | _ => exact ⟨List.suffix_refl _, rfl, rfl⟩

/-- **The delegator keeps the invariant.** -/
theorem inv_event {a : Act} {e : Event} {c₁ : Cluster D} {d : Delegator} {sends : List Send}
    (hi : Inv stod to_string lhFn range c) (hr : Reads c a e c₁) (h : c.del.handle e = .ok (d, sends))
    (hbound : c₁.created ≤ 2 ^ 32) :
    Inv stod to_string lhFn range
      { c₁ with del := d, toWorker := fun x => c₁.toWorker x ++ arriving sends x } := by
  have hrelay : c₁.relay = c.relay := (fromWorker_of_reads hr []).2.1
  have hto : c₁.toWorker = c.toWorker := (fromWorker_of_reads hr []).2.2
  have hsuffix (x : Str) : c₁.fromWorker x <:+ c.fromWorker x := (fromWorker_of_reads hr x).1
  -- no HELLO is said
  have hsub (x : Str) : (hellos ((c₁.relay x).toWorker ++ c₁.fromWorker x)).Sublist (c.greetings x) := by
    rw [hrelay]
    exact ((List.Sublist.refl _).append (hsuffix x).sublist).filter _
  refine ⟨net_inv_of_reads hi hr h hbound, ?_, ?_, ?_, ?_, ?_, ?_⟩
  · show ∀ x, Relay.Inv _ _ _ (c₁.relay x)
    rw [hrelay]
    exact hi.relay
  · show ∀ x, ∀ m ∈ (c₁.relay x).toWorker, _
    rw [hrelay]
    exact hi.minion
  · show ∀ x, c₁.fromWorker x <:+ (c₁.relay x).sent
    rw [hrelay]
    exact fun x => (hsuffix x).trans (hi.sent x)
  · exact fun x m hm => hi.hello x m ((hsuffix x).subset hm)
  · exact fun x => (hsub x).length_le.trans (hi.once x)
  · intro x hx
    have hgreet : c.greetings x ≠ [] := fun hnone => hx (List.sublist_nil.1 (hnone ▸ hsub x))
    obtain ⟨hun, hjobs, hrec⟩ := hi.new x hgreet
    refine ⟨unconnected_of_reads hi hr h hun ?_, ?_, by rw [hrelay]; exact hrec⟩
    · -- the HELLO of a worker is read once
      rintro now m rest rfl hm hsubj
      cases hr with
      | deliver hm' =>
        obtain ⟨rfl, rfl⟩ := List.cons.inj (hm.symm.trans hm')
        have hlen := hi.once x
        rw [greetings, Relay.hellos_append, hm, Relay.hellos_cons_of_hello hsubj, List.length_append,
          List.length_cons] at hlen
        refine hx ?_
        show hellos ((c.relay x).toWorker ++ Function.update c.fromWorker x rest x) = []
        rw [Function.update_self, Relay.hellos_append, ← List.length_eq_zero_iff, List.length_append]
        omega
    · intro m hm
      rw [hto] at hm
      rcases List.mem_append.1 hm with hm | hm
      · exact hjobs m hm
      · exact handle_jobs hi.keyed h hun m hm

/-! ## Steps of the workers -/

/-- The state after a step of the worker `x`, which has sent `new`. -/
def worked (c : Cluster D) (toWorker : Str → List Message) (x : Str) (r : Relay D) (new : List Message) :
    Cluster D :=
  { c with
    toWorker
    relay := Function.update c.relay x r
    fromWorker := Function.update c.fromWorker x (c.fromWorker x ++ new) }

theorem worked_net (toWorker : Str → List Message) (x : Str) (r : Relay D) (new : List Message) :
    (c.worked toWorker x r new).net = ⟨c.del, toWorker,
      Function.update (fun y => heldIds (c.relay y)) x (heldIds r),
      Function.update c.fromWorker x (c.fromWorker x ++ new), c.created⟩ := by
  rw [net]
  congr 1
  funext y
  exact Function.apply_update (fun _ => heldIds) c.relay x r y

/-- Nothing new, for the delegator and its network. -/
theorem worked_net_same {r : Relay D} (hheld : heldIds r = heldIds (c.relay x)) :
    (c.worked c.toWorker x r []).net = c.net := by
  rw [worked_net, hheld, List.append_nil, Function.update_eq_self, Function.update_eq_self x fun y => _]
  rfl

/-- A step of a worker keeps the invariant, when the network keeps its own. -/
theorem Inv.worked {toWorker : Str → List Message} {r : Relay D} {new : List Message}
    (hi : Inv stod to_string lhFn range c) (hnet : (c.worked toWorker x r new).net.Inv)
    (hrelay : Relay.Inv stod to_string lhFn r) (hsent : r.sent = (c.relay x).sent ++ new)
    (hminion : ∀ m ∈ r.toWorker, Relay.FromMinion (range x) m)
    (hhello : ∀ m ∈ new, m.subject = .hello → m.data = [range x])
    (hgreet : (hellos (r.toWorker ++ (c.fromWorker x ++ new))).length ≤ (c.greetings x).length)
    (hto : ∀ y, toWorker y <:+ c.toWorker y) (hrec : c.New x → r.received = []) :
    Inv stod to_string lhFn range (c.worked toWorker x r new) := by
  have hgreetings (y : Str) :
      ((c.worked toWorker x r new).greetings y).length ≤ (c.greetings y).length := by
    unfold greetings Cluster.worked
    dsimp only
    rcases eq_or_ne y x with rfl | hne
    · rw [Function.update_self, Function.update_self]
      exact hgreet
    · rw [Function.update_of_ne hne, Function.update_of_ne hne]
  refine ⟨hnet, ?_, ?_, ?_, ?_, fun y => (hgreetings y).trans (hi.once y), ?_⟩
  · intro y
    show Relay.Inv _ _ _ (Function.update c.relay x r y)
    rcases eq_or_ne y x with rfl | hne
    · rw [Function.update_self]
      exact hrelay
    · rw [Function.update_of_ne hne]
      exact hi.relay y
  · intro y
    show ∀ m ∈ (Function.update c.relay x r y).toWorker, _
    rcases eq_or_ne y x with rfl | hne
    · rw [Function.update_self]
      exact hminion
    · rw [Function.update_of_ne hne]
      exact hi.minion y
  · intro y
    show Function.update c.fromWorker x _ y <:+ (Function.update c.relay x r y).sent
    rcases eq_or_ne y x with rfl | hne
    · rw [Function.update_self, Function.update_self, hsent]
      obtain ⟨before, hbefore⟩ := hi.sent y
      exact ⟨before, by rw [← List.append_assoc, hbefore]⟩
    · rw [Function.update_of_ne hne, Function.update_of_ne hne]
      exact hi.sent y
  · intro y m hm
    change m ∈ Function.update c.fromWorker x _ y at hm
    rcases eq_or_ne y x with rfl | hne
    · rw [Function.update_self] at hm
      rcases List.mem_append.1 hm with hm | hm
      · exact hi.hello y m hm
      · exact hhello m hm
    · rw [Function.update_of_ne hne] at hm
      exact hi.hello y m hm
  · intro y hy
    have hold : c.greetings y ≠ [] := by
      intro hnone
      have hlen := hgreetings y
      rw [hnone, List.length_nil, Nat.le_zero, List.length_eq_zero_iff] at hlen
      exact hy hlen
    have hnew := hi.new y hold
    refine ⟨hnew.unconnected, fun m hm => hnew.toWorker m ((hto y).subset hm), ?_⟩
    show (Function.update c.relay x r y).received = []
    rcases eq_or_ne y x with rfl | hne
    · rw [Function.update_self]
      exact hrec hnew
    · rw [Function.update_of_ne hne]
      exact hnew.received

/-- A worker that sends a RESULT answers the oldest JOB that it holds. -/
theorem heldIds_answered {s r : Relay D} {m : Message} (hr : Relay.Inv stod to_string lhFn r)
    (hreceived : r.received = s.received) (hsent : r.sent = s.sent ++ [m]) (hsub : m.subject = .result) :
    ∃ i a, m = ⟨[], .result, [i, a]⟩ ∧ heldIds s = i :: heldIds r := by
  have hresults : results r.sent = results s.sent ++ [m] := by
    rw [hsent, Relay.results_append, Relay.results_cons_of_result hsub]
    rfl
  have hlast : (results r.sent)[(results s.sent).length]? = some m := by
    rw [hresults, List.getElem?_append_right le_rfl, Nat.sub_self]
    rfl
  obtain ⟨job, hjob, id, jobType, sample, hnext, rfl⟩ := hr.answers hlast
  rw [hreceived] at hjob
  obtain ⟨hlt, rfl⟩ := List.getElem?_eq_some_iff.1 hjob
  refine ⟨id, _, rfl, ?_⟩
  rw [heldIds, heldIds, Relay.unanswered, Relay.unanswered, hresults, hreceived, List.length_append,
    List.drop_eq_getElem_cons hlt, List.filterMap_cons, Relay.nextJob_id hnext]
  rfl

/-- A worker that receives a JOB holds it. -/
theorem heldIds_received {s r : Relay D} {m : Message} (hs : Relay.Inv stod to_string lhFn s)
    (hreceived : r.received = s.received ++ [m]) (hsent : r.sent = s.sent) :
    heldIds r = heldIds s ++ m.data[1]?.toList := by
  rw [heldIds, heldIds, Relay.unanswered, Relay.unanswered, hsent, hreceived,
    List.drop_append_of_le_length hs.length_results, List.filterMap_append]
  cases hd : m.data[1]? with
  | none => simp [hd]
  | some i => simp [hd]

theorem heldIds_same {s r : Relay D} (hreceived : r.received = s.received)
    (hresults : results r.sent = results s.sent) : heldIds r = heldIds s := by
  rw [heldIds, heldIds, Relay.unanswered, Relay.unanswered, hresults, hreceived]

/-- **A worker takes a message of the delegator.** -/
theorem inv_take {m : Message} {rest : List Message} {r : Relay D}
    (hi : Inv stod to_string lhFn range c) (hm : c.toWorker x = m :: rest)
    (hr : (c.relay x).step stod to_string lhFn (.network m) = some r) :
    Inv stod to_string lhFn range
        (c.worked (Function.update c.toWorker x rest) x r (r.sent.drop (c.relay x).sent.length)) ∧
      r.sent = (c.relay x).sent := by
  have hrelay := Relay.inv_step (hi.relay x) hr
  -- in any case nothing is sent
  have hstep (hheld : heldIds r = heldIds (c.relay x) ++
        if m.subject = .job then m.data[1]?.toList else [])
      (hsent : r.sent = (c.relay x).sent) (hto : r.toWorker = (c.relay x).toWorker)
      (hrec : c.New x → r.received = []) :
      Inv stod to_string lhFn range
        (c.worked (Function.update c.toWorker x rest) x r (r.sent.drop (c.relay x).sent.length)) := by
    have hdrop : r.sent.drop (c.relay x).sent.length = [] := by rw [hsent, List.drop_length]
    rw [hdrop]
    refine hi.worked ?_ hrelay (by rw [hsent, List.append_nil]) (by rw [hto]; exact hi.minion x)
      (by simp) (by rw [hto, List.append_nil]; exact le_rfl) ?_ hrec
    · refine @Net.inv_step range _ _ (.take x) hi.net trivial ?_
      rw [worked_net, hheld, List.append_nil, Function.update_eq_self]
      have hnet : c.net.toWorker x = m :: rest := hm
      simp only [Net.step, hnet]
      rfl
    · intro y
      rcases eq_or_ne y x with rfl | hne
      · rw [Function.update_self, hm]
        exact List.suffix_cons m rest
      · rw [Function.update_of_ne hne]
  cases Relay.step_effect hr with
  | job hsub hreceived hsent hto =>
    refine ⟨hstep ?_ hsent hto ?_, hsent⟩
    · rw [if_pos hsub]
      exact heldIds_received (hi.relay x) hreceived hsent
    · -- a worker that was never connected is sent no JOB
      intro hnew
      exact absurd hsub (hnew.toWorker m (hm ▸ List.mem_cons_self))
  | other hsub hreceived hsent hto =>
    refine ⟨hstep ?_ hsent hto (fun hnew => hreceived.trans hnew.received), hsent⟩
    rw [if_neg hsub, List.append_nil]
    exact heldIds_same hreceived (by rw [hsent])

/-- **A worker, or its minion, takes a step of its own.** -/
theorem inv_work {k : Work} {r : Relay D} (hi : Inv stod to_string lhFn range c)
    (hr : (c.relay x).step stod to_string lhFn k.act = some r) :
    Inv stod to_string lhFn range
        (c.worked c.toWorker x r (r.sent.drop (c.relay x).sent.length)) ∧
      r.received = (c.relay x).received := by
  have hrelay := Relay.inv_step (hi.relay x) hr
  have hdrop {new : List Message} (hsent : r.sent = (c.relay x).sent ++ new) :
      r.sent.drop (c.relay x).sent.length = new := by rw [hsent, List.drop_left]
  have hto (y : Str) : c.toWorker y <:+ c.toWorker y := List.suffix_refl _
  have heff := Relay.step_effect hr
  have hreceived : r.received = (c.relay x).received := by
    cases k <;> cases heff <;> assumption
  have hrec (hnew : c.New x) : r.received = [] := hreceived.trans hnew.received
  refine ⟨?_, hreceived⟩
  cases k with
  | pulse =>
    cases heff with
    | heartbeat _ hsent hminion =>
      rw [hdrop hsent]
      refine hi.worked ?_ hrelay hsent (by rw [hminion]; exact hi.minion x) (by simp) ?_ hto hrec
      · refine @Net.inv_step range _ _ (.pulse x) hi.net trivial ?_
        have hheld : heldIds r = heldIds (c.relay x) := by
          refine heldIds_same hreceived ?_
          rw [hsent, Relay.results_append]
          exact List.append_nil _
        rw [worked_net, hheld, Function.update_eq_self x fun y => heldIds (c.relay y)]
        rfl
      · rw [hminion, greetings, ← List.append_assoc, Relay.hellos_append _ [_]]
        exact (List.append_nil _).symm ▸ le_rfl
  | fromMinion =>
    cases heff with
    | @result m hm hsub _ hsent =>
      rw [hdrop hsent]
      obtain ⟨i, a, rfl, hheld⟩ := heldIds_answered hrelay hreceived hsent hsub
      refine hi.worked ?_ hrelay hsent ?_ (by simp) ?_ hto hrec
      · refine @Net.inv_step range _ _ (.answer x i a) hi.net trivial ?_
        have hmem : i ∈ c.net.held x := by
          show i ∈ heldIds (c.relay x)
          rw [hheld]
          exact List.mem_cons_self
        have herase : (c.net.held x).erase i = heldIds r := by
          show (heldIds (c.relay x)).erase i = heldIds r
          rw [hheld, List.erase_cons_head]
        rw [Net.step, if_pos hmem, herase, worked_net]
        rfl
      · exact fun m' hm' => hi.minion x m' (hm ▸ List.mem_cons_of_mem _ hm')
      · rw [greetings, hm, List.cons_append, Relay.hellos_cons_of_ne (by simp), ← List.append_assoc,
          Relay.hellos_append _ [_]]
        exact (List.append_nil _).symm ▸ le_rfl
    | @hello m hm hsub _ hsent =>
      rw [hdrop hsent]
      -- the HELLO of the minion names the job types of the worker
      have hdata : m.data = [range x] := by
        rcases hi.minion x m (hm ▸ List.mem_cons_self) with rfl | ⟨i, a, rfl⟩
        · rfl
        · cases hsub
      refine hi.worked ?_ hrelay hsent ?_ (by simp [hdata]) ?_ hto hrec
      · refine @Net.inv_step range _ _ (.hello x) hi.net trivial ?_
        have hheld : heldIds r = heldIds (c.relay x) := by
          refine heldIds_same hreceived ?_
          rw [hsent, Relay.results_append]
          exact List.append_nil _
        rw [worked_net, hheld, Function.update_eq_self x fun y => heldIds (c.relay y), hdata]
        rfl
      · exact fun m' hm' => hi.minion x m' (hm ▸ List.mem_cons_of_mem _ hm')
      · rw [greetings, hm, List.cons_append, Relay.hellos_cons_of_hello hsub, ← List.append_assoc,
          Relay.hellos_append _ [_], List.length_append, List.length_cons]
        exact le_rfl
  | nextJob =>
    cases heff with
    | nextJob _ hsent hminion =>
      rw [hdrop (hsent.trans (List.append_nil _).symm)]
      refine hi.worked ?_ hrelay (hsent.trans (List.append_nil _).symm)
        (by rw [hminion]; exact hi.minion x) (by simp) ?_ hto hrec
      · rw [worked_net_same (heldIds_same hreceived (by rw [hsent]))]
        exact hi.net
      · rw [hminion, List.append_nil]
        exact le_rfl
  | submitResult =>
    cases heff with
    | @submitResult i a _ hsent hminion =>
      rw [hdrop (hsent.trans (List.append_nil _).symm)]
      refine hi.worked ?_ hrelay (hsent.trans (List.append_nil _).symm) ?_ (by simp) ?_ hto hrec
      · rw [worked_net_same (heldIds_same hreceived (by rw [hsent]))]
        exact hi.net
      · intro m hm
        rw [hminion] at hm
        rcases List.mem_append.1 hm with hm | hm
        · exact hi.minion x m hm
        · exact .inr ⟨i, a, List.mem_singleton.1 hm⟩
      · rw [hminion, List.append_nil, greetings, Relay.hellos_append, Relay.hellos_append,
          Relay.hellos_append]
        exact (List.append_nil (hellos (c.relay x).toWorker)).symm ▸ le_rfl

/-- **Every step keeps the invariant**, while no more than `2 ^ 32` jobs are created. -/
theorem inv_step {a : Act} (hi : Inv stod to_string lhFn range c)
    (h : c.step stod to_string lhFn a = some (c', out)) (hc : c'.created ≤ 2 ^ 32) :
    Inv stod to_string lhFn range c' := by
  cases step_cases h with
  | event hr hrun => exact inv_event hi hr hrun hc
  | take hm hr => exact (inv_take hi hm hr).1
  | work hr => exact (inv_work hi hr).1

end Cluster

end Stateline
