import Stateline.Comms.Relay
import Stateline.Lib.Run

/-!
# The relay of the worker

Jobs go through the worker in their order, one at a time, and the minion keeps the
id of a job in one slot until its result is sent.

* `Inv`: the jobs received are those handed over and those queued; all that were
  handed over are answered, or all but the last, which is in one place (`InFlight`).
  `inv_step`: every step keeps it.
* `relay_fifo`: **in every run the worker relays first in, first out, and each result
  carries the id and the likelihood of its own job.**
-/

namespace Stateline

open Lib

namespace Relay

variable {D : Type} {stod : Str → Option D} {to_string : D → Str} {lhFn : ℕ → List D → D}

/-- The RESULTs among messages. -/
def results (ms : List Message) : List Message := ms.filter fun m => m.subject = .result

variable (stod to_string lhFn) in
/-- The message carries the id of the job and the likelihood of its type and sample. -/
def Answers (job result : Message) : Prop :=
  ∃ id jobType sample, Relay.nextJob stod job = .ok (id, jobType, sample) ∧
    result = Relay.submitResult to_string id (lhFn jobType sample)

variable (stod to_string lhFn) in
/-- Where a job that was handed over is until its RESULT is processed: on the way to the minion, at
the minion, or on the way back as the only RESULT there. -/
inductive InFlight (job : Message) : List Message → Minion D → List Message → Prop
  | toMinion {minion : Minion D} : minion.job = none → InFlight job [job] minion []
  | atMinion {minion : Minion D} {jobType : ℕ} {sample : List D} :
      Relay.nextJob stod job = .ok (minion.currentJob, jobType, sample) →
        minion.job = some (jobType, sample) →
      InFlight job [] minion []
  | toWorker {minion : Minion D} {result : Message} :
    Answers stod to_string lhFn job result → minion.job = none →
      InFlight job [] minion [result]

variable (stod to_string lhFn) in
/-- Whether the worker waits for a job or for a result, and what is answered and in flight then. -/
inductive Phase (s : Relay D) : Prop
  | waiting : s.worker = ⟨true, []⟩ →
    List.Forall₂ (Answers stod to_string lhFn) s.handed (results s.sent) →
      s.toMinion = [] → s.minion.job = none → results s.toWorker = [] → Phase s
  | busy {done : List Message} {job : Message} :
    s.worker.minionWaiting = false → s.handed = done ++ [job] →
      List.Forall₂ (Answers stod to_string lhFn) done (results s.sent) →
      InFlight stod to_string lhFn job s.toMinion s.minion (results s.toWorker) → Phase s

variable (stod to_string lhFn) in
/-- **The invariant.** -/
structure Inv (s : Relay D) : Prop where
  conserve : s.received = s.handed ++ s.worker.queue
  phase : Phase stod to_string lhFn s

variable {s s' : Relay D} {m : Message}

theorem Inv.init (jobstring : Str) : Inv stod to_string lhFn (init jobstring) :=
  ⟨rfl, .waiting rfl .nil rfl rfl rfl⟩

@[simp] theorem sends_nil (sock : Sock) : sends sock [] = [] := rfl

@[simp] theorem sends_cons (sock : Sock) (x : Send) (out : List Send) :
    sends sock (x :: out) = if x.sock = sock then x.msg :: sends sock out else sends sock out := by
  unfold sends
  by_cases h : x.sock = sock <;> simp [h]

theorem results_cons_of_result {ms : List Message} (h : m.subject = .result) :
    results (m :: ms) = m :: results ms := by
  unfold results
  rw [List.filter_cons_of_pos (by simpa using h)]

theorem results_cons_of_ne {ms : List Message} (h : m.subject ≠ .result) :
    results (m :: ms) = results ms := by
  unfold results
  rw [List.filter_cons_of_neg (by simpa using h)]

/-! ## The worker -/

/-- A JOB arrives: it goes to the minion that waits, or to the queue. -/
theorem inv_onJobFromNetwork (hi : Inv stod to_string lhFn s)
    (hs : { s with received := s.received ++ [m] }.afterWorker
      (some (s.worker.onJobFromNetwork m)) = some s') :
    Inv stod to_string lhFn s' := by
  obtain ⟨hcon, hphase⟩ := hi
  simp only [afterWorker, Option.some.injEq] at hs
  subst hs
  cases hphase with
  | waiting hw hdone hto hjob hres =>
    rw [hw, List.append_nil] at hcon
    simp only [Worker.onJobFromNetwork, hw, if_true, sends_cons, sends_nil, reduceCtorEq,
      if_false, List.append_nil, hto, List.nil_append]
    refine ⟨by rw [hcon, List.append_nil], .busy rfl rfl hdone ?_⟩
    rw [hres]
    exact .toMinion hjob
  | busy hw hhanded hdone hflight =>
    simp only [Worker.onJobFromNetwork, hw, Bool.false_eq_true, if_false, sends_nil, List.append_nil]
    exact ⟨by rw [hcon, List.append_assoc], .busy rfl hhanded hdone hflight⟩

/-- A RESULT of the minion arrives: it answers the job in flight, and the next one is handed over. -/
theorem inv_onResultFromMinion {rest : List Message} (hi : Inv stod to_string lhFn s)
    (hto : s.toWorker = m :: rest) (hsub : m.subject = .result)
    (hs : { s with toWorker := rest }.afterWorker (some (s.worker.onResultFromMinion m)) = some s') :
    Inv stod to_string lhFn s' := by
  obtain ⟨hcon, hphase⟩ := hi
  have hres : results s.toWorker = m :: results rest := by rw [hto, results_cons_of_result hsub]
  simp only [afterWorker, Option.some.injEq] at hs
  subst hs
  cases hphase with
  | waiting hw hdone _ hjob hnone =>
    -- no RESULT is on its way while the worker waits for a job
    rw [hres] at hnone
    cases hnone
  | @busy done job hw hhanded hdone hflight =>
    rw [hres] at hflight
    generalize s.toMinion = toMinion at hflight
    generalize hrest : results rest = more at hflight
    cases hflight with
    | toWorker hans hjob =>
      -- the RESULT is that of the last job handed over
      have hdone' : List.Forall₂ (Answers stod to_string lhFn) s.handed (results (s.sent ++ [m])) := by
        unfold results
        rw [hhanded, List.filter_append, List.filter_cons_of_pos (by simpa using hsub)]
        exact List.rel_append hdone (.cons hans .nil)
      cases hq : s.worker.queue with
      | nil =>
        rw [hq] at hcon
        simp only [Worker.onResultFromMinion, hq, sends_cons, sends_nil, reduceCtorEq, if_false,
          if_true, List.append_nil]
        exact ⟨hcon, .waiting rfl hdone' rfl hjob hrest⟩
      | cons next queue =>
        rw [hq] at hcon
        simp only [Worker.onResultFromMinion, hq, sends_cons, sends_nil, reduceCtorEq,
          if_false, if_true, List.nil_append]
        refine ⟨by rw [hcon, List.append_assoc]; rfl, .busy hw rfl hdone' ?_⟩
        rw [hrest]
        exact .toMinion hjob

/-- A message that is forwarded: neither a JOB nor a RESULT. -/
theorem inv_forward {toWorker : List Message} {out : List Send} (hi : Inv stod to_string lhFn s)
    (hres : results toWorker = results s.toWorker)
    (hout : ∀ x ∈ out, x.sock ≠ .minion ∧ x.msg.subject ≠ .result) :
    Inv stod to_string lhFn { s with
      toWorker
      toMinion := s.toMinion ++ sends .minion out
      handed := s.handed ++ sends .minion out
      sent := s.sent ++ sends .network out } := by
  have hminion : sends .minion out = [] := by
    unfold sends
    rw [List.filter_eq_nil_iff.2 fun x hx => by simpa using (hout x hx).1, List.map_nil]
  have hsent : results (s.sent ++ sends .network out) = results s.sent := by
    unfold results
    rw [List.filter_append, List.append_right_eq_self, List.filter_eq_nil_iff]
    intro x hx
    obtain ⟨y, hy, rfl⟩ := List.mem_map.1 hx
    simpa using (hout y (List.mem_filter.1 hy).1).2
  obtain ⟨hcon, hphase⟩ := hi
  rw [hminion, List.append_nil, List.append_nil]
  refine ⟨hcon, ?_⟩
  cases hphase with
  | waiting hw hdone hto hjob hnone =>
    exact .waiting hw (by rw [hsent]; exact hdone) hto hjob (hres.trans hnone)
  | busy hw hhanded hdone hflight =>
    exact .busy hw hhanded (by rw [hsent]; exact hdone) (by rw [hres]; exact hflight)

/-! ## The minion -/

/-- The minion takes its job. -/
theorem inv_nextJob {rest : List Message} {currentJob : Str} {job : ℕ × List D}
    (hi : Inv stod to_string lhFn s) (hto : s.toMinion = m :: rest)
    (hm : Relay.nextJob stod m = .ok (currentJob, job)) :
    Inv stod to_string lhFn { s with minion := ⟨currentJob, some job⟩, toMinion := rest } := by
  obtain ⟨hcon, hphase⟩ := hi
  refine ⟨hcon, ?_⟩
  cases hphase with
  | waiting hw hdone hnil hjob hnone =>
    rw [hto] at hnil
    cases hnil
  | @busy done j hw hhanded hdone hflight =>
    refine .busy hw hhanded hdone ?_
    rw [hto] at hflight
    generalize results s.toWorker = back at hflight
    cases hflight with
    -- a job on the way to the minion is the only one there
    | toMinion hjob => exact .atMinion hm rfl

/-- The minion sends its result. -/
theorem inv_submitResult {jobType : ℕ} {sample : List D} (hi : Inv stod to_string lhFn s)
    (hjob : s.minion.job = some (jobType, sample)) :
    Inv stod to_string lhFn { s with
      minion := { s.minion with job := none }
      toWorker := s.toWorker ++
        [Relay.submitResult to_string s.minion.currentJob (lhFn jobType sample)] } := by
  obtain ⟨hcon, hphase⟩ := hi
  refine ⟨hcon, ?_⟩
  cases hphase with
  | waiting hw hdone hnil hnojob hnone =>
    rw [hjob] at hnojob
    cases hnojob
  | @busy done j hw hhanded hdone hflight =>
    refine .busy hw hhanded hdone ?_
    unfold results at hflight ⊢
    rw [List.filter_append]
    generalize s.toWorker.filter (fun m => m.subject = .result) = back at hflight ⊢
    generalize s.toMinion = toMinion at hflight ⊢
    cases hflight with
    | toMinion hnojob =>
      rw [hjob] at hnojob
      cases hnojob
    | toWorker hans hnojob =>
      rw [hjob] at hnojob
      cases hnojob
    | atMinion hm hj =>
      rw [hjob] at hj
      injection hj with hj
      obtain ⟨rfl, rfl⟩ := Prod.mk.inj hj
      -- the minion still has the id of this job
      exact .toWorker ⟨_, _, _, hm, rfl⟩ rfl

/-! ## Runs -/

/-- **Every step keeps the invariant.** -/
theorem inv_step {a : Act} (hi : Inv stod to_string lhFn s)
    (hs : s.step stod to_string lhFn a = some s') :
    Inv stod to_string lhFn s' := by
  cases a with
  | network m =>
    simp only [step] at hs
    cases hsub : m.subject with
    | job =>
      simp only [Worker.handle, hsub, if_true] at hs
      exact inv_onJobFromNetwork hi hs
    | hello | heartbeat | goodbye =>
      simp only [Worker.handle, hsub, reduceCtorEq, if_false, afterWorker, Option.some.injEq] at hs
      subst hs
      refine inv_forward hi rfl ?_
      simp [Worker.forwardToHB, hsub]
    | request | result =>
      simp only [Worker.handle, hsub, afterWorker] at hs
      cases hs
  | heartbeat m =>
    simp only [step] at hs
    cases hsub : m.subject with
    | heartbeat =>
      simp only [Worker.handle, hsub, afterWorker, Option.some.injEq] at hs
      subst hs
      refine inv_forward hi rfl ?_
      simp [Worker.forwardToNetwork, hsub]
    | hello | goodbye | request | result | job =>
      simp only [Worker.handle, hsub, afterWorker] at hs
      cases hs
  | fromMinion =>
    simp only [step] at hs
    split at hs
    · cases hs
    · rename_i m rest hto
      cases hsub : m.subject with
      | result =>
        simp only [Worker.handle, hsub] at hs
        exact inv_onResultFromMinion hi hto hsub hs
      | hello =>
        simp only [Worker.handle, hsub, afterWorker, Option.some.injEq] at hs
        subst hs
        refine inv_forward hi ?_ ?_
        · rw [hto, results_cons_of_ne (by rw [hsub]; decide)]
        · simp [Worker.forwardToNetwork, hsub]
      | heartbeat | goodbye | request | job =>
        simp only [Worker.handle, hsub, afterWorker] at hs
        cases hs
  | nextJob =>
    simp only [step] at hs
    split at hs
    · rename_i m rest hjob hto
      split at hs
      · rename_i currentJob job hm
        injection hs with hs
        subst hs
        exact inv_nextJob hi hto hm
      · cases hs
    · cases hs
  | submitResult =>
    simp only [step] at hs
    split at hs
    · rename_i jobType sample hjob
      injection hs with hs
      subst hs
      exact inv_submitResult hi hjob
    · cases hs

/-- **The relay is first in, first out, and one job at a time**: in every run the jobs handed to the
minion are a prefix of those received; at most one of them is not answered by a RESULT that the
worker has processed; the worker waits exactly when there is none, and then the queue is empty and
all are handed over; and the RESULTs sent carry the ids and likelihoods of the jobs received, in
their order. -/
theorem relay_fifo {jobstring : Str} {as : List Act}
    (h : Reach (step stod to_string lhFn) (fun _ _ => True) (init jobstring) as s) :
    s.handed <+: s.received ∧
      ((results s.sent).length ≤ s.handed.length ∧ s.handed.length ≤ (results s.sent).length + 1) ∧
      (s.worker.minionWaiting = true ↔ s.handed.length = (results s.sent).length) ∧
      (s.worker.minionWaiting = true → s.worker.queue = [] ∧ s.handed = s.received) ∧
      ∀ (k : ℕ) (r : Message), (results s.sent)[k]? = some r →
        ∃ job, s.received[k]? = some job ∧ Answers stod to_string lhFn job r := by
  have hi : Inv stod to_string lhFn s :=
    h.invariant (P := fun _ s => Inv stod to_string lhFn s) (.init _)
    fun _ _ _ _ _ ih _ hs => inv_step ih hs
  obtain ⟨hcon, hphase⟩ := hi
  -- the jobs that are answered, in the order of their results
  have hanswers :
      ∀ {done : List Message}, List.Forall₂ (Answers stod to_string lhFn) done (results s.sent) →
      done <+: s.received → ∀ (k : ℕ) (r : Message), (results s.sent)[k]? = some r →
        ∃ job, s.received[k]? = some job ∧ Answers stod to_string lhFn job r := by
    intro done hdone hpre k r hr
    obtain ⟨hk, rfl⟩ := List.getElem?_eq_some_iff.1 hr
    have hk' : k < done.length := by rw [hdone.length_eq]; exact hk
    refine ⟨done[k], ?_, hdone.get hk' hk⟩
    rw [List.prefix_iff_getElem?.1 hpre k hk']
  have hhand : s.handed <+: s.received := ⟨s.worker.queue, hcon.symm⟩
  cases hphase with
  | waiting hw hdone hto hjob hnone =>
    have hlen := hdone.length_eq
    -- the queue of a worker that waits is empty
    have hall : s.handed = s.received := by
      rw [hcon, hw, List.append_nil]
    exact ⟨hhand, ⟨hlen.ge, by omega⟩, by simp [hw, hlen], fun _ => ⟨by rw [hw], hall⟩,
      hanswers hdone hhand⟩
  | @busy done j hw hhanded hdone hflight =>
    have hlen : s.handed.length = (results s.sent).length + 1 := by
      rw [hhanded, List.length_append, hdone.length_eq]
      rfl
    refine ⟨hhand, ⟨by omega, hlen.le⟩, ?_, ?_, hanswers hdone ?_⟩
    · rw [hw]
      simp [hlen]
    · rw [hw]
      exact fun h => by cases h
    · exact (hhanded ▸ List.prefix_append done [j]).trans hhand

/-- The likelihood is the sum of the sample. -/
def sumStep : Relay ℚ → Act → Option (Relay ℚ) :=
  step Stateline.stod toDecimal fun _ sample => sample.sum

/-- A JOB of type 0. -/
def jobOf (id sample : Str) : Message := ⟨[], .job, [['0'], id, sample]⟩

set_option maxRecDepth 8000 in
/-- Two jobs arrive, and the first one is answered. -/
theorem relay_fifo_two_jobs :
    ∃ s, Reach sumStep (fun _ _ => True) (init []) [.fromMinion, .network (jobOf ['7'] ['2']),
      .network (jobOf ['8'] ['3']), .nextJob, .submitResult, .fromMinion] s ∧
    (s.received = [jobOf ['7'] ['2'], jobOf ['8'] ['3']] ∧ (results s.sent).length = 1) ∧
    s.handed <+: s.received ∧ ∀ (k : ℕ) (r : Message), (results s.sent)[k]? = some r →
      ∃ job, s.received[k]? = some job ∧
        Answers Stateline.stod toDecimal (fun _ sample => sample.sum) job r := by
  have h : Reach sumStep (fun _ _ => True) (init []) [] _ := .start
  have h := h.next' (e := .fromMinion) trivial (by decide)
  have h := h.next' (e := .network (jobOf ['7'] ['2'])) trivial (by decide)
  have h := h.next' (e := .network (jobOf ['8'] ['3'])) trivial (by decide)
  have h := h.next' (e := .nextJob) trivial (by decide)
  have h := h.next' (e := .submitResult) trivial (by decide)
  have h := h.next' (e := .fromMinion) trivial (by decide)
  have hfifo := relay_fifo h
  exact ⟨_, h, ⟨rfl, rfl⟩, hfifo.1, hfifo.2.2.2.2⟩

end Relay

end Stateline
