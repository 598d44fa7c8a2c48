import Stateline.Proof.Register
import Stateline.Lib.Window

/-!
# The estimates of job times

The constructor of `CircularBuffer` fills the buffer with zeros and `size` is the capacity, so
that `timeForJob` averages over ten durations, measured or not.

* `Clocked`: the delegator with the durations that it measured for each connected worker.
* `timed_of_reach`: in every run the buffers are those filled with these durations.
* `estimates_iff`: **when a buffer and an estimate are right.**
-/

namespace Stateline

open Std Lib

namespace CircularBuffer

variable {T : Type} {vs : List T}

@[simp] theorem size_foldl_pushBack (b : CircularBuffer T) (vs : List T) :
    (vs.foldl pushBack b).size = b.size := by
  induction vs generalizing b with
  | nil => rfl
  | cons v vs ih => exact ih (b.pushBack v)

theorem buffer_foldl_pushBack (b : CircularBuffer T) (vs : List T) :
    (vs.foldl pushBack b).buffer = vs.foldl (push b.size) b.buffer := by
  induction vs generalizing b with
  | nil => rfl
  | cons v vs ih => exact ih (b.pushBack v)

/-- **What a buffer holds** after a history: the default values come before it. -/
theorem buffer_eq [Inhabited T] (c : ℕ) (vs : List T) :
    (vs.foldl pushBack (ofSize c)).buffer = (List.replicate c default ++ vs).rtake c := by
  have hfull : (List.replicate c (default : T)).rtake c = List.replicate c default :=
    rtake_of_length_le (List.length_replicate ..).le
  rw [buffer_foldl_pushBack, ← foldl_push_rtake, hfull]
  rfl

/-- A buffer is right once it is full. -/
theorem buffer_iff [Inhabited T] (c : ℕ) (vs : List T) :
    (vs.foldl pushBack (ofSize c)).buffer = vs.rtake (min vs.length c) ∧
      (vs.foldl pushBack (ofSize c)).size = min vs.length c ↔ c ≤ vs.length := by
  rw [size_foldl_pushBack]
  constructor
  · rintro ⟨-, hsize⟩
    have hcap : c = min vs.length c := hsize
    omega
  · intro hc
    rw [min_eq_right hc, buffer_eq, rtake_append_of_le hc]
    exact ⟨rfl, rfl⟩

end CircularBuffer

open Delegator

/-! ## What was measured -/

/-- A delegator and the durations measured for each worker, since it connected, and job type. -/
structure Clocked where
  del : Delegator
  spent : Str → ℕ → List ℕ

namespace Clocked

/-- A new delegator. -/
def init (nJobTypes workerCount : ℕ) : Clocked := ⟨.init nJobTypes workerCount, fun _ _ => []⟩

/-- What an event adds to the durations: a RESULT of a connected worker is timed. -/
def record (c : Clocked) : Event → Str → ℕ → List ℕ
  | .recv .network m now _ =>
    match m.subject, m.address.head? with
    | .hello, some x => if x ∈ c.del.workers then c.spent else Function.update c.spent x fun _ => []
    | .result, some x =>
      match c.del.workers[x]?, m.data.head? with
      | some w, some jobID =>
        Function.update c.spent x (Function.update (c.spent x) (w.jobFor jobID).type
          (c.spent x (w.jobFor jobID).type ++ [w.timeSpent jobID now]))
      | _, _ => c.spent
    | _, _ => c.spent
  | _ => c.spent

/-- One event. There is no next state when the handler fails. -/
def step (c : Clocked) (e : Event) : Option Clocked := (c.del.next e).map fun d => ⟨d, c.record e⟩

variable {c c' : Clocked} {e : Event} {es : List Event} {nJobTypes workerCount : ℕ}

theorem step_eq_some (h : c.step e = some c') : c.del.next e = some c'.del ∧ c'.spent = c.record e := by
  obtain ⟨d, hd, rfl⟩ := Option.map_eq_some_iff.1 h
  exact ⟨hd, rfl⟩

/-- The run of the delegator alone. -/
theorem del_of_reach (h : Reach step (fun _ _ => True) (init nJobTypes workerCount) es c) :
    Reach Delegator.next (fun _ _ => True) (.init nJobTypes workerCount) es c.del := by
  induction h with
  | start => exact .start
  | next _ _ hs ih => exact .next ih trivial (step_eq_some hs).1

/-- Other events add nothing. -/
theorem record_quiescent (h : c.del.Quiescent e) : c.record e = c.spent := by
  unfold record
  split
  · rename_i m now fails
    split
    · rename_i x hsub hx
      exact if_pos ((h x hx).1 hsub)
    · rename_i x hsub hx
      have hnone : c.del.workers[x]? = none := by simpa using (h x hx).2 hsub
      rw [hnone]
    · rfl
  · rfl

/-- **The invariant**: the buffers of a worker are those filled with its durations. -/
def Timed (c : Clocked) : Prop := ∀ (x : Str) (w : Worker), c.del.workers[x]? = some w →
  ∀ t, w.jobTypesRange.1 ≤ t → t < w.jobTypesRange.2 →
    w.times[t]? = some ((c.spent x t).foldl CircularBuffer.pushBack (.ofSize 10))

/-- One worker is entered, with its durations. -/
theorem Timed.insert (ht : Timed c) {x : Str} {w : Worker} {durations : ℕ → List ℕ}
    (hworkers : c'.del.workers = c.del.workers.insert x w)
    (hspent : c'.spent = Function.update c.spent x durations)
    (hw : ∀ t, w.jobTypesRange.1 ≤ t → t < w.jobTypesRange.2 →
      w.times[t]? = some ((durations t).foldl CircularBuffer.pushBack (.ofSize 10))) : Timed c' := by
  intro y v hv t hlo hhi
  rw [hworkers, getElem?_insert_eq] at hv
  rw [hspent]
  split at hv
  · rename_i hxy
    cases hv
    subst hxy
    rw [Function.update_self]
    exact hw t hlo hhi
  · rename_i hxy
    rw [Function.update_of_ne (Ne.symm hxy)]
    exact ht y v hv t hlo hhi

/-- **A step** fills the buffers with what it adds. -/
theorem Timed.step (ht : Timed c) (hd : Keyed c.del) (h : c.step e = some c') : Timed c' := by
  obtain ⟨hs, hspent⟩ := step_eq_some h
  obtain ⟨out, hrun⟩ := next_eq_some hs
  have hturn := handle_turnover hd hrun
  generalize hd' : c'.del = d' at hturn
  cases hturn with
  | @connects m now fails x frame w hsub hx hmem hw =>
    have hnew : c.record (.recv .network m now fails) = Function.update c.spent x fun _ => [] := by
      simp only [record, hsub, hx, if_neg hmem]
    refine ht.insert (by rw [hd']) (hspent.trans hnew) ?_
    intro t hlo hhi
    obtain ⟨b, hb⟩ := mem_iff_getElem?.1 ((hw.times t).2 ⟨hlo, hhi⟩)
    rw [hb, hw.untimed t b hb]
    rfl
  | @answers m now fails x jobID w w' b requests hsub hx hw hi haddr hrange hb htimes =>
    have hnew : c.record (.recv .network m now fails) = Function.update c.spent x
        (Function.update (c.spent x) (w.jobFor jobID).type
          (c.spent x (w.jobFor jobID).type ++ [w.timeSpent jobID now])) := by
      simp only [record, hsub, hx, hw, hi]
    refine ht.insert (by rw [hd']) (hspent.trans hnew) ?_
    intro t hlo hhi
    rw [hrange] at hlo hhi
    rw [htimes, getElem?_insert_eq]
    split
    · -- the duration goes to the end of the buffer of its type
      rename_i htype
      subst htype
      have hold := ht x w hw _ hlo hhi
      rw [hb] at hold
      rw [Function.update_self, List.foldl_append, Option.some_inj.1 hold]
      rfl
    · rename_i htype
      rw [Function.update_of_ne (Ne.symm htype)]
      exact ht x w hw t hlo hhi
  | leaves hq _ hworkers _ =>
    intro y v hv t hlo hhi
    rw [hspent, record_quiescent hq]
    rw [hd', hworkers, getElem?_erase_eq] at hv
    split at hv
    · cases hv
    · exact ht y v hv t hlo hhi
  | same hq hsame =>
    intro y v hv t hlo hhi
    rw [hd'] at hv
    obtain ⟨w, hw, hidle⟩ := hsame.find hv
    have hrange : w.idle.jobTypesRange = v.idle.jobTypesRange := by rw [hidle]
    have htimes : w.idle.times = v.idle.times := by rw [hidle]
    rw [hspent, record_quiescent hq]
    show v.idle.times[t]? = _
    rw [← htimes]
    refine ht y w hw t ?_ ?_
    · exact hrange ▸ hlo
    · exact hrange ▸ hhi

/-- **The buffers in every run.** -/
theorem timed_of_reach (h : Reach step (fun _ _ => True) (init nJobTypes workerCount) es c) :
    Timed c := by
  refine h.invariant (P := fun _ c => Timed c) ?_ ?_
  · intro x w hw
    simp [init, Delegator.init] at hw
  · intro es c e c' hr ht _ hs
    exact ht.step (keyed_of_reach (del_of_reach hr)) hs

end Clocked

/-! ## The estimate -/

/-- What `timeForJob` should be after some durations: the mean of the last ten, rounded down. -/
def meanTime (durations : List ℕ) : ℕ :=
  if durations = [] then 5 else (durations.rtake 10).sum / min durations.length 10

/-- **What `timeForJob` is** after some durations: a tenth of the sum of the last ten. -/
theorem timeForJob_tenth {w : Worker} {t : ℕ} {durations : List ℕ}
    (hb : w.times[t]? = some (durations.foldl CircularBuffer.pushBack (.ofSize 10)))
    (hsum : (durations.rtake 10).sum < 2 ^ 32) :
    timeForJob w t = .ok ((durations.rtake 10).sum / 10) := by
  unfold timeForJob
  simp only [hb, CircularBuffer.size_foldl_pushBack, CircularBuffer.buffer_eq]
  rw [← Nat.zero_mod (2 ^ 32), foldl_add_mod, zero_add]
  have hzeros :
      ((List.replicate 10 (default : ℕ) ++ durations).rtake 10).sum = (durations.rtake 10).sum :=
    sum_rtake_zeros 10 10 durations
  rw [hzeros, Nat.mod_eq_of_lt hsum]
  rfl

/-- A tenth of the sum is the mean for ten durations or more, and otherwise by accident. -/
theorem tenth_eq_meanTime_iff (durations : List ℕ) :
    (durations.rtake 10).sum / 10 = meanTime durations ↔ 10 ≤ durations.length ∨
      durations ≠ [] ∧ durations.sum / 10 = durations.sum / durations.length := by
  unfold meanTime
  rcases le_or_gt 10 durations.length with h | h
  · rw [if_neg (List.ne_nil_of_length_pos (by omega)), min_eq_right h]
    exact iff_of_true rfl (.inl h)
  · rw [or_iff_right (by omega), rtake_of_length_le h.le, min_eq_left h.le]
    by_cases hnil : durations = []
    · subst hnil
      simp
    · rw [if_neg hnil, and_iff_right hnil]

/-- **When a buffer and an estimate are right**: a buffer from its capacity on, an estimate from ten
durations on, and before that only where the tenth of their sum is their mean rounded down. -/
theorem estimates_iff {T : Type} [Inhabited T] (capacity : ℕ) (vs : List T)
    {nJobTypes workerCount : ℕ} {es : List Event} {c : Clocked}
    (h : Reach Clocked.step (fun _ _ => True) (.init nJobTypes workerCount) es c) {x : Str} {w : Worker}
    (hw : c.del.workers[x]? = some w) {t : ℕ} (hlo : w.jobTypesRange.1 ≤ t)
    (hhi : t < w.jobTypesRange.2) (hsum : ((c.spent x t).rtake 10).sum < 2 ^ 32) :
    let b := vs.foldl CircularBuffer.pushBack (.ofSize capacity)
    let durations := c.spent x t
    ((b.buffer = vs.rtake (min vs.length capacity) ∧ b.size = min vs.length capacity) ↔
      capacity ≤ vs.length) ∧
    (timeForJob w t = .ok (meanTime durations) ↔ 10 ≤ durations.length ∨
      durations ≠ [] ∧ durations.sum / 10 = durations.sum / durations.length) := by
  intro b durations
  refine ⟨CircularBuffer.buffer_iff capacity vs, ?_⟩
  rw [timeForJob_tenth (Clocked.timed_of_reach h x w hw t hlo hhi) hsum, Except.ok.injEq]
  exact tenth_eq_meanTime_iff durations

/-- A worker for all job types connects and takes a job, whose result comes after 100 microseconds. -/
def oneJob : List Event :=
  [.recv .network ⟨[['w']], .hello, [[]]⟩ 0 false,
    .recv .requester ⟨[['r']], .request, [['0'], []]⟩ 0 false, .poll (fun _ => 0) fun _ => false,
    .recv .network ⟨[['w']], .result, [['0'], ['1']]⟩ 100000 false]

set_option maxRecDepth 8000 in
/-- After one result the estimate is not the duration of its job. -/
theorem estimates_iff_oneJob : ∃ c w, Reach Clocked.step (fun _ _ => True) (.init 1 0) oneJob c ∧
    c.del.workers[(['w'] : Str)]? = some w ∧ c.spent ['w'] 0 = [100] ∧
      timeForJob w 0 ≠ .ok (meanTime (c.spent ['w'] 0)) := by
  have h : Reach Clocked.step (fun _ _ => True) (.init 1 0) [] _ := .start
  have h := h.next' (e := .recv .network ⟨[['w']], .hello, [[]]⟩ 0 false) trivial (by decide)
  have h := h.next'
    (e := .recv .requester ⟨[['r']], .request, [['0'], []]⟩ 0 false) trivial (by decide)
  have h := h.next' (e := .poll (fun _ => 0) fun _ => false) trivial (by decide)
  have h := h.next' (e := .recv .network ⟨[['w']], .result, [['0'], ['1']]⟩ 100000 false) trivial
    (by decide)
  refine ⟨_, Option.get _ ?hsome, h, (Option.some_get ?hsome).symm, by decide, ?_⟩
  case hsome => decide
  intro heq
  exact absurd ((estimates_iff 10 [100] h (Option.some_get _).symm (t := 0) (by decide)
    (by decide) (by decide)).2.1 heq) (by decide)

set_option maxRecDepth 8000 in
/-- **Zeros count as results**: the estimate is 0 before the first result, and 10 after one job of
100 microseconds; a new buffer has the size 10. -/
theorem estimates_low : ∃ c c' : Clocked,
    Reach Clocked.step (fun _ _ => True) (.init 1 0) (oneJob.take 1) c ∧ c.spent ['w'] 0 = [] ∧
    (c.del.workers[(['w'] : Str)]?).map (timeForJob · 0) = some (.ok 0) ∧ meanTime [] = 5 ∧
    Reach Clocked.step (fun _ _ => True) (.init 1 0) oneJob c' ∧ c'.spent ['w'] 0 = [100] ∧
    (c'.del.workers[(['w'] : Str)]?).map (timeForJob · 0) = some (.ok 10) ∧ meanTime [100] = 100 ∧
    (CircularBuffer.ofSize 10 : CircularBuffer ℕ).size = 10 := by
  have h : Reach Clocked.step (fun _ _ => True) (.init 1 0) [] _ := .start
  have h := h.next' (e := .recv .network ⟨[['w']], .hello, [[]]⟩ 0 false) trivial (by decide)
  have h' := h.next'
    (e := .recv .requester ⟨[['r']], .request, [['0'], []]⟩ 0 false) trivial (by decide)
  have h' := h'.next' (e := .poll (fun _ => 0) fun _ => false) trivial (by decide)
  have h' := h'.next' (e := .recv .network ⟨[['w']], .result, [['0'], ['1']]⟩ 100000 false) trivial
    (by decide)
  exact ⟨_, _, h, by decide, by decide, rfl, h', by decide, by decide, by decide, rfl⟩

end Stateline
