import Stateline.Proof.Handlers
import Stateline.Lib.Least

/-!
# The best worker

`bestWorker` compares estimates in microseconds that are summed up as `uint`s, and
starts its search from the largest of them.

* `estimate_eq`: an estimate is the expected time with all its sums modulo `2 ^ 32`.
* `bestWorker_eq`: the search for the first least estimate.
* `picks_best_iff`: **the worker found is a best one** when no sum is too large for a `uint`,
  and in general if and only if the first with the least estimate is one.
-/

namespace Stateline

open Std Lib

namespace Delegator

/-! ## Expected times -/

/-- The buffers of the worker are full, and there is one for each job type of its range and of
its jobs in progress. -/
structure Worker.Timed (w : Worker) : Prop where
  full : All (fun _ b => b.buffer.length = b.size ∧ 0 < b.size) w.times
  range : ∀ t, w.jobTypesRange.1 ≤ t → t < w.jobTypesRange.2 → t ∈ w.times
  progress : ∀ j ∈ vals w.workInProgress, j.type ∈ w.times

/-- The durations in the buffer of a job type. -/
def Worker.durations (w : Worker) (t : ℕ) : List ℕ :=
  match w.times[t]? with
  | some b => b.buffer
  | none => []

/-- The average of the buffered durations of a job type, in unbounded integers. -/
def averageTime (w : Worker) (t : ℕ) : ℕ := (w.durations t).sum / (w.durations t).length

/-- **The expected completion time** of the jobs in progress and one more, in unbounded integers. -/
def expectedTime (w : Worker) (t : ℕ) : ℕ :=
  ((vals w.workInProgress).map fun j => averageTime w j.type).sum + averageTime w t

/-- What `usTillDone` returns. -/
def estimate (w : Worker) (t : ℕ) : ℕ := (usTillDone w t).toOption.getD 0

variable {w : Worker} {t maxJobs : ℕ} {d : Delegator}

instance : Decidable (w.Eligible t maxJobs) := inferInstanceAs (Decidable (_ ∧ _ ∧ _))

theorem timeForJob_eq (hw : w.Timed) (ht : t ∈ w.times) :
    timeForJob w t = .ok ((w.durations t).sum % 2 ^ 32 / (w.durations t).length) := by
  obtain ⟨b, hb⟩ := mem_iff_getElem?.1 ht
  obtain ⟨hlen, hpos⟩ := hw.full t b hb
  have hfold := foldl_add_mod b.buffer (2 ^ 32) 0
  rw [Nat.zero_mod, Nat.zero_add] at hfold
  unfold timeForJob Worker.durations
  rw [hb]
  simp only [hfold, if_pos hpos, hlen]

/-- **An estimate** is the expected time, with every sum modulo `2 ^ 32`. -/
theorem usTillDone_eq (hw : w.Timed) (ht : t ∈ w.times) :
    usTillDone w t = .ok ((((vals w.workInProgress).map fun j =>
      (w.durations j.type).sum % 2 ^ 32 / (w.durations j.type).length).sum +
        (w.durations t).sum % 2 ^ 32 / (w.durations t).length) % 2 ^ 32) := by
  have hfold : ∀ (js : List Job) (acc : ℕ), (∀ j ∈ js, j.type ∈ w.times) →
      js.foldlM (fun t i => do return (t + (← timeForJob w i.type)) % 2 ^ 32) (acc % 2 ^ 32) =
        (.ok ((acc + (js.map fun j =>
          (w.durations j.type).sum % 2 ^ 32 / (w.durations j.type).length).sum) % 2 ^ 32) :
          Except Fault ℕ) := by
    intro js
    induction js with
    | nil =>
      intro acc _
      simp [pure, Except.pure]
    | cons j js ih =>
      intro acc hjs
      rw [List.foldlM_cons, timeForJob_eq hw (hjs j List.mem_cons_self), ok_bind]
      show js.foldlM _ ((acc % 2 ^ 32 + _) % 2 ^ 32) = _
      rw [Nat.mod_add_mod, ih _ fun i hi => hjs i (List.mem_cons_of_mem _ hi), List.map_cons,
        List.sum_cons, Nat.add_assoc]
  have hrun := hfold (vals w.workInProgress) 0 hw.progress
  rw [Nat.zero_mod, Nat.zero_add] at hrun
  unfold usTillDone
  rw [hrun, timeForJob_eq hw ht]
  show Except.ok _ = _
  rw [Nat.mod_add_mod]

theorem usTillDone_estimate (hw : w.Timed) (ht : t ∈ w.times) :
    usTillDone w t = .ok (estimate w t) := by
  unfold estimate
  rw [usTillDone_eq hw ht]
  rfl

theorem estimate_lt (hw : w.Timed) (ht : t ∈ w.times) : estimate w t < 2 ^ 32 := by
  unfold estimate
  rw [usTillDone_eq hw ht]
  exact Nat.mod_lt _ (by decide)

/-- No sum of an estimate is too large for a `uint`. -/
structure Worker.Exact (w : Worker) (t : ℕ) : Prop where
  progress : ∀ j ∈ vals w.workInProgress, (w.durations j.type).sum < 2 ^ 32
  new : (w.durations t).sum < 2 ^ 32
  total : expectedTime w t < 2 ^ 32 - 1

theorem estimate_of_exact (hw : w.Timed) (ht : t ∈ w.times) (he : w.Exact t) :
    estimate w t = expectedTime w t := by
  have hsum : ((vals w.workInProgress).map fun j =>
      (w.durations j.type).sum % 2 ^ 32 / (w.durations j.type).length) =
        (vals w.workInProgress).map fun j => averageTime w j.type := by
    refine List.map_congr_left ?_
    intro j hj
    rw [Nat.mod_eq_of_lt (he.progress j hj), averageTime]
  have htotal := he.total
  unfold estimate
  rw [usTillDone_eq hw ht, hsum, Nat.mod_eq_of_lt he.new]
  exact Nat.mod_eq_of_lt (by unfold expectedTime averageTime at htotal; unfold averageTime; omega)

/-! ## The search -/

/-- A worker that may take a job, under its key. -/
def CanTake (t maxJobs : ℕ) (p : Str × Worker) : Prop := p.2.Eligible t maxJobs

instance (t maxJobs : ℕ) : DecidablePred (CanTake t maxJobs) :=
  fun p => inferInstanceAs (Decidable (p.2.Eligible t maxJobs))

/-- The table of the workers is well formed. -/
def TimedTable (d : Delegator) : Prop := All (fun _ w => w.Timed) d.workers

/-- **`bestWorker`** searches for the first least estimate of the workers that may take the job. -/
theorem bestWorker_eq (hd : d.TimedTable) (t maxJobs : ℕ) :
    d.bestWorker t maxJobs = .ok (((d.workers.toList.foldl
      (closer (CanTake t maxJobs) fun p => estimate p.2 t) (none, 2 ^ 32 - 1)).1).map Prod.fst) := by
  have hfold : ∀ (l : List (Str × Worker)) (best : Option (Str × Worker) × ℕ), (∀ p ∈ l, p.2.Timed) →
      l.foldlM (better t maxJobs) (best.1.map Prod.fst, best.2) =
        (.ok (((l.foldl (closer (CanTake t maxJobs) fun p => estimate p.2 t) best).1).map Prod.fst,
          (l.foldl (closer (CanTake t maxJobs) fun p => estimate p.2 t) best).2) : Except Fault _) := by
    intro l
    induction l with
    | nil =>
      intro best _
      rfl
    | cons p l ih =>
      intro best hl
      have hstep : better t maxJobs (best.1.map Prod.fst, best.2) p =
          .ok ((closer (CanTake t maxJobs) (fun p => estimate p.2 t) best p).1.map Prod.fst,
            (closer (CanTake t maxJobs) (fun p => estimate p.2 t) best p).2) := by
        unfold better closer
        by_cases he : p.2.Eligible t maxJobs
        · have hp := hl p List.mem_cons_self
          rw [if_pos (show _ ∧ _ ∧ _ from he), usTillDone_estimate hp (hp.range t he.1 he.2.1), ok_bind]
          by_cases hlt : estimate p.2 t < best.2
          · rw [if_pos hlt, if_pos ⟨he, hlt⟩]
            rfl
          · rw [if_neg hlt, if_neg fun h => hlt h.2]
            rfl
        · rw [if_neg (show ¬ (_ ∧ _ ∧ _) from he), if_neg fun h => he h.1]
          rfl
      rw [List.foldlM_cons, hstep, ok_bind, ih _ fun q hq => hl q (List.mem_cons_of_mem _ hq),
        List.foldl_cons]
  have hrun := hfold d.workers.toList (none, 2 ^ 32 - 1) fun p hp =>
    hd p.1 p.2 (ExtTreeMap.mem_toList_iff_getElem?_eq_some.1 hp)
  unfold bestWorker
  show (d.workers.toList.foldlM (better t maxJobs) ((none : Option (Str × Worker)).map Prod.fst,
    2 ^ 32 - 1) >>= _) = _
  rw [hrun]
  rfl

/-- The worker that `bestWorker` finds, if any. -/
theorem bestWorker_cases (hd : d.TimedTable) (t maxJobs : ℕ) :
    (d.bestWorker t maxJobs = .ok none ∧
      ∀ (x : Str) (w : Worker), d.workers[x]? = some w → w.Eligible t maxJobs →
        estimate w t = 2 ^ 32 - 1) ∨
    ∃ (x : Str) (w : Worker), d.bestWorker t maxJobs = .ok (some x) ∧ d.workers[x]? = some w ∧
      estimate w t < 2 ^ 32 - 1 ∧
      FirstLeast (CanTake t maxJobs) (fun p => estimate p.2 t) d.workers.toList (x, w) := by
  rw [bestWorker_eq hd]
  rcases scan_cases (CanTake t maxJobs) (fun p => estimate p.2 t) d.workers.toList (2 ^ 32 - 1) with
    ⟨hfold, hall⟩ | ⟨p, hfold, hlt, hp⟩
  · rw [hfold]
    refine .inl ⟨rfl, ?_⟩
    intro x w hw he
    have hle := hall (x, w) (ExtTreeMap.mem_toList_iff_getElem?_eq_some.2 hw) he
    have hlt := estimate_lt (hd x w hw) ((hd x w hw).range t he.1 he.2.1)
    dsimp only at hle
    omega
  · rw [hfold]
    exact .inr ⟨p.1, p.2, rfl, ExtTreeMap.mem_toList_iff_getElem?_eq_some.1 hp.mem, hlt, hp⟩

/-! ## The best worker -/

/-- `bestWorker` finds nothing exactly when no worker may take the job, and else a worker that may,
with an expected completion time that is no larger than that of any other. -/
def PicksBest (d : Delegator) (t maxJobs : ℕ) : Prop :=
  ∃ o, d.bestWorker t maxJobs = .ok o ∧
    (o = none ↔ ∀ (x : Str) (w : Worker), d.workers[x]? = some w → ¬ w.Eligible t maxJobs) ∧
    ∀ x, o = some x → ∃ w : Worker, d.workers[x]? = some w ∧ w.Eligible t maxJobs ∧
      ∀ (y : Str) (v : Worker), d.workers[y]? = some v → v.Eligible t maxJobs →
        expectedTime w t ≤ expectedTime v t

/-- The first worker with the least estimate, of those that may take the job, has an estimate other
than the sentinel, and the least expected time. -/
def Faithful (d : Delegator) (t maxJobs : ℕ) : Prop :=
  ∀ (x : Str) (w : Worker), FirstLeast (CanTake t maxJobs)
    (fun p => estimate p.2 t) d.workers.toList (x, w) →
    estimate w t ≠ 2 ^ 32 - 1 ∧
      ∀ (y : Str) (v : Worker), d.workers[y]? = some v → v.Eligible t maxJobs →
        expectedTime w t ≤ expectedTime v t

/-- Sums that fit keep the order of the workers. -/
theorem faithful_of_exact (hd : d.TimedTable)
    (he : ∀ (x : Str) (w : Worker), d.workers[x]? = some w → w.Eligible t maxJobs → w.Exact t) :
      Faithful d t maxJobs := by
  have heq : ∀ (x : Str) (w : Worker), d.workers[x]? = some w → w.Eligible t maxJobs →
      estimate w t = expectedTime w t :=
    fun x w hw hel => estimate_of_exact (hd x w hw) ((hd x w hw).range t hel.1 hel.2.1) (he x w hw hel)
  intro x w hfirst
  have hw : d.workers[x]? = some w := ExtTreeMap.mem_toList_iff_getElem?_eq_some.1 hfirst.mem
  have hel : w.Eligible t maxJobs := hfirst.qualifies
  refine ⟨?_, ?_⟩
  · rw [heq x w hw hel]
    exact (he x w hw hel).total.ne
  · intro y v hv hev
    have hle := hfirst.le (b := (y, v)) (ExtTreeMap.mem_toList_iff_getElem?_eq_some.2 hv) hev
    dsimp only at hle
    rwa [heq x w hw hel, heq y v hv hev] at hle

/-- The worker found is a best one if and only if the first with the least estimate is. -/
theorem picksBest_iff_faithful (hd : d.TimedTable) : PicksBest d t maxJobs ↔ Faithful d t maxJobs := by
  constructor
  · rintro ⟨o, ho, hnone, hbest⟩ x w hfirst
    have hw : d.workers[x]? = some w := ExtTreeMap.mem_toList_iff_getElem?_eq_some.1 hfirst.mem
    rcases bestWorker_cases hd t maxJobs with ⟨hrun, -⟩ | ⟨x', w', hrun, hw', hlt, hfirst'⟩
    · -- the worker `w` may take the job, but none was found
      rw [hrun] at ho
      injection ho with ho
      exact absurd hfirst.qualifies (hnone.1 ho.symm x w hw)
    · obtain ⟨rfl, rfl⟩ := Prod.mk.inj (hfirst.unique hfirst')
      rw [hrun] at ho
      injection ho with ho
      obtain ⟨v, hv, -, hall⟩ := hbest x ho.symm
      rw [hw] at hv
      injection hv with hv
      subst hv
      exact ⟨hlt.ne, hall⟩
  · intro hfaithful
    rcases bestWorker_cases hd t maxJobs with ⟨hrun, hall⟩ | ⟨x, w, hrun, hw, -, hfirst⟩
    · refine ⟨none, hrun, ?_, fun x h => by cases h⟩
      refine ⟨?_, fun _ => rfl⟩
      intro _ x w hw he
      -- the first least worker has the sentinel for its estimate
      obtain ⟨⟨x', w'⟩, hfirst⟩ := FirstLeast.exists (p := CanTake t maxJobs)
        (f := fun p : Str × Worker => estimate p.2 t)
          ⟨(x, w), ExtTreeMap.mem_toList_iff_getElem?_eq_some.2 hw, he⟩
      have hw' : d.workers[x']? = some w' := ExtTreeMap.mem_toList_iff_getElem?_eq_some.1 hfirst.mem
      exact (hfaithful x' w' hfirst).1 (hall x' w' hw' hfirst.qualifies)
    · refine ⟨some x, hrun, ⟨?_, ?_⟩, ?_⟩
      · intro h
        cases h
      · intro h
        exact absurd hfirst.qualifies (h x w hw)
      intro y hy
      injection hy with hy
      subst hy
      exact ⟨w, hw, hfirst.qualifies, (hfaithful x w hfirst).2⟩

/-- **The best worker is found** when no sum is too large, of those workers that may take the job. In
general it is found if and only if the first worker with the least estimate is a best one. -/
theorem picks_best_iff (hd : d.TimedTable) (t maxJobs : ℕ) :
    ((∀ (x : Str) (w : Worker), d.workers[x]? = some w → w.Eligible t maxJobs → w.Exact t) →
      PicksBest d t maxJobs) ∧ (PicksBest d t maxJobs ↔ Faithful d t maxJobs) :=
  ⟨fun he => (picksBest_iff_faithful hd).2 (faithful_of_exact hd he), picksBest_iff_faithful hd⟩

/-- A worker for jobs of type 0 whose last ten jobs took `us` each. -/
def steadyWorker (id : Str) (us : ℕ) : Worker :=
  ⟨[id], (0, 1), ∅, (∅ : ExtTreeMap ℕ (CircularBuffer ℕ)).insert 0 ⟨List.replicate 10 us, 10⟩, 0⟩

/-- A delegator with two workers that need one second and `us` microseconds for a job. -/
def twoWorkers (us : ℕ) : Delegator :=
  { Delegator.init 1 0 with
    workers := ((∅ : ExtTreeMap Str Worker).insert ['v'] (steadyWorker ['v'] 1000000)).insert
      ['w'] (steadyWorker ['w'] us) }

theorem steadyWorker_timed (id : Str) (us : ℕ) : (steadyWorker id us).Timed where
  full := All.insert All.empty ⟨List.length_replicate, Nat.succ_pos 9⟩
  range := by
    intro t _ ht
    obtain rfl : t = 0 := Nat.lt_one_iff.1 ht
    exact ExtTreeMap.mem_insert_self
  progress := by
    intro j hj
    simp [steadyWorker] at hj

theorem expectedTime_steadyWorker (id : Str) (us : ℕ) : expectedTime (steadyWorker id us) 0 = us := by
  have hbuffer : (steadyWorker id us).durations 0 = List.replicate 10 us := by
    unfold Worker.durations steadyWorker
    simp
  have hidle : vals (steadyWorker id us).workInProgress = [] := vals_empty
  unfold expectedTime averageTime
  rw [hidle, hbuffer, List.sum_replicate, List.length_replicate, smul_eq_mul]
  simp

theorem steadyWorker_exact (id : Str) {us : ℕ} (hus : us < 2 ^ 28) : (steadyWorker id us).Exact 0 where
  progress := by
    intro j hj
    simp [steadyWorker] at hj
  new := by
    unfold Worker.durations steadyWorker
    simp
    omega
  total := by
    rw [expectedTime_steadyWorker]
    omega

theorem twoWorkers_timed (us : ℕ) : (twoWorkers us).TimedTable :=
  All.insert (All.insert All.empty (steadyWorker_timed _ _)) (steadyWorker_timed _ _)

theorem picks_best_iff_twoWorkers : PicksBest (twoWorkers 2000000) 0 10 := by
  refine (picks_best_iff (twoWorkers_timed 2000000) 0 10).1 ?_
  have hall : All (fun _ w => Worker.Exact w 0) (twoWorkers 2000000).workers :=
    All.insert (All.insert All.empty (steadyWorker_exact _ (by decide)))
      (steadyWorker_exact _ (by decide))
  intro x w hw _
  exact hall x w hw

set_option maxRecDepth 8000 in
/-- **The slow worker is picked**: its last jobs took more than seven minutes each, so that ten of them
sum up to 4 modulo `2 ^ 32`. The other worker needs one second. -/
theorem slow_worker_picked : (twoWorkers 429496730).bestWorker 0 10 = .ok (some ['w']) ∧
    (twoWorkers 429496730).workers[['w']]? = some (steadyWorker ['w'] 429496730) ∧
    expectedTime (steadyWorker ['w'] 429496730) 0 = 429496730 ∧
    (twoWorkers 429496730).workers[['v']]? = some (steadyWorker ['v'] 1000000) ∧
    expectedTime (steadyWorker ['v'] 1000000) 0 = 1000000 ∧
      ¬ PicksBest (twoWorkers 429496730) 0 10 := by
  have hrun : (twoWorkers 429496730).bestWorker 0 10 = .ok (some ['w']) := by decide
  have hw : (twoWorkers 429496730).workers[['w']]? = some (steadyWorker ['w'] 429496730) := by
    unfold twoWorkers
    rw [getElem?_insert_eq, if_pos rfl]
  have hv : (twoWorkers 429496730).workers[['v']]? = some (steadyWorker ['v'] 1000000) := by
    unfold twoWorkers
    rw [getElem?_insert_eq, if_neg (by decide), getElem?_insert_eq, if_pos rfl]
  refine ⟨hrun, hw, expectedTime_steadyWorker _ _, hv, expectedTime_steadyWorker _ _, ?_⟩
  rintro ⟨o, ho, -, hbest⟩
  rw [hrun] at ho
  injection ho with ho
  obtain ⟨w', hw', -, hall⟩ := hbest ['w'] ho.symm
  rw [hw] at hw'
  injection hw' with hw'
  have hle := hall ['v'] _ hv ⟨Nat.zero_le _, by decide, by decide⟩
  rw [← hw', expectedTime_steadyWorker, expectedTime_steadyWorker] at hle
  omega

end Delegator

end Stateline
