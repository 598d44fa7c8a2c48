import Stateline.Proof.Submit

/-!
# What a worker evaluates

A request carries a sample to a worker, and its reply carries the energy back,
both with six fractional digits.

* `round_trip_iff`: **the worker gets the sample, and the sampler the energy**, if
  and only if these are multiples of 1/64.
-/

namespace Stateline

/-- Reading a list of decimals rounds each number. -/
theorem mapM_stod (x : List FiniteDouble) :
    (x.map fun q => toDecimal q.val).mapM (fun s => orThrow (stod s)) =
      (.ok (x.map fun q => rounded q.val) : Except Fault (List ℚ)) := by
  induction x with
  | nil => rfl
  | cons q x ih =>
    rw [List.map_cons, List.mapM_cons, stod_toDecimal, ih]
    rfl

/-- Only multiples of 1/64 are read back. -/
theorem map_rounded_iff (x : List FiniteDouble) :
    (x.map fun q => rounded q.val) = x.map FiniteDouble.val ↔ ∀ q ∈ x, ∃ z : ℤ, 64 * q.val = z := by
  rw [List.map_inj_left]
  refine forall₂_congr ?_
  intro q _
  rw [← stod_toDecimal_iff, stod_toDecimal, Option.some.injEq]

theorem stoul_toStr {n : ℕ} (hn : n < 2 ^ 32) : stoul (toStr n) = some n := by
  obtain ⟨c, s, hcs⟩ := List.exists_cons_of_ne_nil (toStr_ne_nil n)
  have hall : ∀ d ∈ c :: s, d.isDigit :=
    fun d hd => isDigit_of_mem_toStr (n := n) (by rw [hcs]; exact hd)
  have htake : (c :: s).takeWhile Char.isDigit = c :: s := List.takeWhile_eq_self_iff.2 hall
  have hval : Nat.ofDigitChars 10 (c :: s) 0 = n := by rw [← hcs]; exact ofDigitChars_toStr n
  unfold stoul
  rw [hcs, takeSign_of_isDigit (hall c List.mem_cons_self)]
  simp only [htake, hval, Bool.false_eq_true, if_false]
  rw [if_pos ⟨List.cons_ne_nil c s, by omega⟩]

/-- **The worker gets the sample that was submitted** if and only if its components are multiples of
1/64, and the sampler gets the energy that the worker computed if and only if that is one. -/
theorem round_trip_iff {id : ℕ} {jobTypes : List ℕ} {x : List FiniteDouble} {request : Message}
    {frame : Str} (hid : id < 2 ^ 32) (hreq : Requester.submit id jobTypes x = .ok request)
    (hframe : nth request.data 1 = .ok frame) {jobType jobID : Str} {t : ℤ}
    (ht : stoi jobType = some t) {energy : FiniteDouble} {result : Str}
    (hres : nth (Minion.submitResult jobID energy).data 1 = .ok result) (address : Address)
    (subject : Subject) :
    (Minion.nextJob ⟨address, .job, [jobType, jobID, frame]⟩ =
      .ok (jobID, toUint t, x.map FiniteDouble.val) ↔
      ∀ q ∈ x, ∃ z : ℤ, 64 * q.val = z) ∧
    (Requester.retrieve ⟨[toStr id], subject, [result]⟩ = .ok (id, [energy.val]) ↔
      ∃ z : ℤ, 64 * energy.val = z) := by
  constructor
  · -- the frame is the joined decimals of the sample, which the worker splits again
    obtain ⟨-, -, _, _, rfl, -, hsplit⟩ := Requester.submit_eq_ok hreq
    cases hframe
    have hjob : Minion.nextJob ⟨address, .job, [jobType, jobID, frame]⟩ =
        .ok (jobID, toUint t, x.map fun q => rounded q.val) := by
      simp only [Minion.nextJob, nth, List.getElem?_cons_succ, List.getElem?_cons_zero, ok_bind]
      rw [hsplit, mapM_stod, ok_bind, ht]
      rfl
    rw [hjob]
    simp only [Except.ok.injEq, Prod.mk.injEq, true_and]
    exact map_rounded_iff x
  · cases hres
    have hretrieve : Requester.retrieve ⟨[toStr id], subject, [toDecimal energy.val]⟩ =
        .ok (id, [rounded energy.val]) := by
      simp only [Requester.retrieve, nth, List.getElem?_cons_zero, ok_bind]
      rw [stoul_toStr hid, ← List.map_singleton
        (f := fun q : FiniteDouble => toDecimal q.val), mapM_stod]
      simp only [orThrow, ok_bind, Nat.mod_eq_of_lt hid]
      rfl
    rw [hretrieve]
    simp only [Except.ok.injEq, Prod.mk.injEq, true_and]
    simpa using map_rounded_iff [energy]

/-- A multiple of 1/64. -/
def quarter : FiniteDouble := ⟨1 / 4, 2, by norm_num⟩

/-- The sample 1/4 and the energy 1/4 come through as they are. -/
theorem round_trip_quarter :
    Minion.nextJob ⟨[], .job, [['0'], ['7'], "0.250000".toList]⟩ = .ok (['7'], 0, [quarter.val]) ∧
    Requester.retrieve ⟨[['3']], .result, ["0.250000".toList]⟩ = .ok (3, [quarter.val]) := by
  have hreq : Requester.submit 3 [0] [quarter] =
      .ok ⟨[['3']], .request, [['0'], "0.250000".toList]⟩ := by
    decide +kernel
  have hres : nth (Minion.submitResult ['7'] quarter).data 1 = .ok "0.250000".toList := by
    decide +kernel
  have hwhole : ∃ z : ℤ, 64 * quarter.val = z := ⟨16, by norm_num [quarter]⟩
  obtain ⟨hsample, henergy⟩ := round_trip_iff (show 3 < 2 ^ 32 by norm_num) hreq rfl
    (show stoi ['0'] = some 0 by decide) hres [] .result
  exact ⟨hsample.2 (List.forall_mem_singleton.2 hwhole), henergy.2 hwhole⟩

/-- Not a multiple of 1/64. -/
def small : FiniteDouble := ⟨1 / 128, 7, by norm_num⟩

/-- **The sample 1/128 is evaluated at 0.007812**, and an energy of 1/128 is recorded as 0.007812. -/
theorem small_rounded :
    Requester.submit 3 [0] [small] = .ok ⟨[['3']], .request, [['0'], "0.007812".toList]⟩ ∧
      Minion.nextJob ⟨[], .job, [['0'], ['7'], "0.007812".toList]⟩ = .ok (['7'], 0, [7812 / 1000000]) ∧
      Minion.submitResult ['7'] small = ⟨[], .result, [['7'], "0.007812".toList]⟩ ∧
      Requester.retrieve ⟨[['3']], .result, ["0.007812".toList]⟩ = .ok (3, [7812 / 1000000]) ∧
      small.val ≠ 7812 / 1000000 := by
  decide +kernel

end Stateline
