import Stateline.Proof.Failed

/-!
# What the workers announced

`Roster` is an observed delegator with the job types that each worker announced
when it connected. A worker that is connected may say HELLO again, with anything in
it (`Repeated`).

* `kept_of_reach`: the range of a worker is what it announced, in every run.
* `ranges_respected`: **dispatch respects ranges and loads**, and no lookup of a job type
  fails: a worker has at most ten jobs, of types that it announced, and has times for these.
-/

namespace Stateline

open Std Lib Delegator

structure Roster where
  world : World
  /-- The job types in the HELLO by which a worker last connected. -/
  announced : Str → Str

namespace Roster

/-- A new delegator. -/
def init (nJobTypes workerCount : ℕ) : Roster := ⟨.init nJobTypes workerCount, fun _ => []⟩

/-- What is announced after an event: the HELLO of a worker counts when it is not connected. -/
def announce (r : Roster) : Event → Str → Str
  | .recv .network m _ _ =>
    match m.subject, m.address.head? with
    | .hello, some x =>
      if x ∈ r.world.del.workers then r.announced else Function.update r.announced x (m.data.headD [])
    | _, _ => r.announced
  | _ => r.announced

/-- One event. There is no next state when the handler fails. -/
def step (r : Roster) (e : Event) : Option Roster := (r.world.step e).map fun w => ⟨w, r.announce e⟩

variable {r r' : Roster} {e : Event} {es : List Event} {n nJobTypes workerCount : ℕ}
    {ok : World → Event → Prop}

theorem step_eq_some (h : r.step e = some r') :
    r.world.step e = some r'.world ∧ r'.announced = r.announce e := by
  obtain ⟨w, hw, rfl⟩ := Option.map_eq_some_iff.1 h
  exact ⟨hw, rfl⟩

/-- The run of the delegator alone. -/
theorem world_of_reach (h : Reach step (fun r e => ok r.world e) (.init nJobTypes workerCount) es r) :
    Reach World.step ok (.init nJobTypes workerCount) es r.world := by
  induction h with
  | start => exact .start
  | next _ hok hs ih => exact .next ih hok (step_eq_some hs).1

/-- Only the HELLO of a worker that is not connected announces anything. -/
theorem announce_quiet (h : Quiet r.world.del e) : r.announce e = r.announced := by
  unfold announce
  split
  · split
    · rename_i hsub hx
      rw [if_pos (h hsub _ hx)]
    · rfl
  · rfl

/-- The range of every connected worker is what it announced. -/
structure Kept (n : ℕ) (r : Roster) : Prop where
  nJobTypes : r.world.del.nJobTypes = n
  range : ∀ (x : Str) (wk : Worker), r.world.del.workers[x]? = some wk →
    r.world.del.jobTypeRange (r.announced x) = .ok wk.jobTypesRange

theorem jobTypeRange_congr {d d' : Delegator} (h : d'.nJobTypes = d.nJobTypes) (frame : Str) :
    d'.jobTypeRange frame = d.jobTypeRange frame := by
  unfold jobTypeRange
  rw [h]

theorem Kept.step (hk : Kept n r) (ho : Orderly r.world) (h : r.step e = some r') : Kept n r' := by
  obtain ⟨hs, hann⟩ := step_eq_some h
  obtain ⟨out, hrun⟩ := World.step_handle hs
  rcases handle_cases ho.sane hrun with ⟨m, now, fails, rfl, hreq⟩ | ⟨m, now, fails, x, v, frame,
    rfl, hsub, hx, hmem, hv, hd⟩ |
    ⟨hquiet, hd⟩
  · obtain ⟨hworkers, hn, -⟩ := receiveRequest_queued hreq ho.next
    have hsame : r'.announced = r.announced := hann
    refine ⟨hn.trans hk.nJobTypes, ?_⟩
    intro x wk hwk
    rw [jobTypeRange_congr hn, hsame]
    rw [hworkers] at hwk
    exact hk.range x wk hwk
  · -- the worker `x` connects
    have hn : r'.world.del.nJobTypes = r.world.del.nJobTypes := by rw [hd]
    have hnew : r'.announced = Function.update r.announced x frame := by
      rw [hann]
      unfold announce
      simp only [hsub, hx, if_neg hmem, List.headD_eq_head?_getD, hv.announced, Option.getD_some]
    refine ⟨hn.trans hk.nJobTypes, ?_⟩
    intro y wk hwk
    rw [jobTypeRange_congr hn, hnew]
    rw [hd, getElem?_insert_eq] at hwk
    split at hwk
    · rename_i hxy
      injection hwk with hwk
      subst hxy hwk
      rw [Function.update_self]
      exact hv.range
    · rename_i hxy
      rw [Function.update_of_ne (Ne.symm hxy)]
      exact hk.range y wk hwk
  · have hsame : r'.announced = r.announced := hann.trans (announce_quiet hquiet)
    refine ⟨hd.nJobTypes.trans hk.nJobTypes, ?_⟩
    intro x wk hwk
    obtain ⟨v, hv, hrange⟩ := hd.ranges x wk hwk
    rw [jobTypeRange_congr hd.nJobTypes, hsame, hrange]
    exact hk.range x v hv

/-- **Ranges are kept** in every run. -/
theorem kept_of_reach (h : Reach step (fun r e => ok r.world e)
    (.init nJobTypes workerCount) es r) : Kept nJobTypes r := by
  refine h.invariant (P := fun _ r => Kept nJobTypes r) ⟨rfl, ?_⟩ ?_
  · intro x wk hwk
    simp [init, World.init, Delegator.init] at hwk
  · intro es r e r' hr ih _ hs
    exact ih.step (orderly_of_reach (world_of_reach hr)) hs

end Roster

/-! ## HELLO again -/

variable {w : World} {e : Event} {es : List Event} {nJobTypes workerCount : ℕ} {r : Roster}

/-- The HELLO of a connected worker, with anything in it. -/
def Repeated (w : World) : Event → Prop
  | .recv .network m _ _ => m.subject = .hello ∧ ∃ x, m.address.head? = some x ∧ x ∈ w.del.workers
  | _ => False

theorem repeated_change (hinv : Inv w) (h : Repeated w e) :
    ∃ w', w.step e = some w' ∧ Change w e w' := by
  unfold Repeated at h
  split at h
  · rename_i m now fails
    obtain ⟨hsub, x, hx, hmem⟩ := h
    obtain ⟨tl, htl⟩ := List.head?_eq_some_iff.1 hx
    have hrun : w.del.handle (.recv .network m now fails) = .ok (w.del, [⟨.heartbeat, m⟩]) := by
      simp only [handle, hsub, newWorker, front_of_cons htl, ok_bind, if_pos hmem]
      rfl
    exact moved_change hrun (.refl hinv.workers) (forward_ok (by simp [hsub]))
      (by simp [World.answered, hsub]) (by simp)
  · exact h.elim

/-- The events of the protocol, with any HELLO of a connected worker. -/
def Admissible' (w : World) (e : Event) : Prop := Admissible w e ∨ Repeated w e

theorem step_change' (hinv : Inv w) (hok : Admissible' w e) (hbye : ¬ e.NetworkGoodbye)
    (hlt : w.created + World.growth e < 2 ^ 32) :
    ∃ w', w.step e = some w' ∧ Change w e w' := by
  rcases hok with hok | hok
  · exact step_change hinv hok hbye hlt
  · exact repeated_change hinv hok

theorem inv_of_reach' (h : Reach World.step Admissible' (.init nJobTypes workerCount) es w)
    (hc : w.created < 2 ^ 32) :
    Inv w := by
  refine (bounded_of_reach h hc).invariant (P := fun _ w => Inv w) (.init _ _) ?_
  intro es w e w' _ ih hok hs
  obtain ⟨w'', hs', hchange⟩ := step_change' ih hok.1 (World.not_networkGoodbye hs)
    (by rw [← created_step hs]; exact hok.2 w' hs)
  rw [hs] at hs'
  injection hs' with hs'
  exact hs' ▸ ih.change hchange

/-! ## Ranges -/

/-- The worker `wk` under `x` keeps to what it announced, and has a time for each of its job types: so
no lookup of `timeForJob`, `usTillDone` and `receiveResult` fails. -/
structure Served (r : Roster) (x : Str) (wk : Worker) : Prop where
  whole : r.announced x = [] → wk.jobTypesRange = (0, r.world.del.nJobTypes)
  range : ∀ a b, a < 2 ^ 31 → b < 2 ^ 31 → r.announced x = toStr a ++ ':' ::
    toStr b → wk.jobTypesRange = (a, b)
  typed : ∀ j ∈ vals wk.workInProgress, wk.jobTypesRange.1 ≤ j.type ∧ j.type < wk.jobTypesRange.2
  load : wk.workInProgress.size ≤ 10
  times : ∀ t, t ∈ wk.times ↔ wk.jobTypesRange.1 ≤ t ∧ t < wk.jobTypesRange.2
  progress : ∀ j ∈ vals wk.workInProgress, j.type ∈ wk.times ∧ ∃ us, timeForJob wk j.type = .ok us
  estimate : ∀ t, wk.jobTypesRange.1 ≤ t → t < wk.jobTypesRange.2 → ∃ us, usTillDone wk t = .ok us

/-- The range 'a:b'. -/
theorem Delegator.jobTypeRange_decimals (d : Delegator) {a b : ℕ} (ha : a < 2 ^ 31) (hb : b < 2 ^ 31) :
    d.jobTypeRange (toStr a ++ ':' :: toStr b) = .ok (a, b) := by
  have hsplit : segments (toStr a ++ ':' :: toStr b) ':' = [toStr a, toStr b] := by
    have hvs : ∀ v ∈ [toStr a, toStr b], v ≠ [] ∧ ':' ∉ v := by simp [toStr_ne_nil, colon_not_mem_toStr]
    obtain ⟨s, hs, hseg⟩ := segments_joinStr (List.cons_ne_nil _ _) hvs
    rw [joinStr_eq (List.cons_ne_nil _ _)] at hs
    injection hs with hs
    have hjoin : [toStr a, toStr b].flatMap (· ++ [':']) = toStr a ++ ':' :: toStr b ++ [':'] := by simp
    rw [← hseg, ← hs, hjoin, List.dropLast_concat]
  have hne : toStr a ++ ':' :: toStr b ≠ [] := by simp
  unfold jobTypeRange
  rw [if_neg hne, hsplit]
  simp only [stoi_toStr ha, stoi_toStr hb, toUint_natCast (show a < 2 ^ 32 by omega),
    toUint_natCast (show b < 2 ^ 32 by omega)]

theorem served_of_inv (hk : Roster.Kept nJobTypes r) (hd : r.world.del.Sane) {x : Str} {wk : Worker}
    (hwk : r.world.del.workers[x]? = some wk) : Served r x wk := by
  have hok := hd.workers x wk hwk
  have htimed := hd.timed x wk hwk
  have hrange := hk.range x wk hwk
  refine ⟨?_, ?_, ?_, hok.load_le, hok.times, ?_, ?_⟩
  · intro hwhole
    rw [hwhole] at hrange
    injection hrange with hrange
    exact hrange.symm
  · intro a b ha hb hann
    rw [hann, jobTypeRange_decimals _ ha hb] at hrange
    injection hrange with hrange
    exact hrange.symm
  · intro j hj
    obtain ⟨i, hi⟩ := mem_vals.1 hj
    exact hok.typed i j hi
  · intro j hj
    exact ⟨htimed.progress j hj, _, timeForJob_eq htimed (htimed.progress j hj)⟩
  · intro t h₁ h₂
    exact ⟨_, usTillDone_estimate htimed (htimed.range t h₁ h₂)⟩

/-- **Dispatch respects ranges and loads**, and lookups never fail: after any admissible events without
a GOODBYE from the network, in any order, every worker has at most ten jobs, of the types that it
first announced, and times for exactly these. The search for a worker succeeds, and the next
admissible event is handled exactly when it is no such GOODBYE. -/
theorem ranges_respected
    (h : Reach Roster.step (fun r e => Admissible' r.world e ∧ ¬ e.NetworkGoodbye)
      (.init nJobTypes workerCount) es r) (hc : r.world.created < 2 ^ 32) :
    r.world.del.nJobTypes = nJobTypes ∧
      (∀ (x : Str) (wk : Worker), r.world.del.workers[x]? = some wk → Served r x wk) ∧
      (∀ jobType maxJobs, ∃ o, r.world.del.bestWorker jobType maxJobs = .ok o) ∧
      ∀ e, Admissible' r.world e → r.world.created + World.growth e < 2 ^ 32 →
        ((∃ r', r.step e = some r') ↔ ¬ e.NetworkGoodbye) := by
  have h : Reach Roster.step (fun r e => Admissible' r.world e) (.init nJobTypes workerCount) es r :=
    h.mono fun _ _ he => he.1
  have hw := Roster.world_of_reach h
  have hk := Roster.kept_of_reach h
  have hinv := inv_of_reach' hw hc
  refine ⟨hk.nJobTypes, fun x wk hwk => served_of_inv hk (orderly_of_reach hw).sane hwk, ?_, ?_⟩
  · intro jobType maxJobs
    obtain ⟨o, ho, -⟩ := bestWorker_ok hinv.workers jobType maxJobs
    exact ⟨o, ho⟩
  · intro e hok hlt
    constructor
    · rintro ⟨r', hs⟩
      exact World.not_networkGoodbye (Roster.step_eq_some hs).1
    · intro hbye
      obtain ⟨w', hs, -⟩ := step_change' hinv hok hbye hlt
      exact ⟨_, by unfold Roster.step; rw [hs]; rfl⟩

/-! A run: a worker announces the jobs of type 1 and then says HELLO with another range; a request for
two jobs arrives, and one of them is sent. -/

def helloAgainEvent : Event := .recv .network ⟨[['w']], .hello, ["0:7".toList]⟩ 0 false

set_option maxRecDepth 8000 in
theorem ranges_respected_run : ∃ es r, es = [helloOneEvent, helloAgainEvent, requestEvent, pollEvent] ∧
    Reach Roster.step (fun r e => Admissible' r.world e ∧ ¬ e.NetworkGoodbye) (.init 2 0) es r ∧
    r.announced ['w'] = "1:2".toList ∧
    r.world.del.jobQueue.map Job.id = [['0']] ∧
    ∀ (x : Str) (wk : Worker), r.world.del.workers[x]? = some wk → Served r x wk := by
  have h : Reach Roster.step (fun r e => Admissible' r.world e ∧ ¬ e.NetworkGoodbye) (.init 2 0) [] _ :=
    .start
  have h := h.next' (e := helloOneEvent)
    ⟨.inl ⟨by decide, _, [], rfl, .inr ⟨['1'], ['2'], 1, 2, by decide⟩⟩, by decide⟩ (by decide)
  have h := h.next' (e := helloAgainEvent) ⟨.inr ⟨rfl, ['w'], rfl, by decide⟩, by decide⟩ (by decide)
  have h := h.next' (e := requestEvent)
    ⟨.inl (requestEvent_admissible (by decide)), by decide⟩ (by decide)
  have h := h.next' (e := pollEvent) ⟨.inl fun _ => rfl, by decide⟩ (by decide)
  exact ⟨_, _, rfl, h, by decide, by decide, (ranges_respected h (by decide)).2.1⟩

set_option maxRecDepth 8000 in
/-- **A worker that keeps to its range says GOODBYE**: its callback is undefined, and there is no next
state in which the workers are served. -/
theorem goodbye_of_served : ∃ r wk, Reach Roster.step (fun r e => Admissible' r.world e) (.init 2 0)
      [helloOneEvent, requestEvent, pollEvent] r ∧
    r.world.del.workers[['w']]? = some wk ∧ Served r ['w'] wk ∧ wk.workInProgress.keys = [['1']] ∧
    Admissible' r.world goodbyeEvent ∧ r.world.created + World.growth goodbyeEvent < 2 ^ 32 ∧
    r.world.del.handle goodbyeEvent = .error .undefined ∧
    ¬ ∃ r', r.step goodbyeEvent = some r' ∧
      ∀ (x : Str) (wk : Worker), r'.world.del.workers[x]? = some wk → Served r' x wk := by
  have h : Reach Roster.step (fun r e => Admissible' r.world e) (.init 2 0) [] _ := .start
  have h := h.next' (e := helloOneEvent)
    (.inl ⟨by decide, _, [], rfl, .inr ⟨['1'], ['2'], 1, 2, by decide⟩⟩) (by decide)
  have h := h.next' (e := requestEvent) (.inl (requestEvent_admissible (by decide))) (by decide)
  have h := h.next' (e := pollEvent) (.inl fun _ => rfl) (by decide)
  refine ⟨_, _, h, (Option.some_get (by decide)).symm, ?_, by decide, .inl (show _ ≠ _ by decide),
    by decide, handle_networkGoodbye rfl, ?_⟩
  · exact served_of_inv (Roster.kept_of_reach h) (orderly_of_reach (Roster.world_of_reach h)).sane
      (Option.some_get (by decide)).symm
  · rintro ⟨r', hs, -⟩
    exact World.not_networkGoodbye (Roster.step_eq_some hs).1 rfl

end Stateline
