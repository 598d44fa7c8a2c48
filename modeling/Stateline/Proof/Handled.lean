import Stateline.Proof.Conserve
import Stateline.Proof.Polling

/-!
# Whatever was handled

What holds after any events, in any order and with any contents, as long as the
delegator handled them.

* `handle_cases`: **what an event did that was handled**: a request, a new worker, or
  a change that makes neither a job nor a worker (`Handled`).
* `Orderly`: the workers are well formed, and the outstanding jobs have distinct ids
  until `2 ^ 32` jobs were created. `orderly_of_reach`.
-/

namespace Stateline

open Std Lib Delegator

namespace Delegator

/-- The buffers of a worker are full. -/
def Worker.Full (w : Worker) : Prop := All (fun _ b => b.buffer.length = b.size ∧ 0 < b.size) w.times

/-- The table of the workers is well formed. -/
structure Sane (d : Delegator) : Prop where
  workers : d.WorkersOK
  full : All (fun _ w => w.Full) d.workers

variable {d d' : Delegator} {m : Message} {x : Str} {w : Worker} {now : ℤ} {out : List Send} {e : Event}

theorem Worker.OK.timed (hw : Worker.OK x w) (hfull : w.Full) : w.Timed where
  full := hfull
  range t h₁ h₂ := (hw.times t).2 ⟨h₁, h₂⟩
  progress j hj := by
    obtain ⟨i, hi⟩ := mem_vals.1 hj
    exact (hw.times _).2 (hw.typed i j hi)

theorem Sane.timed (hd : d.Sane) : d.TimedTable :=
  fun x w hw => (hd.workers x w hw).timed (hd.full x w hw)

theorem Worker.Full.insert {t us : ℕ} {b : CircularBuffer ℕ} {times : ExtTreeMap ℕ (CircularBuffer ℕ)}
    (hw : w.Full) (hb : w.times[t]? = some b) (htimes : times = w.times.insert t (b.pushBack us)) :
    All (fun _ b => b.buffer.length = b.size ∧ 0 < b.size) times := by
  obtain ⟨hlen, hpos⟩ := hw t b hb
  rw [htimes]
  refine All.insert hw ⟨?_, hpos⟩
  unfold CircularBuffer.pushBack
  simp [hlen]

/-- What an event does that makes neither a job nor a worker. -/
structure Handled (d d' : Delegator) : Prop where
  sane : d'.Sane
  tickets : d'.tickets ≤ d.tickets
  nextJobId : d'.nextJobId = d.nextJobId
  nJobTypes : d'.nJobTypes = d.nJobTypes
  ranges : ∀ (x : Str) (w' : Worker), d'.workers[x]? = some w' →
    ∃ w : Worker, d.workers[x]? = some w ∧ w'.jobTypesRange = w.jobTypesRange

theorem Handled.refl (hd : d.Sane) : Handled d d := ⟨hd, le_rfl, rfl, rfl, fun _ w h => ⟨w, h, rfl⟩⟩

theorem disconnectWorker_handled (hd : d.Sane) (h : d.disconnectWorker m = .ok d') : Handled d d' := by
  obtain ⟨x, hx, -⟩ := bind_eq_ok h
  obtain ⟨tl, htl⟩ := List.head?_eq_some_iff.1 (head?_of_front hx)
  obtain ⟨d'', hrun, hmoved⟩ := disconnectWorker_spec hd.workers htl
  rw [h] at hrun
  injection hrun with hrun
  subst hrun
  rcases disconnectWorker_eq_ok (head?_of_front hx) h with ⟨-, rfl⟩ | ⟨w, -, rfl⟩
  · exact .refl hd
  · refine ⟨⟨hmoved.workers, hd.full.erase⟩, hmoved.tickets.le, rfl, rfl, ?_⟩
    intro y v hv
    simp only [getElem?_erase_eq] at hv
    split at hv
    · cases hv
    · exact ⟨v, hv, rfl⟩

/-- The worker keeps its range, and has no more jobs than before. -/
theorem receiveResult_handled (hd : d.Sane) (h : d.receiveResult m now = .ok (d', out)) :
    Handled d d' := by
  obtain ⟨x, -, -, ⟨-, rfl⟩ | ⟨w, w', i, requests, hw, -, haddr, hwip, hrange,
      ⟨b, hb, htimes⟩, rfl⟩⟩ :=
    receiveResult_eq_ok h
  · exact .refl hd
  have hok := hd.workers x w hw
  -- a default job that was created is gone again
  have herase : w'.workInProgress = w.workInProgress.erase i := by
    rw [hwip]
    cases hj : w.workInProgress[i]? with
    | some j => rw [subscript_of_some hj]
    | none =>
      rw [subscript_of_none hj]
      apply ExtTreeMap.ext_getElem?
      intro k
      simp only [getElem?_erase_eq, getElem?_insert_eq]
      split <;> rfl
  have hok' : Worker.OK x w' :=
    { front := by rw [haddr]; exact hok.front
      key := by rw [herase]; exact hok.key.erase
      times := by
        intro t'
        rw [hrange, htimes, mem_insert_of_mem (mem_iff_getElem?.2 ⟨b, hb⟩)]
        exact hok.times t'
      typed := by rw [herase, hrange]; exact hok.typed.erase
      load_le := by rw [herase]; exact ExtTreeMap.size_erase_le.trans hok.load_le }
  refine ⟨⟨hd.workers.insert hok',
    hd.full.insert (Worker.Full.insert (hd.full x w hw) hb htimes)⟩, ?_, rfl, rfl, ?_⟩
  · have hload : w'.load ≤ w.load := by
      have hleft : w'.load = ((vals (w.workInProgress.erase i)).map Job.ticket : List Ticket) := by
        unfold Worker.load
        rw [herase]
      rw [hleft]
      cases hj : w.workInProgress[i]? with
      | some j =>
        rw [Worker.load_erase hj]
        exact Multiset.le_cons_self _ _
      | none =>
        rw [erase_eq_self (by simpa using hj)]
        exact le_rfl
    rw [tickets_eq, tickets_eq, total_erase Worker.load hw]
    simp only [total_insert]
    exact add_le_add le_rfl (add_le_add hload le_rfl)
  · intro y v hv
    simp only [getElem?_insert_eq] at hv
    split at hv
    · rename_i hxy
      injection hv with hv
      subst hxy hv
      exact ⟨w, hw, hrange⟩
    · exact ⟨v, hv, rfl⟩

/-- The poll, in rounds. -/
theorem onPoll_eq_ok {clock : Str → ℤ} {fails : Str → Bool} (hd : d.WorkersOK)
    (h : d.onPoll clock fails = .ok (d', out)) :
    d' = d.jobQueue.foldl (round clock) { d with jobQueue := [] } := by
  have hd₀ : WorkersOK { d with jobQueue := [] } := hd
  unfold onPoll at h
  by_cases hf : ∃ p ∈ rounds clock { d with jobQueue := [] } d.jobQueue, (p.1.taker p.2).isSome ∧
    fails p.2.id = true
  · rw [pollLoop_failed hd₀ hf] at h
    cases h
  · push Not at hf
    rw [pollLoop_sent hd₀ fun p hp hs => Bool.eq_false_of_not_eq_true (hf p hp hs)] at h
    exact (ok_pair_inj h).1.symm

theorem onPoll_handled {clock : Str → ℤ} {fails : Str → Bool} (hd : d.Sane)
    (h : d.onPoll clock fails = .ok (d', out)) :
    Handled d d' := by
  obtain ⟨hok, hgrown, -, -⟩ :=
    rounds_grown (d := { d with jobQueue := [] }) hd.workers clock d.jobQueue
  rw [← onPoll_eq_ok hd.workers h] at hok hgrown
  refine ⟨⟨hok, ?_⟩, ?_, hgrown.nextJobId, hgrown.nJobTypes, ?_⟩
  · intro x w' hw'
    obtain ⟨w, hw, hmore⟩ := hgrown.worker x w' hw'
    unfold Worker.Full
    rw [hmore.times]
    exact hd.full x w hw
  · rw [onPoll_eq_ok hd.workers h, ← tickets_onPoll d]
    exact tickets_rounds_le (d := { d with jobQueue := [] }) hd.workers clock d.jobQueue
  · intro x w' hw'
    obtain ⟨w, hw, hmore⟩ := hgrown.worker x w' hw'
    exact ⟨w, hw, hmore.range⟩

/-- A new worker keeps the table well formed. -/
theorem Fresh.ok {frame : Str} (hv : Fresh d m frame w) (hx : m.address.head? = some x) :
    Worker.OK x w where
  front := by rw [hv.address]; exact hx
  key := by rw [hv.idle]; exact All.empty
  times := hv.times
  typed := by rw [hv.idle]; exact All.empty
  load_le := by simp [hv.idle]

theorem Fresh.full {frame : Str} (hv : Fresh d m frame w) : w.Full := by
  intro t b hb
  rw [hv.untimed t b hb]
  exact ⟨List.length_replicate, by decide⟩

/-- A new worker has no jobs. -/
theorem tickets_connected {frame : Str} {n : ℕ} (hv : Fresh d m frame w) (hmem : x ∉ d.workers) :
    ({ d with workers := d.workers.insert x w, workerCount := n } : Delegator).tickets = d.tickets := by
  have hnone : w.load = 0 := by simp [Worker.load, hv.idle]
  rw [tickets_eq, tickets_eq]
  simp only
  rw [total_insert_new Worker.load _ hmem, hnone, zero_add]

/-- The event is neither a request nor the HELLO of a worker that is not connected. -/
def Quiet (d : Delegator) : Event → Prop
  | .recv .requester _ _ _ => False
  | .recv .network m _ _ => m.subject = .hello → ∀ x, m.address.head? = some x → x ∈ d.workers
  | _ => True

/-- **What an event did that was handled.** -/
theorem handle_cases (hd : d.Sane) (h : d.handle e = .ok (d', out)) :
    (∃ m now fails, e = .recv .requester m now fails ∧ d.receiveRequest m = .ok d') ∨
    (∃ m now fails x w frame, e = .recv .network m now fails ∧ m.subject = .hello ∧
      m.address.head? = some x ∧
      x ∉ d.workers ∧ Fresh d m frame w ∧
      d' = { d with workers := d.workers.insert x w, workerCount := (d.workerCount + 1) % 2 ^ 32 }) ∨
    (Quiet d e ∧ Handled d d') := by
  cases e with
  | poll clock fails => exact .inr (.inr ⟨trivial, onPoll_handled hd h⟩)
  | recv sock m now fails =>
    simp only [handle] at h
    split at h
    · -- a request
      obtain ⟨d₁, hrun, h⟩ := bind_eq_ok h
      obtain ⟨rfl, -⟩ := ok_pair_inj h
      exact .inl ⟨m, now, fails, rfl, hrun⟩
    · rename_i hsub
      obtain ⟨x, hx, -⟩ := bind_eq_ok h
      have hx := head?_of_front hx
      obtain ⟨-, ⟨hmem, rfl⟩ | ⟨hmem, w, frame, hw, rfl⟩⟩ := newWorker_eq_ok hx h
      · refine .inr (.inr ⟨?_, .refl hd⟩)
        intro _ y hy
        rw [hx] at hy
        injection hy with hy
        exact hy ▸ hmem
      · exact .inr (.inl ⟨m, now, fails, x, w, frame, rfl, hsub, hx, hmem, hw, rfl⟩)
    · rename_i hsub
      exact .inr (.inr ⟨fun hh => absurd (hsub.symm.trans hh) (by decide), receiveResult_handled hd h⟩)
    · rename_i hsub
      obtain ⟨rfl, -⟩ := ok_pair_inj h
      exact .inr (.inr ⟨fun hh => absurd (hsub.symm.trans hh) (by decide), .refl hd⟩)
    · cases h
    · split at h
      · obtain ⟨d₁, hrun, h⟩ := bind_eq_ok h
        obtain ⟨rfl, -⟩ := ok_pair_inj h
        exact .inr (.inr ⟨trivial, disconnectWorker_handled hd hrun⟩)
      · obtain ⟨rfl, -⟩ := ok_pair_inj h
        exact .inr (.inr ⟨trivial, .refl hd⟩)
    · obtain ⟨d₁, hrun, h⟩ := bind_eq_ok h
      obtain ⟨rfl, -⟩ := ok_pair_inj h
      exact .inr (.inr ⟨trivial, disconnectWorker_handled hd hrun⟩)
    · cases h

end Delegator

/-! ## Runs -/

/-- **The invariant of all runs.** -/
structure Orderly (w : World) : Prop where
  sane : w.del.Sane
  next : w.del.nextJobId = w.created % 2 ^ 32
  ids : w.created ≤ 2 ^ 32 → (w.del.tickets.map Ticket.id).Nodup
  id_lt : w.created ≤ 2 ^ 32 → ∀ t ∈ w.del.tickets, ∃ n < w.created, t.id = toStr n

variable {w w' : World} {e : Event}

theorem Orderly.init (nJobTypes workerCount : ℕ) : Orderly (.init nJobTypes workerCount) := by
  have hnone : (World.init nJobTypes workerCount).del.tickets = 0 := by
    simp [World.init, Delegator.init, tickets_eq]
  refine ⟨⟨All.empty, All.empty⟩, rfl, ?_, ?_⟩
  · rw [hnone]
    exact fun _ => Multiset.nodup_zero
  · rw [hnone]
    exact fun _ t ht => absurd ht (Multiset.notMem_zero t)

/-- A step of the observed delegator is an event that it handled. -/
theorem World.step_handle (h : w.step e = some w') : ∃ out, w.del.handle e = .ok (w'.del, out) := by
  unfold World.step at h
  split at h
  · rename_i d out hrun
    injection h with h
    refine ⟨out, ?_⟩
    rw [hrun, ← h]
    unfold World.observe
    split <;> rfl
  · cases h

/-- The ids of the jobs that a request makes are new. -/
theorem nodup_new_ids {ts : Multiset Ticket} {n k : ℕ} (hids : (ts.map Ticket.id).Nodup)
    (hlt : ∀ t ∈ ts, ∃ i < n, t.id = toStr i) :
    (ts.map Ticket.id + ((List.range' n k).map toStr : List Str)).Nodup := by
  rw [Multiset.nodup_add]
  refine ⟨hids, ?_, ?_⟩
  · rw [Multiset.coe_nodup]
    exact List.Nodup.map (fun a b => toStr_inj.1) List.nodup_range'
  · rw [Multiset.disjoint_left]
    intro s hs hnew
    obtain ⟨t, ht, rfl⟩ := Multiset.mem_map.1 hs
    obtain ⟨i, hi, he⟩ := hlt t ht
    rw [Multiset.mem_coe, List.mem_map] at hnew
    obtain ⟨j, hj, hej⟩ := hnew
    rw [he, toStr_inj] at hej
    have := (List.mem_range'_1.1 hj).1
    omega

/-- A request: its jobs go on with the numbers. -/
theorem Orderly.requested (ho : Orderly w) {m : Message} (hreq : w.del.receiveRequest m = .ok w'.del)
    (hcreated : w'.created = w.created + (typesOf m).length) : Orderly w' := by
  obtain ⟨hworkers, -, hnext, js, hqueue, -, hids⟩ := receiveRequest_queued hreq ho.next
  have htickets := tickets_requested hworkers hqueue
  have hnew : w'.created ≤ 2 ^ 32 →
      (js.map Job.ticket).map Ticket.id = (List.range' w.created (typesOf m).length).map toStr := by
    intro hle
    rw [List.map_map, show Ticket.id ∘ Job.ticket = Job.id from rfl, hids]
    refine List.map_congr_left ?_
    intro k hk
    rw [Nat.mod_eq_of_lt (by have := (List.mem_range'_1.1 hk).2; omega)]
  refine ⟨⟨?_, ?_⟩, ?_, ?_, ?_⟩
  · unfold WorkersOK
    rw [hworkers]
    exact ho.sane.workers
  · rw [hworkers]
    exact ho.sane.full
  · rw [hnext, hcreated]
  · intro hle
    rw [htickets, Multiset.map_add, Multiset.map_coe, hnew hle]
    exact nodup_new_ids (ho.ids (by omega)) (ho.id_lt (by omega))
  · intro hle t ht
    rw [htickets] at ht
    rcases Multiset.mem_add.1 ht with ht | ht
    · obtain ⟨n, hn, he⟩ := ho.id_lt (by omega) t ht
      exact ⟨n, by omega, he⟩
    · have hid : t.id ∈ (js.map Job.ticket).map Ticket.id := List.mem_map_of_mem ht
      rw [hnew hle, List.mem_map] at hid
      obtain ⟨n, hn, he⟩ := hid
      exact ⟨n, by have := (List.mem_range'_1.1 hn).2; omega, he.symm⟩

/-- No job is created, and none appears. -/
theorem Orderly.keep (ho : Orderly w) (hsane : w'.del.Sane) (hnext : w'.del.nextJobId = w.del.nextJobId)
    (hcreated : w'.created = w.created) (htickets : w'.del.tickets ≤ w.del.tickets) : Orderly w' := by
  refine ⟨hsane, ?_, ?_, ?_⟩
  · rw [hnext, hcreated]
    exact ho.next
  · intro hle
    exact Multiset.nodup_of_le (Multiset.map_le_map htickets) (ho.ids (hcreated ▸ hle))
  · intro hle t ht
    rw [hcreated]
    exact ho.id_lt (hcreated ▸ hle) t (Multiset.mem_of_le htickets ht)

theorem Orderly.step (ho : Orderly w) (h : w.step e = some w') : Orderly w' := by
  obtain ⟨out, hrun⟩ := World.step_handle h
  have hcreated := created_step h
  rcases handle_cases ho.sane hrun with ⟨m, now, fails, rfl, hreq⟩ | ⟨m, now, fails, x, v, frame,
    rfl, -, hx, hmem, hv, hd⟩ |
    ⟨hquiet, hd⟩
  · exact ho.requested hreq hcreated
  · refine ho.keep ?_ ?_ hcreated ?_
    · rw [hd]
      exact ⟨ho.sane.workers.insert (hv.ok hx), ho.sane.full.insert hv.full⟩
    · rw [hd]
    · rw [hd]
      exact (tickets_connected hv hmem).le
  · refine ho.keep hd.sane hd.nextJobId ?_ hd.tickets
    rw [hcreated, growth_of_ne]
    · rfl
    · rintro m now fails rfl
      exact hquiet

/-- **Every run is orderly.** -/
theorem orderly_of_reach {nJobTypes workerCount : ℕ} {ok : World → Event → Prop} {es : List Event}
    (h : Reach World.step ok (.init nJobTypes workerCount) es w) : Orderly w :=
  h.invariant (P := fun _ w => Orderly w) (.init _ _) fun _ _ _ _ _ ih _ hs => ih.step hs

/-- Before `2 ^ 32` jobs were created, no job is handed to a worker that has one under its id. -/
theorem Orderly.roundFresh (ho : Orderly w) (hc : w.created ≤ 2 ^ 32) (clock : Str → ℤ) :
    ∀ p ∈ rounds clock { w.del with jobQueue := [] } w.del.jobQueue, RoundFresh p := by
  have hids := ho.ids hc
  rw [← tickets_onPoll w.del] at hids
  exact roundFresh_of_nodup (d := { w.del with jobQueue := [] }) ho.sane.workers clock hids

end Stateline
