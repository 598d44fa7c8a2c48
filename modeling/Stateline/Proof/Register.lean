import Stateline.Proof.Agree

/-!
# The register of workers

What the delegator does to its register of workers when it handles an event, in any state and
whatever the event (`Turnover`): a worker connects, answers or leaves, or the workers stay as
they are but for their jobs.

* `handle_turnover`: the cases, for every event that is handled.
* `pollLoop_same`: the rounds of a poll only move jobs.
* `Delegator.next`: a step of the delegator alone; `keyed_of_reach` holds in each of its runs.
-/

namespace Stateline

open Std Lib

namespace Delegator

variable {d d' d₁ : Delegator} {e : Event} {m : Message} {x : Str} {out : List Send} {now : ℤ}
    {es : List Event} {nJobTypes c₀ : ℕ}

/-- The delegator after an event. There is no next state when the handler fails. -/
def next (d : Delegator) (e : Event) : Option Delegator :=
  match d.handle e with
  | .ok (d', _) => some d'
  | .error _ => none

theorem next_eq_some (h : d.next e = some d') : ∃ out, d.handle e = .ok (d', out) := by
  unfold next at h
  split at h
  · rename_i d₁ out hrun
    injection h with h
    exact ⟨out, h ▸ hrun⟩
  · cases h

/-! ## The same workers -/

/-- A worker without its jobs. -/
def Worker.idle (w : Worker) : Worker := { w with workInProgress := ∅ }

/-- The same workers are connected; their jobs may differ. -/
structure SameWorkers (d d' : Delegator) : Prop where
  idle : ∀ x : Str, d'.workers[x]?.map Worker.idle = d.workers[x]?.map Worker.idle
  size : d'.workers.size = d.workers.size
  count : d'.workerCount = d.workerCount

namespace SameWorkers

theorem refl (d : Delegator) : SameWorkers d d := ⟨fun _ => rfl, rfl, rfl⟩

theorem of_eq (hw : d'.workers = d.workers) (hc : d'.workerCount = d.workerCount) : SameWorkers d d' :=
  ⟨fun _ => by rw [hw], by rw [hw], hc⟩

theorem trans (h : SameWorkers d d₁) (h' : SameWorkers d₁ d') : SameWorkers d d' :=
  ⟨fun x => (h'.idle x).trans (h.idle x), h'.size.trans h.size, h'.count.trans h.count⟩

/-- A worker of the one is a worker of the other, but for its jobs. -/
theorem find (h : SameWorkers d d') {w : Worker} (hw : d'.workers[x]? = some w) :
    ∃ v, d.workers[x]? = some v ∧ v.idle = w.idle := by
  have hx := h.idle x
  rw [hw] at hx
  exact Option.map_eq_some_iff.1 hx.symm

/-- The jobs of one worker change. -/
theorem replace {w w' : Worker} (hw : d.workers[x]? = some w) (hi : w'.idle = w.idle)
    (hd : d'.workers = d.workers.insert x w') (hc : d'.workerCount = d.workerCount) :
    SameWorkers d d' := by
  refine ⟨?_, ?_, hc⟩
  · intro y
    rw [hd, getElem?_insert_eq]
    split
    · rename_i hxy
      rw [← hxy, hw, Option.map_some, Option.map_some, hi]
    · rfl
  · have hmem : x ∈ d.workers := mem_iff_getElem?.2 ⟨w, hw⟩
    rw [hd, ExtTreeMap.size_insert, if_pos (ExtTreeMap.mem_iff_contains.1 hmem)]

theorem keyed (h : SameWorkers d d') (hd : Keyed d) : Keyed d' := by
  intro x w hw
  obtain ⟨v, hv, hidle⟩ := h.find hw
  have haddr : v.idle.address = w.idle.address := by rw [hidle]
  show w.idle.address.head? = some x
  rw [← haddr]
  exact hd x v hv

end SameWorkers

/-- A dispatch that returns only moves a job. -/
theorem dispatch_same {clock : Str → ℤ} {fails : Str → Bool} {i : Job} (hd : Keyed d)
    (h : d.dispatch clock fails x i = .ok (d', out)) : SameWorkers d d' := by
  obtain ⟨w, data, hw, -, -, rfl⟩ := dispatch_eq_ok (fun w hw => hd x w hw) h
  refine .replace hw ?_ rfl rfl
  rfl

/-- **The rounds of a poll** only move jobs. -/
theorem pollLoop_same {clock : Str → ℤ} {fails : Str → Bool} {n : ℕ} {js : List Job} (hd : Keyed d)
    (h : pollLoop clock fails n d js = .ok (d', out)) : SameWorkers d d' := by
  refine pollLoop_returned (P := fun d _ d' _ => Keyed d → SameWorkers d d') ?_ ?_ ?_ h hd
  · exact fun d _ => .refl d
  · intro d i js d' out ih hd
    have hsame : SameWorkers d { d with jobQueue := d.jobQueue ++ [i] } := .of_eq rfl rfl
    exact hsame.trans (ih hd)
  · intro d d₁ d' i js x out out' h₁ ih hd
    have hsame := dispatch_same hd h₁
    exact hsame.trans (ih (hsame.keyed hd))

/-! ## What an event does -/

/-- The event is neither the HELLO of a worker that is not connected, nor the RESULT of one
that is. -/
def Quiescent (d : Delegator) : Event → Prop
  | .recv .network m _ _ => ∀ x, m.address.head? = some x →
      (m.subject = .hello → x ∈ d.workers) ∧ (m.subject = .result → x ∉ d.workers)
  | _ => True

/-- **What an event does to the register of workers.** -/
inductive Turnover (d : Delegator) : Event → Delegator → Prop
  /-- A worker connects. -/
  | connects {m : Message} {now : ℤ} {fails : Bool} {x frame : Str} {w : Worker} :
    m.subject = .hello → m.address.head? = some x → x ∉ d.workers → Fresh d m frame w →
      Turnover d (.recv .network m now fails)
        { d with workers := d.workers.insert x w, workerCount := (d.workerCount + 1) % 2 ^ 32 }
  /-- A worker answers, and its job is timed. -/
  | answers {m : Message} {now : ℤ} {fails : Bool} {x jobID : Str} {w w' : Worker}
      {b : CircularBuffer ℕ} {requests : ExtTreeMap Str Request} :
    m.subject = .result → m.address.head? = some x → d.workers[x]? = some w →
      m.data.head? = some jobID → w'.address = w.address → w'.jobTypesRange = w.jobTypesRange →
      w.times[(w.jobFor jobID).type]? = some b →
      w'.times = w.times.insert (w.jobFor jobID).type (b.pushBack (w.timeSpent jobID now)) →
      Turnover d (.recv .network m now fails) { d with workers := d.workers.insert x w', requests }
  /-- A worker leaves. -/
  | leaves {e : Event} {x : Str} {d' : Delegator} :
    Quiescent d e → x ∈ d.workers → d'.workers = d.workers.erase x →
      d'.workerCount = (d.workerCount + 2 ^ 32 - 1) % 2 ^ 32 → Turnover d e d'
  /-- The workers stay. -/
  | same {e : Event} {d' : Delegator} : Quiescent d e → SameWorkers d d' → Turnover d e d'

/-- `disconnectWorker` removes one worker, or none. -/
theorem disconnectWorker_turnover (hq : Quiescent d e) (h : d.disconnectWorker m = .ok d') :
    Turnover d e d' := by
  obtain ⟨x, hfront, -⟩ := bind_eq_ok h
  rcases disconnectWorker_eq_ok (head?_of_front hfront) h with ⟨-, rfl⟩ | ⟨w, hw, rfl⟩
  · exact .same hq (.refl _)
  · exact .leaves hq (mem_iff_getElem?.2 ⟨w, hw⟩) rfl rfl

/-- A message from the network that is neither a HELLO nor a RESULT. -/
theorem quiescent_of_subject {fails : Bool} (hello : m.subject ≠ .hello)
    (result : m.subject ≠ .result) : Quiescent d (.recv .network m now fails) :=
  fun _ _ => ⟨fun h => absurd h hello, fun h => absurd h result⟩

/-- **The cases**, for every event that is handled. -/
theorem handle_turnover (hd : Keyed d) (h : d.handle e = .ok (d', out)) : Turnover d e d' := by
  cases e with
  | poll clock fails =>
    have hemptied : SameWorkers d { d with jobQueue := [] } := .of_eq rfl rfl
    exact .same trivial (hemptied.trans (pollLoop_same (hemptied.keyed hd) h))
  | recv sock m now fails =>
    simp only [handle] at h
    split at h
    · -- a request
      obtain ⟨d₁, hrun, h⟩ := bind_eq_ok h
      obtain ⟨rfl, -⟩ := ok_pair_inj h
      exact .same trivial (.of_eq (receiveRequest_keys hrun).1 (receiveRequest_keys hrun).2)
    · rename_i hsub
      obtain ⟨x, hx, -⟩ := bind_eq_ok h
      have hx := head?_of_front hx
      obtain ⟨-, ⟨hmem, rfl⟩ | ⟨hmem, w, frame, hw, rfl⟩⟩ := newWorker_eq_ok hx h
      · -- the worker is connected already
        refine .same ?_ (.refl _)
        intro y hy
        rw [hx] at hy
        cases hy
        exact ⟨fun _ => hmem, fun hh => absurd (hsub.symm.trans hh) (by decide)⟩
      · exact .connects hsub hx hmem hw
    · rename_i hsub
      obtain ⟨x, hx, -, ⟨hnone, rfl⟩ | ⟨w, w', i, requests, hw, hi, haddr, -, hrange, ⟨b, hb, htimes⟩,
        rfl⟩⟩ := receiveResult_eq_ok h
      · refine .same ?_ (.refl _)
        intro y hy
        rw [hx] at hy
        cases hy
        exact ⟨fun hh => absurd (hsub.symm.trans hh) (by decide), fun _ => by simpa using hnone⟩
      · exact .answers hsub hx hw hi haddr hrange hb htimes
    · rename_i hsub
      obtain ⟨rfl, -⟩ := ok_pair_inj h
      exact .same (quiescent_of_subject (by simp [hsub]) (by simp [hsub])) (.refl _)
    · cases h
    · split at h
      · obtain ⟨d₁, hrun, h⟩ := bind_eq_ok h
        obtain ⟨rfl, -⟩ := ok_pair_inj h
        exact disconnectWorker_turnover trivial hrun
      · obtain ⟨rfl, -⟩ := ok_pair_inj h
        exact .same trivial (.refl _)
    · obtain ⟨d₁, hrun, h⟩ := bind_eq_ok h
      obtain ⟨rfl, -⟩ := ok_pair_inj h
      exact disconnectWorker_turnover trivial hrun
    · cases h

theorem Turnover.keyed (h : Turnover d e d') (hd : Keyed d) : Keyed d' := by
  cases h with
  | connects _ hx _ hw => exact hd.insert (by rw [hw.address]; exact hx)
  | answers _ _ hw _ haddr _ _ _ => exact (hd.replace hw haddr).1
  | leaves _ _ hworkers _ =>
    unfold Keyed
    rw [hworkers]
    exact hd.erase
  | same _ hsame => exact hsame.keyed hd

/-- **The workers are kept under their identities** in every run. -/
theorem keyed_of_reach (h : Reach next (fun _ _ => True) (init nJobTypes c₀) es d) : Keyed d := by
  refine h.invariant (P := fun _ d => Keyed d) All.empty ?_
  intro es d e d' _ hd _ hs
  obtain ⟨out, hrun⟩ := next_eq_some hs
  exact (handle_turnover hd hrun).keyed hd

end Delegator

end Stateline
