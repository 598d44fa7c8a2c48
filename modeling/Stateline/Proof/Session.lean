import Stateline.Comms.Session
import Stateline.Proof.Framing
import Stateline.Proof.Register

/-!
# Sessions

The router of the worker has a callback for a HELLO and a RESULT of the program, but none
for a GOODBYE.

* `dispatched_frames`: what the router calls, for each socket and subject.
* `Inv`: what waits at the worker, and where what the program said is. `inv_step`: every
  step keeps it.
* `served_iff`: **a session is served exactly as long as the program does not say GOODBYE.**
* `goodbye_unserved`: a GOODBYE ends the router, and the delegator never reads it.
-/

namespace Stateline

open Std Lib

/-! ## The router of the worker -/

namespace Relay.Worker

/-- What is bound for a subject at a socket. -/
def bound : Sock → Subject → Option Callback
  | .minion, .result => some .onResultFromMinion
  | .minion, .hello => some .forwardToNetwork
  | .heartbeat, .heartbeat => some .forwardToNetwork
  | .heartbeat, .goodbye => some .disconnect
  | .network, .job => some .onJobFromNetwork
  | .network, .heartbeat => some .forwardToHB
  | .network, .hello => some .forwardToHB
  | .network, .goodbye => some .forwardToHB
  | _, _ => none

/-- A message as the channels carry it: without an address, and with data that is sent. -/
def Plain (m : Message) : Prop := m.address = [] ∧ ¬ Socket.Dropped m.data

/-- **What the router calls** with a message: what is bound for its subject, and an empty function if
there is nothing. -/
theorem dispatched_frames {m : Message} (hm : Plain m) (sock : Sock) :
    dispatched sock (Socket.send m.raw) =
      match bound sock m.subject with
      | some f => .ok (⟨sock.index, m.subject, f⟩, m.raw)
      | none => .error .exception := by
  have hread : Socket.receive (Socket.send m.raw) = .ok m.raw := by
    refine ((Socket.framed_iff ?_).2 hm.2).1
    intro a ha
    rw [hm.1] at ha
    cases ha
  obtain ⟨address, subject, data⟩ := m
  unfold dispatched SocketRouter.dispatch
  rw [hread]
  cases sock <;> cases subject <;> rfl

end Relay.Worker

/-! ## The delegator -/

namespace Session

open Delegator
open Relay.Worker (Plain bound dispatched dispatched_frames)

variable {nJobTypes workerCount : ℕ} {x : Str} {d d' : Delegator} {e : Event}

/-- The delegator reaches the worker at its own identity alone. -/
def Reachable (x : Str) (d : Delegator) : Prop := ∀ w : Worker, d.workers[x]? = some w → w.address = [x]

/-- A message that the delegator may send to the worker. -/
def Expected (m : Message) : Prop := Plain m ∧ (m.subject = .job ∨ m.subject = .heartbeat)

/-- The event is not one of the worker, unless it has its identity and nothing else in front. -/
def Named (x : Str) : Event → Prop
  | .recv .network m _ _ => m.address.head? = some x → m.address = [x]
  | .recv .heartbeat m _ _ => (∃ y, m.address = [y]) ∧ m.data = []
  | _ => True

theorem Reachable.same (h : SameWorkers d d') (hd : Reachable x d) : Reachable x d' := by
  intro w hw
  obtain ⟨v, hv, hidle⟩ := h.find hw
  have haddr : v.idle.address = w.idle.address := by rw [hidle]
  rw [show w.address = v.address from haddr.symm]
  exact hd v hv

/-- An event keeps the address of the worker. -/
theorem Reachable.event (h : Turnover d e d') (he : Named x e) (hd : Reachable x d) :
    Reachable x d' := by
  cases h with
  | connects _ hx _ hw =>
    intro v hv
    rw [getElem?_insert_eq] at hv
    split at hv
    · rename_i heq
      injection hv with hv
      rw [← hv, hw.address]
      exact he (heq ▸ hx)
    · exact hd v hv
  | answers _ _ hw _ haddr _ _ _ =>
    intro v hv
    rw [getElem?_insert_eq] at hv
    split at hv
    · rename_i heq
      injection hv with hv
      rw [← hv, haddr]
      exact hd _ (heq ▸ hw)
    · exact hd v hv
  | leaves _ _ hworkers _ =>
    intro v hv
    rw [hworkers, getElem?_erase_eq] at hv
    split at hv
    · cases hv
    · exact hd v hv
  | same _ hsame => exact hd.same hsame

/-- A round of the poll sends a JOB. -/
theorem dispatch_expected {clock : Str → ℤ} {fails : Str → Bool} {y : Str} {i : Job} {out : List Send}
    (hd : Keyed d) (hx : Reachable x d) (h : d.dispatch clock fails y i = .ok (d', out)) :
    SameWorkers d d' ∧ ∀ m ∈ Net.arriving out x, Expected m := by
  refine ⟨dispatch_same hd h, ?_⟩
  obtain ⟨w, data, hw, -, rfl, -⟩ := dispatch_eq_ok (fun w hw => hd y w hw) h
  intro m hm
  obtain ⟨s, hs, rfl⟩ := List.mem_map.1 hm
  obtain ⟨hs, hto⟩ := List.mem_filter.1 hs
  rw [List.mem_singleton] at hs
  subst hs
  have hhead : w.address.head? = some x := (of_decide_eq_true hto).2
  have hy : y = x := Option.some.inj ((hd y w hw).symm.trans hhead)
  subst hy
  exact ⟨⟨by rw [hx w hw]; rfl,
    fun hdrop => absurd (show 3 % 2 ^ 32 = 0 from hdrop.2) (by decide)⟩, .inl rfl⟩

/-- **What the delegator sends to the worker** are JOBs and HEARTBEATs. -/
theorem handle_expected {out : List Send} (hd : Keyed d) (hx : Reachable x d) (he : Named x e)
    (h : d.handle e = .ok (d', out)) : ∀ m ∈ Net.arriving out x, Expected m := by
  cases e with
  | poll clock fails =>
    refine pollLoop_returned
      (P := fun d _ _ out => Keyed d → Reachable x d → ∀ m ∈ Net.arriving out x, Expected m)
      ?_ ?_ ?_ h hd hx
    · intro d _ _ m hm
      cases hm
    · intro d i js d' out ih hd hx
      exact ih hd hx
    · intro d d₁ d' i js y out out' h₁ ih hd hx m hm
      obtain ⟨hsame, hsends⟩ := dispatch_expected hd hx h₁
      rw [Net.arriving_append] at hm
      rcases List.mem_append.1 hm with hm | hm
      · exact hsends m hm
      · exact ih (hsame.keyed hd) (hx.same hsame) m hm
  | recv sock m now fails =>
    -- nothing for the network
    have hnone : (∀ s ∈ out, s.sock ≠ .network) → ∀ m ∈ Net.arriving out x, Expected m := by
      intro hother m hm
      obtain ⟨s, hs, -⟩ := List.mem_map.1 hm
      obtain ⟨hs, hto⟩ := List.mem_filter.1 hs
      exact absurd (of_decide_eq_true hto).1 (hother s hs)
    simp only [handle] at h
    split at h
    · obtain ⟨d₁, -, h⟩ := bind_eq_ok h
      obtain ⟨-, rfl⟩ := ok_pair_inj h
      exact hnone (List.forall_mem_nil _)
    · obtain ⟨y, hy, -⟩ := bind_eq_ok h
      rw [(newWorker_eq_ok (head?_of_front hy) h).1] at hnone ⊢
      exact hnone (by simp)
    · obtain ⟨y, -, hout, -⟩ := receiveResult_eq_ok h
      refine hnone ?_
      intro s hs
      rw [hout s hs]
      decide
    · obtain ⟨-, rfl⟩ := ok_pair_inj h
      exact hnone (by simp)
    · cases h
    · rename_i hsub
      split at h
      · obtain ⟨d₁, -, h⟩ := bind_eq_ok h
        obtain ⟨-, rfl⟩ := ok_pair_inj h
        exact hnone (List.forall_mem_nil _)
      · -- a HEARTBEAT of the heartbeat thread
        obtain ⟨-, rfl⟩ := ok_pair_inj h
        obtain ⟨⟨y, hy⟩, hdata⟩ := he
        intro m' hm'
        obtain ⟨s, hs, rfl⟩ := List.mem_map.1 hm'
        obtain ⟨hs, -⟩ := List.mem_filter.1 hs
        rw [List.mem_singleton.1 hs]
        exact ⟨⟨by rw [hy]; rfl, fun hdrop => hdrop.1 hdata⟩, .inr hsub⟩
    · obtain ⟨d₁, -, h⟩ := bind_eq_ok h
      obtain ⟨-, rfl⟩ := ok_pair_inj h
      exact hnone (List.forall_mem_nil _)
    · cases h

/-- What the delegator should make of a GOODBYE of the worker: it puts the jobs in progress at the
worker on its queue, and forgets the worker. -/
def Requeues (x : Str) (d : Delegator) : Prop :=
  ∀ now fails, ∃ d' out, d.handle (.recv .network ⟨[x], .goodbye, []⟩ now fails) = .ok (d', out) ∧
    x ∉ d'.workers ∧
    ∀ w : Worker, d.workers[x]? = some w →
      d'.jobQueue = (vals w.workInProgress).reverse ++ d.jobQueue

/-- Its callback does nothing of the kind. -/
theorem not_requeues (x : Str) (d : Delegator) : ¬ Requeues x d := by
  intro h
  obtain ⟨d', out, hrun, -⟩ := h 0 false
  rw [handle_networkGoodbye (e := .recv .network ⟨[x], .goodbye, []⟩ 0 false) rfl] at hrun
  cases hrun

/-! ## The run -/

/-- A message of the program. -/
def FromProgram (m : Message) : Prop :=
  Plain m ∧ (m.subject = .hello ∨ m.subject = .result ∨ m.subject = .goodbye)

/-- Of what the worker sent, what is not from its heartbeat thread. -/
def fromProgram (ms : List Message) : List Message := ms.filter fun m => m.subject ≠ .heartbeat

/-- The router runs, and what the program said was sent or waits to be read; or the router met a
GOODBYE. -/
inductive Progress (s : Session) : Prop
  | running {l : List Message} : s.client = .running → s.atWorker .minion = l.map frames →
      s.said = fromProgram s.sent ++ l → Progress s
  | failed {m : Message} : s.client = .failed .exception → m ∈ s.said → m.subject = .goodbye →
      Progress s

/-- **The invariant.** -/
structure Inv (x : Str) (s : Session) : Prop where
  keyed : Keyed s.del
  reachable : Reachable x s.del
  atHeartbeat : ∀ fs ∈ s.atWorker .heartbeat, fs = frames beat
  atNetwork : ∀ fs ∈ s.atWorker .network, ∃ m, Expected m ∧ fs = frames m
  said : ∀ m ∈ s.said, FromProgram m
  sent : ∀ m ∈ s.sent, m.subject ≠ .goodbye
  addressed : ∀ m ∈ s.toDel, m.address = []
  toDel : s.toDel <:+ s.sent
  progress : Progress s

variable {s s' : Session} {m : Message}

/-- Nothing that counts has changed. -/
theorem Progress.of_eq (h : Progress s) (hc : s'.client = s.client)
    (hw : s'.atWorker .minion = s.atWorker .minion) (hsaid : s'.said = s.said)
    (hsent : s'.sent = s.sent) : Progress s' := by
  cases h with
  | running hrun hwait hall =>
    exact .running (hc.trans hrun) (hw.trans hwait) (by rw [hsaid, hsent, hall])
  | failed hfail hm hbye => exact .failed (hc.trans hfail) (hsaid ▸ hm) hbye

theorem Inv.init (x : Str) (nJobTypes workerCount : ℕ) : Inv x (init nJobTypes workerCount) := by
  refine ⟨All.empty, ?_, ?_, ?_, ?_, ?_, ?_, List.suffix_refl _, .running rfl (l := []) rfl rfl⟩
  · intro w hw
    simp [Session.init, Delegator.init] at hw
  all_goals
    intro m hm
    cases hm

/-- What the program says waits behind the rest. -/
theorem say_waiting (s : Session) (m : Message) (program : Program) :
    (s.say m program).atWorker .minion = s.atWorker .minion ++ [frames m] := rfl

/-- The program says something. -/
theorem inv_say {program : Program} (hi : Inv x s) (hm : FromProgram m) : Inv x (s.say m program) := by
  refine ⟨hi.keyed, hi.reachable, hi.atHeartbeat, hi.atNetwork, ?_, hi.sent, hi.addressed, hi.toDel, ?_⟩
  · intro m' hm'
    rcases List.mem_append.1 hm' with hm' | hm'
    · exact hi.said m' hm'
    · rw [List.mem_singleton.1 hm']
      exact hm
  · cases hi.progress with
    | @running ms hc hwait hsaid =>
      refine .running (l := ms ++ [m]) hc ?_ ?_
      · rw [say_waiting, hwait, List.map_append]
        rfl
      · show s.said ++ [m] = _
        rw [hsaid, List.append_assoc]
        rfl
    | @failed m' hc hm' hbye => exact .failed hc (List.mem_append_left _ hm') hbye

/-- A callback of the delegator. -/
theorem inv_afterDel {e : Event} (hi : Inv x s) (he : Named x e)
    (hs : s.afterDel x (s.del.handle e) = some s') : Inv x s' := by
  unfold afterDel at hs
  split at hs
  · rename_i del out hrun
    injection hs with hs
    subst hs
    have hturn := handle_turnover hi.keyed hrun
    refine ⟨hturn.keyed hi.keyed, hi.reachable.event hturn he, hi.atHeartbeat, ?_, hi.said, hi.sent,
      hi.addressed, hi.toDel, hi.progress.of_eq rfl rfl rfl rfl⟩
    intro fs hfs
    rcases List.mem_append.1 hfs with hfs | hfs
    · exact hi.atNetwork fs hfs
    · obtain ⟨m, hm, rfl⟩ := List.mem_map.1 hfs
      exact ⟨m, handle_expected hi.keyed hi.reachable he hrun m hm, rfl⟩
  · cases hs

/-! ## The worker -/

/-- What a callback sends to the delegator. -/
theorem call_sent {w w' : Relay.Worker} {f : Relay.Worker.Callback} {out : List Relay.Send}
    (hm : m.address = []) (h : w.call m f = some (w', out)) :
    Relay.sends .network out =
      if f = .onResultFromMinion ∨ f = .forwardToNetwork then [m] else [] := by
  cases f with
  | onResultFromMinion =>
    injection h with h
    unfold Relay.Worker.onResultFromMinion at h
    split at h
    · cases h
      rfl
    · cases h
      rfl
  | onJobFromNetwork =>
    injection h with h
    unfold Relay.Worker.onJobFromNetwork at h
    split at h
    · cases h
      rfl
    · cases h
      rfl
  | forwardToHB =>
    cases h
    rfl
  | forwardToNetwork =>
    cases h
    show [(⟨[], m.subject, m.data⟩ : Message)] = [m]
    rw [← hm]
  | disconnect => cases h

/-- **What a round of the router does** with a message that waits. -/
theorem read_eq {sock : Relay.Sock} {rest : List (List Str)} (hm : Plain m)
    (hc : s.client = .running) (hwait : s.atWorker sock = frames m :: rest) :
    s.step x (.read sock) =
      let s₁ := { s with atWorker := Function.update s.atWorker sock rest }
      match bound sock m.subject with
      | some f => some (s₁.afterWorker (s.worker.call m f))
      | none => some { s₁ with client := .failed .exception } := by
  unfold step
  simp only [hc, hwait]
  unfold frames
  rw [dispatched_frames hm sock]
  cases bound sock m.subject <;> rfl

/-- The worker read something, and sent `l` to the delegator. -/
theorem inv_afterWorker {w' : Relay.Worker} {out : List Relay.Send} {l : List Message}
    {sock : Relay.Sock} {fs : List Str} {rest : List (List Str)} (hi : Inv x s)
    (hwait : s.atWorker sock = fs :: rest) (hl : Relay.sends .network out = l)
    (hsent : ∀ m ∈ l, m.address = [] ∧ m.subject ≠ .goodbye)
    (hp : Progress ({ s with atWorker := Function.update s.atWorker sock rest }.afterWorker
      (some (w', out)))) :
    Inv x ({ s with atWorker := Function.update s.atWorker sock rest }.afterWorker
      (some (w', out))) := by
  have hsub : ∀ sock', ∀ gs ∈ Function.update s.atWorker sock rest sock', gs ∈ s.atWorker sock' := by
    intro sock' gs hgs
    by_cases he : sock' = sock
    · subst he
      rw [Function.update_self] at hgs
      rw [hwait]
      exact List.mem_cons_of_mem _ hgs
    · rwa [Function.update_of_ne he] at hgs
  refine ⟨hi.keyed, hi.reachable, fun gs hgs => hi.atHeartbeat gs (hsub _ gs hgs),
    fun gs hgs => hi.atNetwork gs (hsub _ gs hgs), hi.said, ?_, ?_, ?_, hp⟩
  · intro m hm
    rcases List.mem_append.1 hm with hm | hm
    · exact hi.sent m hm
    · exact (hsent m (hl ▸ hm)).2
  · intro m hm
    rcases List.mem_append.1 hm with hm | hm
    · exact hi.addressed m hm
    · exact (hsent m (hl ▸ hm)).1
  · obtain ⟨done, hdone⟩ := hi.toDel
    exact ⟨done, by rw [← hdone]; exact (List.append_assoc _ _ _).symm⟩

theorem call_eq_some (w : Relay.Worker) (m : Message) {f : Relay.Worker.Callback}
    (hf : f ≠ .disconnect) : ∃ w' out, w.call m f = some (w', out) := by
  cases f with
  | disconnect => exact absurd rfl hf
  | _ => exact ⟨_, _, rfl⟩

theorem fromProgram_append (ms ms' : List Message) :
    fromProgram (ms ++ ms') = fromProgram ms ++ fromProgram ms' := List.filter_append _ _

/-- The router reads a message of the program: it sends it to the delegator, unless it is a
GOODBYE. -/
theorem inv_fromProgram {rest : List (List Str)} {ms : List Message} (hi : Inv x s)
    (hc : s.client = .running) (hwait : s.atWorker .minion = frames m :: rest)
    (hrest : rest = ms.map frames) (hsaid : s.said = fromProgram s.sent ++ m :: ms)
    (hs : s.step x (.read .minion) = some s') : Inv x s' := by
  have hmem : m ∈ s.said := by
    rw [hsaid]
    exact List.mem_append_right _ List.mem_cons_self
  obtain ⟨hm, hsub⟩ := hi.said m hmem
  rw [read_eq hm hc hwait] at hs
  dsimp only at hs
  -- a callback that forwards what it reads
  have forward : ∀ f, bound .minion m.subject = some f →
      f = .onResultFromMinion ∨ f = .forwardToNetwork → m.subject ≠ .goodbye →
      m.subject ≠ .heartbeat → Inv x s' := by
    intro f hf hsends hbye hbeat
    rw [hf] at hs
    obtain ⟨w', out, hcall⟩ := call_eq_some s.worker m (f := f) (by rintro rfl; simp at hsends)
    simp only [hcall, Option.some.injEq] at hs
    have hl := call_sent hm.1 hcall
    rw [if_pos hsends] at hl
    subst hs
    refine inv_afterWorker hi hwait hl ?_ (.running (l := ms) hc ?_ ?_)
    · intro m' hm'
      rw [List.mem_singleton.1 hm']
      exact ⟨hm.1, hbye⟩
    · show Function.update s.atWorker .minion rest .minion = _
      rw [Function.update_self, hrest]
    · show s.said = fromProgram (s.sent ++ Relay.sends .network out) ++ ms
      rw [hl, fromProgram_append, hsaid, List.append_assoc]
      unfold fromProgram
      rw [List.filter_cons_of_pos (by simpa using hbeat)]
      rfl
  rcases hsub with hsub | hsub | hsub
  · exact forward .forwardToNetwork (by rw [hsub]; rfl) (.inr rfl) (by simp [hsub]) (by simp [hsub])
  · exact forward .onResultFromMinion (by rw [hsub]; rfl) (.inl rfl) (by simp [hsub]) (by simp [hsub])
  · -- nothing is bound for a GOODBYE
    rw [hsub] at hs
    simp only [bound, Option.some.injEq] at hs
    subst hs
    exact ⟨hi.keyed, hi.reachable, hi.atHeartbeat, hi.atNetwork, hi.said, hi.sent, hi.addressed,
      hi.toDel, .failed rfl hmem hsub⟩

/-- The router reads a message of its heartbeat thread or of the delegator. -/
theorem inv_fromOthers {sock : Relay.Sock} {rest : List (List Str)} {f : Relay.Worker.Callback}
    (hi : Inv x s) (hsock : sock ≠ .minion) (hc : s.client = .running)
    (hwait : s.atWorker sock = frames m :: rest) (hm : Plain m) (hf : bound sock m.subject = some f)
    (hexit : f ≠ .disconnect)
    (hbeat : f = .onResultFromMinion ∨ f = .forwardToNetwork → m.subject = .heartbeat)
    (hs : s.step x (.read sock) = some s') : Inv x s' := by
  rw [read_eq hm hc hwait] at hs
  dsimp only at hs
  rw [hf] at hs
  obtain ⟨w', out, hcall⟩ := call_eq_some s.worker m hexit
  simp only [hcall, Option.some.injEq] at hs
  have hl := call_sent hm.1 hcall
  subst hs
  cases hi.progress with
  | failed hfailed _ _ =>
    rw [hc] at hfailed
    cases hfailed
  | @running ms _ hminion hsaid =>
    refine inv_afterWorker hi hwait hl ?_ (.running (l := ms) hc ?_ ?_)
    · intro m' hm'
      split at hm'
      · rename_i hsends
        rw [List.mem_singleton.1 hm', hbeat hsends]
        exact ⟨hm.1, by decide⟩
      · cases hm'
    · show Function.update s.atWorker sock rest .minion = _
      rw [Function.update_of_ne hsock.symm, hminion]
    · show s.said = fromProgram (s.sent ++ Relay.sends .network out) ++ ms
      rw [hl, fromProgram_append, hsaid]
      split
      · rename_i hsends
        simp [fromProgram, hbeat hsends]
      · simp [fromProgram]

/-- **A round of the router.** -/
theorem inv_read {sock : Relay.Sock} (hi : Inv x s) (hs : s.step x (.read sock) = some s') :
    Inv x s' := by
  have hrun : s.client = .running ∧ ∃ fs rest, s.atWorker sock = fs :: rest := by
    unfold step at hs
    dsimp only at hs
    split at hs
    · rename_i fs rest hc hwait
      exact ⟨hc, fs, rest, hwait⟩
    · cases hs
  obtain ⟨hc, fs, rest, hwait⟩ := hrun
  have hmem : fs ∈ s.atWorker sock := by
    rw [hwait]
    exact List.mem_cons_self
  cases sock with
  | minion =>
    cases hi.progress with
    | failed hfailed _ _ =>
      rw [hc] at hfailed
      cases hfailed
    | @running ms _ hminion hsaid =>
      rw [hwait] at hminion
      cases ms with
      | nil => cases hminion
      | cons m ms =>
        obtain ⟨rfl, hrest⟩ := List.cons_eq_cons.1 hminion
        exact inv_fromProgram hi hc hwait hrest hsaid hs
  | heartbeat =>
    obtain rfl := hi.atHeartbeat fs hmem
    have hplain : Plain beat := ⟨rfl, fun hdrop => hdrop.1 rfl⟩
    exact inv_fromOthers hi (by decide) hc hwait hplain rfl (by decide) (fun _ => rfl) hs
  | network =>
    obtain ⟨m, ⟨hm, hsub⟩, rfl⟩ := hi.atNetwork fs hmem
    rcases hsub with hsub | hsub
    · exact inv_fromOthers hi (by decide) hc hwait hm (f := .onJobFromNetwork) (by rw [hsub]; rfl)
        (by decide) (by simp) hs
    · exact inv_fromOthers hi (by decide) hc hwait hm (f := .forwardToHB) (by rw [hsub]; rfl)
        (by decide) (by simp) hs

/-! ## Runs -/

/-- **A step keeps the invariant.** -/
theorem inv_step {a : Act} (hi : Inv x s) (ha : Admissible x a) (hs : s.step x a = some s') :
    Inv x s' := by
  have hplain : ∀ subject data, data.length < 3 → Plain ⟨[], subject, data⟩ := by
    intro subject data hlen
    refine ⟨rfl, fun hdrop => hdrop.1 (List.eq_nil_of_length_eq_zero ?_)⟩
    have hmod := hdrop.2
    show data.length = 0
    dsimp only at hmod
    omega
  cases a with
  | hello jobs =>
    simp only [step] at hs
    split at hs
    · injection hs with hs
      subst hs
      exact inv_say hi ⟨hplain _ _ (by simp), .inl rfl⟩
    · cases hs
  | receive =>
    simp only [step] at hs
    split at hs
    · split at hs
      · injection hs with hs
        subst hs
        exact ⟨hi.keyed, hi.reachable, hi.atHeartbeat, hi.atNetwork, hi.said, hi.sent, hi.addressed,
          hi.toDel, hi.progress.of_eq rfl rfl rfl rfl⟩
      · cases hs
    · cases hs
  | result job_result =>
    simp only [step] at hs
    split at hs
    · injection hs with hs
      subst hs
      exact inv_say hi ⟨hplain _ _ (by simp), .inr (.inl rfl)⟩
    · cases hs
  | goodbye =>
    simp only [step] at hs
    have hbye : FromProgram ⟨[], .goodbye, []⟩ := ⟨hplain _ _ (by decide), .inr (.inr rfl)⟩
    split at hs
    · injection hs with hs
      subst hs
      exact inv_say hi hbye
    · injection hs with hs
      subst hs
      exact inv_say hi hbye
    · cases hs
  | heartbeat =>
    injection hs with hs
    subst hs
    refine ⟨hi.keyed, hi.reachable, ?_, hi.atNetwork, hi.said, hi.sent, hi.addressed, hi.toDel,
      hi.progress.of_eq rfl rfl rfl rfl⟩
    intro fs hfs
    rcases List.mem_append.1 hfs with hfs | hfs
    · exact hi.atHeartbeat fs hfs
    · exact List.mem_singleton.1 hfs
  | read sock => exact inv_read hi hs
  | deliver now fails =>
    simp only [step] at hs
    split at hs
    · cases hs
    · rename_i m rest hdel
      have haddr : m.address = [] := hi.addressed m (by rw [hdel]; exact List.mem_cons_self)
      have hrest : Inv x { s with toDel := rest } := by
        refine ⟨hi.keyed, hi.reachable, hi.atHeartbeat, hi.atNetwork, hi.said, hi.sent, ?_, ?_,
          hi.progress.of_eq rfl rfl rfl rfl⟩
        · intro m' hm'
          exact hi.addressed m' (by rw [hdel]; exact List.mem_cons_of_mem _ hm')
        · exact (List.suffix_cons m rest).trans (hdel ▸ hi.toDel)
      refine inv_afterDel (e := .recv .network { m with address := m.address ++ [x] } now fails)
        hrest (fun _ => ?_) hs
      show m.address ++ [x] = [x]
      rw [haddr]
      rfl
  | event e =>
    refine inv_afterDel hi ?_ hs
    cases e with
    | poll clock fails => trivial
    | recv sock m now fails =>
      cases sock with
      | requester => trivial
      | heartbeat => exact ha
      | network => exact fun hhead => absurd hhead ha

/-- **The session is served**: the router runs, and has a callback for everything that waits at the
worker; what the program said was sent to the delegator in its order, or waits to be read; what was
sent arrives there in its order; and if it said GOODBYE, the delegator puts the jobs of the worker
back on the queue. -/
structure Served (x : Str) (s : Session) : Prop where
  running : s.client = .running
  bound : ∀ sock, ∀ fs ∈ s.atWorker sock, ∃ b m, dispatched sock fs = .ok (b, m)
  forwarded : ∃ ms, s.atWorker .minion = ms.map frames ∧ s.said = fromProgram s.sent ++ ms
  arrives : s.toDel <:+ s.sent
  requeues : ∀ m ∈ s.said, m.subject = .goodbye → Requeues x s.del

/-- What has a callback is called. -/
theorem dispatched_of_bound {sock : Relay.Sock} {f : Relay.Worker.Callback} (hm : Plain m)
    (hf : bound sock m.subject = some f) : ∃ b m', dispatched sock (frames m) = .ok (b, m') := by
  unfold frames
  rw [dispatched_frames hm, hf]
  exact ⟨_, _, rfl⟩

theorem Inv.served (hi : Inv x s) (hbye : ∀ m ∈ s.said, m.subject ≠ .goodbye) : Served x s := by
  cases hi.progress with
  | failed _ hm h => exact absurd h (hbye _ hm)
  | @running ms hc hwait hsaid =>
    refine ⟨hc, ?_, ⟨ms, hwait, hsaid⟩, hi.toDel, fun m hm h => absurd h (hbye m hm)⟩
    intro sock fs hfs
    cases sock with
    | minion =>
      rw [hwait] at hfs
      obtain ⟨m, hm, rfl⟩ := List.mem_map.1 hfs
      have hmem : m ∈ s.said := by
        rw [hsaid]
        exact List.mem_append_right _ hm
      obtain ⟨hplain, hsub | hsub | hsub⟩ := hi.said m hmem
      · exact dispatched_of_bound (f := .forwardToNetwork) hplain (by rw [hsub]; rfl)
      · exact dispatched_of_bound (f := .onResultFromMinion) hplain (by rw [hsub]; rfl)
      · exact absurd hsub (hbye m hmem)
    | heartbeat =>
      rw [hi.atHeartbeat fs hfs]
      exact dispatched_of_bound (f := .forwardToNetwork) ⟨rfl, fun hdrop => hdrop.1 rfl⟩ rfl
    | network =>
      obtain ⟨m, ⟨hplain, hsub | hsub⟩, rfl⟩ := hi.atNetwork fs hfs
      · exact dispatched_of_bound (f := .onJobFromNetwork) hplain (by rw [hsub]; rfl)
      · exact dispatched_of_bound (f := .forwardToHB) hplain (by rw [hsub]; rfl)

/-- A GOODBYE is not sent, and nothing is bound for it. -/
theorem Inv.unserved (hi : Inv x s) (hm : m ∈ s.said) (hbye : m.subject = .goodbye) :
    ¬ Served x s := by
  intro h
  obtain ⟨ms, hwait, hsaid⟩ := h.forwarded
  rw [hsaid] at hm
  rcases List.mem_append.1 hm with hm | hm
  · exact hi.sent m (List.mem_filter.1 hm).1 hbye
  · have hplain : Plain m := (hi.said m (by rw [hsaid]; exact List.mem_append_right _ hm)).1
    obtain ⟨b, m', hcall⟩ := h.bound .minion (frames m) (by rw [hwait]; exact List.mem_map_of_mem hm)
    unfold frames at hcall
    rw [dispatched_frames hplain, hbye] at hcall
    cases hcall

/-- **A session is served exactly as long as the program has not said GOODBYE**, in every run,
however its messages, the heartbeats and the events of the delegator are interleaved. -/
theorem served_iff {as : List Act}
    (h : Reach (step x) (fun _ a => Admissible x a) (init nJobTypes workerCount) as s) :
    Served x s ↔ ∀ m ∈ s.said, m.subject ≠ .goodbye := by
  have hi : Inv x s := h.invariant (P := fun _ s => Inv x s) (.init x nJobTypes workerCount)
    fun _ _ _ _ _ hi ha hs => inv_step hi ha hs
  refine ⟨fun hserved m hm hbye => hi.unserved hm hbye hserved, hi.served⟩

/-- A requester asks for one job. -/
def requestOne : Act := .event (.recv .requester ⟨[['r']], .request, [['0'], ['x']]⟩ 0 false)

/-- A poll of the delegator. -/
def pollNow : Act := .event (.poll (fun _ => 0) fun _ => false)

/-- The program says HELLO, which goes to the delegator, and a job comes back. -/
def toJob : List Act :=
  [requestOne, .hello [], .read .minion, .deliver 0 false, pollNow, .read .network]

set_option maxRecDepth 8000 in
theorem toJob_run : ∃ s, Reach (step ['w']) (fun _ a => Admissible ['w'] a) (init 1 0) toJob s ∧
    s.client = .running ∧ s.program = .waiting ∧ s.toProgram = [⟨[], .job, [['0'], ['0'], ['x']]⟩] ∧
    s.atWorker .minion = [] ∧ s.said = [⟨[], .hello, [[]]⟩] ∧ s.sent = [⟨[], .hello, [[]]⟩] ∧
    s.toDel = [] ∧ s.del.jobQueue = [] ∧
    ∃ w, s.del.workers[['w']]? = some w ∧ ['0'] ∈ w.workInProgress := by
  have h : Reach (step ['w']) (fun _ a => Admissible ['w'] a) (init 1 0) [] _ := .start
  have h := h.next' (e := requestOne) trivial (by decide)
  have h := h.next' (e := .hello []) (by exact trivial) (by decide)
  have h := h.next' (e := .read .minion) (by exact trivial) (by decide)
  have h := h.next' (e := .deliver 0 false) (by exact trivial) (by decide)
  have h := h.next' (e := pollNow) trivial (by decide)
  have h := h.next' (e := .read .network) (by exact trivial) (by decide)
  exact ⟨_, h, by decide, by decide, by decide, by decide, by decide, by decide, by decide, by decide,
    _, (Option.some_get (by decide)).symm, by decide⟩

/-- A program that answers its job is served. -/
theorem served_iff_answer : ∃ s, Reach (step ['w']) (fun _ a => Admissible ['w'] a) (init 1 0)
      (toJob ++ [.receive] ++ [.result ['1']] ++ [.read .minion]) s ∧
    s.said = [⟨[], .hello, [[]]⟩, ⟨[], .result, [['0'], ['1']]⟩] ∧ Served ['w'] s := by
  obtain ⟨s, h, hc, hp, hto, hwait, hsaid, -⟩ := toJob_run
  have hget : s.step ['w'] .receive = some { s with program := .working ['0'], toProgram := [] } := by
    simp only [step, hp, hto]
    rfl
  have h := h.next (show Admissible ['w'] .receive from trivial) hget
  have h := h.next (e := .result ['1']) (by exact trivial) rfl
  have hread : ({ s with program := .working ['0'], toProgram := [] }.say
      ⟨[], .result, [['0'], ['1']]⟩ .waiting).atWorker .minion =
      frames ⟨[], .result, [['0'], ['1']]⟩ :: [] := by
    rw [say_waiting, hwait, List.nil_append]
  have hplain : Plain ⟨[], .result, [['0'], ['1']]⟩ :=
    ⟨rfl, fun hdrop => absurd hdrop.2 (by decide)⟩
  have hcall := read_eq (x := ['w']) (s := { s with program := .working ['0'], toProgram := [] }.say
    ⟨[], .result, [['0'], ['1']]⟩ .waiting) hplain hc hread
  have h := h.next (show Admissible ['w'] (.read .minion) from trivial) hcall
  have hsaid' : s.said ++ [⟨[], .result, [['0'], ['1']]⟩] =
      [⟨[], .hello, [[]]⟩, ⟨[], .result, [['0'], ['1']]⟩] := by
    rw [hsaid]
    rfl
  refine ⟨_, h, hsaid', (served_iff h).2 ?_⟩
  intro m hm
  have hm : m ∈ s.said ++ [⟨[], .result, [['0'], ['1']]⟩] := hm
  rw [hsaid'] at hm
  simp only [List.mem_cons, List.not_mem_nil, or_false] at hm
  rcases hm with rfl | rfl
  · decide
  · decide

/-- **A GOODBYE is not served**: the program connects, a job is sent to it, and it says GOODBYE. The
router calls an empty function, the delegator is not told, and the job stays with the worker; and the
delegator would not put it back on the queue. -/
theorem goodbye_unserved : ∃ s, Reach (step ['w']) (fun _ a => Admissible ['w'] a) (init 1 0)
      (toJob ++ [.goodbye] ++ [.read .minion]) s ∧
    s.client = .failed .exception ∧ s.said = [⟨[], .hello, [[]]⟩, ⟨[], .goodbye, []⟩] ∧
    s.sent = [⟨[], .hello, [[]]⟩] ∧ s.toDel = [] ∧ s.del.jobQueue = [] ∧
    (∃ w, s.del.workers[['w']]? = some w ∧ ['0'] ∈ w.workInProgress) ∧ ¬ Requeues ['w'] s.del ∧
    ¬ Served ['w'] s := by
  obtain ⟨s, h, hc, hp, -, hwait, hsaid, hsent, hdel, hqueue, hw⟩ := toJob_run
  have hgo : s.step ['w'] .goodbye = some (s.say ⟨[], .goodbye, []⟩ .gone) := by
    simp only [step, hp]
  have h := h.next (show Admissible ['w'] .goodbye from trivial) hgo
  have hread : (s.say ⟨[], .goodbye, []⟩ .gone).atWorker .minion =
      frames ⟨[], .goodbye, []⟩ :: [] := by
    rw [say_waiting, hwait, List.nil_append]
  have hcall := read_eq (x := ['w']) (s := s.say ⟨[], .goodbye, []⟩ .gone) (m := ⟨[], .goodbye, []⟩)
    ⟨rfl, fun hdrop => hdrop.1 rfl⟩ hc hread
  have h := h.next (show Admissible ['w'] (.read .minion) from trivial) hcall
  have hsaid' : s.said ++ [⟨[], .goodbye, []⟩] = [⟨[], .hello, [[]]⟩, ⟨[], .goodbye, []⟩] := by
    rw [hsaid]
    rfl
  refine ⟨_, h, rfl, hsaid', hsent, hdel, hqueue, hw, not_requeues _ _, ?_⟩
  intro hserved
  cases hserved.running

end Session

end Stateline
