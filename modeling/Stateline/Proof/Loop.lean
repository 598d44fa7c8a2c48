import Stateline.Comms.DelegatorThread
import Stateline.Lib.Run

/-!
# The loop of the delegator

The runs of the delegator are those of its callbacks, one after the other, and the loop decides which
ones there are.

* `call_eq`: the callback that the router picks for a message does what `handle` does.
* `Poller.visits`: a round reads the oldest message of each socket, and nothing else.
* `Delegator.loop_events`: **the loop is a run of the delegator**, whose events are read off what
  arrives, and ends in undefined behaviour with a GOODBYE from the network; a message waits for as
  many rounds as there are messages before it on its socket.
-/

namespace Stateline

open Lib

/-! ## A round -/

namespace Poller

variable {Callback σ : Type} {r : SocketRouter Callback}
    {call : ℕ → Callback → RawMessage → σ → Except Fault σ} {p : Poller σ}

/-- A message is dispatched, and its callback is called. -/
def serve (r : SocketRouter Callback) (call : ℕ → Callback → RawMessage → σ → Except Fault σ) (i : ℕ)
    (frames : List Str) (state : σ) : Except Fault σ := do
  let (b, msg) ← r.dispatch i frames
  call i b.f msg state

theorem visit_of_cons {i : ℕ} {frames : List Str} {rest : List (List Str)}
    (h : p.inbox i = frames :: rest) : p.visit r call i = do
      let state ← serve r call i frames p.state
      return ⟨Function.update p.inbox i rest, state⟩ := by
  simp only [visit, serve, h, bind_assoc]

/-- What the loop over some sockets does to the state. -/
def served (r : SocketRouter Callback) (call : ℕ → Callback → RawMessage → σ → Except Fault σ)
    (heads : List (ℕ × List Str)) (state : σ) : Except Fault σ :=
  heads.foldlM (fun state h => serve r call h.1 h.2 state) state

/-- The oldest messages of some sockets. -/
def heads (inbox : ℕ → List (List Str)) (l : List ℕ) : List (ℕ × List Str) :=
  l.filterMap fun i => (inbox i).head?.map (i, ·)

theorem heads_cons_of_none {inbox : ℕ → List (List Str)} {i : ℕ} (l : List ℕ)
    (h : (inbox i).head? = none) : heads inbox (i :: l) = heads inbox l := by
  simp [heads, h]

theorem heads_cons {inbox : ℕ → List (List Str)} {i : ℕ} {frames : List Str} (l : List ℕ)
    (h : (inbox i).head? = some frames) : heads inbox (i :: l) = (i, frames) :: heads inbox l := by
  simp [heads, h]

/-- What is left when the oldest messages of some sockets are taken. -/
def tails (inbox : ℕ → List (List Str)) (l : List ℕ) : ℕ → List (List Str) :=
  fun i => if i ∈ l then (inbox i).tail else inbox i

/-- **The loop over the sockets** serves the oldest message of each. -/
theorem visits {l : List ℕ} (hl : l.Nodup) :
    l.foldlM (visit r call) p = do
      let state ← served r call (heads p.inbox l) p.state
      return ⟨tails p.inbox l, state⟩ := by
  induction l generalizing p with
  | nil =>
    have htails : tails p.inbox [] = p.inbox := by
      funext i
      exact if_neg List.not_mem_nil
    rw [htails]
    rfl
  | cons i l ih =>
    obtain ⟨hi, hl⟩ := List.nodup_cons.1 hl
    rw [List.foldlM_cons]
    cases hin : p.inbox i with
    | nil =>
      have htails : tails p.inbox (i :: l) = tails p.inbox l := by
        funext j
        by_cases hj : j = i
        · subst hj
          simp [tails, hin]
        · simp [tails, hj]
      have hheads : heads p.inbox (i :: l) = heads p.inbox l := heads_cons_of_none l (by rw [hin]; rfl)
      have hvisit : p.visit r call i = .ok p := by simp only [visit, hin]
      rw [hvisit, ok_bind, ih hl, htails, hheads]
    | cons frames rest =>
      -- the other sockets are as they were
      have hheads : heads (Function.update p.inbox i rest) l = heads p.inbox l := by
        refine List.filterMap_congr ?_
        intro j hj
        rw [Function.update_of_ne]
        rintro rfl
        exact hi hj
      have htails : tails (Function.update p.inbox i rest) l = tails p.inbox (i :: l) := by
        funext j
        by_cases hj : j = i
        · subst hj
          simp [tails, hi, hin]
        · simp [tails, hj]
      have hcons : heads p.inbox (i :: l) = (i, frames) :: heads p.inbox l :=
        heads_cons l (by rw [hin]; rfl)
      rw [visit_of_cons hin, hcons, served, List.foldlM_cons]
      cases hserve : serve r call i frames p.state with
      | error e => rfl
      | ok state =>
        show List.foldlM (visit r call) ⟨Function.update p.inbox i rest, state⟩ l = _
        rw [ih hl]
        dsimp only
        rw [hheads, htails]
        rfl

/-- A round serves the oldest messages, and calls `onPoll_`. -/
theorem round_eq {onPoll : σ → Except Fault σ} {sockets : ℕ} {arrived : ℕ → List (List Str)} :
    p.round r call onPoll sockets arrived = do
      let state ← served r call (heads (arrive p.inbox arrived) (List.range sockets)) p.state
      return ⟨tails (arrive p.inbox arrived) (List.range sockets), ← onPoll state⟩ := by
  rw [round, visits List.nodup_range]
  simp only [bind_assoc, pure_bind]

end Poller

/-! ## Callbacks -/

theorem Subject.ofCode_code (s : Subject) : ofCode s.code = some s := by
  cases s <;> decide

theorem Subject.ofCode_eq_some {code : ℤ} {s : Subject} (h : ofCode code = some s) :
    s.code = code := by
  simpa using List.find?_some h

theorem RawMessage.message_eq_some {raw : RawMessage} {m : Message} (h : raw.message = some m) :
    raw = m.raw := by
  obtain ⟨s, hs, rfl⟩ := Option.map_eq_some_iff.1 h
  obtain ⟨address, subject, data⟩ := raw
  rw [Message.raw, Subject.ofCode_eq_some hs]

theorem Message.raw_message (m : Message) : m.raw.message = some m := by
  rw [RawMessage.message, raw, Subject.ofCode_code]
  rfl

namespace Delegator

open SocketRouter (DelegatorCallback delegatorBinds)
open Poller (serve served heads tails arrive)

/-- The message that is read of some frames, if it has one of the subjects. -/
def messageOf (frames : List Str) : Option Message :=
  (Socket.receive frames).toOption.bind RawMessage.message

/-- The callback that is bound for a socket and a subject. -/
def callbackOf : Sock → Subject → Option DelegatorCallback
  | .requester, .request => some .rcvRequest
  | .network, .hello => some .newWorker
  | .network, .result => some .rcvResult
  | .network, .heartbeat => some .forwardToHB
  | .network, .goodbye => some .forwardToHBAndDisconnect
  | .heartbeat, .heartbeat => some .forwardToNetwork
  | .heartbeat, .goodbye => some .disconnect
  | _, _ => none

/-- An event, and what was sent before it. -/
def runEvent (s : Delegator × List Send) (e : Event) : Except Fault (Delegator × List Send) := do
  let (d, out) ← s.1.handle e
  return (d, s.2 ++ out)

variable {r : SocketRouter DelegatorCallback} {i : ℕ} {frames : List Str} {m : Message} {t : Turn}

/-- What the router picks for a message. -/
theorem dispatch_callbackOf (hr : SocketRouter.ofBinds 3 delegatorBinds = .ok r) (hi : i < 3)
    (hm : Socket.receive frames = .ok m.raw) :
    r.dispatch i frames = match callbackOf (sockOf i) m.subject with
      | some f => .ok (⟨i, m.subject, f⟩, m.raw)
      | none => .error .exception := by
  cases hr
  obtain ⟨address, subject, data⟩ := m
  unfold SocketRouter.dispatch
  rw [hm, ok_bind]
  interval_cases i <;> cases subject <;> rfl

/-- **The callback of a message** does what `handle` does. -/
theorem serve_eq (hr : SocketRouter.ofBinds 3 delegatorBinds = .ok r) (hi : i < 3)
    (hm : messageOf frames = some m) (s : Delegator × List Send) :
    serve r (call t) i frames s = runEvent s (.recv (sockOf i) m (t.now i) t.fails) := by
  obtain ⟨raw, hraw, hm⟩ := Option.bind_eq_some_iff.1 hm
  obtain rfl := RawMessage.message_eq_some hm
  have hreceive : Socket.receive frames = .ok m.raw := by
    cases h : Socket.receive frames with
    | error e => rw [h] at hraw; cases hraw
    | ok x => rw [h] at hraw; cases hraw; rfl
  rw [serve, dispatch_callbackOf hr hi hreceive]
  have hcall : ∀ f, call t i f m.raw s = (callback t i f m s.1 >>= fun p => pure (p.1, s.2 ++ p.2)) :=
    fun f => by simp only [call, Message.raw_message]
  have hevent : runEvent s (.recv (sockOf i) m (t.now i) t.fails) =
      (s.1.handle (.recv (sockOf i) m (t.now i) t.fails) >>= fun p => pure (p.1, s.2 ++ p.2)) := rfl
  rw [hevent]
  cases hf : callbackOf (sockOf i) m.subject with
  | none =>
    have hnone : s.1.handle (.recv (sockOf i) m (t.now i) t.fails) = .error .exception := by
      interval_cases i <;> cases hs : m.subject <;> simp_all [callbackOf, handle, sockOf]
    rw [hnone]
    rfl
  | some f =>
    have hsome : s.1.handle (.recv (sockOf i) m (t.now i) t.fails) = callback t i f m s.1 := by
      interval_cases i <;> cases hs : m.subject <;> simp only [hs, sockOf, callbackOf] at hf <;>
        cases hf <;> simp only [handle, sockOf, hs, callback]
    rw [hsome]
    exact hcall f

/-! ## The loop -/

/-- The events of some messages that are read in a round. -/
def recvEvents (t : Turn) (hs : List (ℕ × List Str)) : List Event :=
  hs.filterMap fun h => (messageOf h.2).map fun m => .recv (sockOf h.1) m (t.now h.1) t.fails

theorem recvEvents_cons_of_none {x : ℕ × List Str} (hs : List (ℕ × List Str))
    (h : messageOf x.2 = none) : recvEvents t (x :: hs) = recvEvents t hs := by
  simp [recvEvents, h]

theorem recvEvents_cons {x : ℕ × List Str} (hs : List (ℕ × List Str)) (h : messageOf x.2 = some m) :
    recvEvents t (x :: hs) = .recv (sockOf x.1) m (t.now x.1) t.fails :: recvEvents t hs := by
  simp [recvEvents, h]

/-- The events of a round: the oldest messages, and `onPoll_`. -/
def roundEvents (t : Turn) (inbox : ℕ → List (List Str)) : List Event :=
  recvEvents t (heads inbox (List.range 3)) ++ [.poll t.clock t.pollFails]

/-- What waits after some rounds. -/
def loopInbox (inbox : ℕ → List (List Str)) (turns : List Turn) : ℕ → List (List Str) :=
  turns.foldl (fun inbox t => tails (arrive inbox t.arrived) (List.range 3)) inbox

/-- The events of each round of the loop. -/
def loopEvents : (ℕ → List (List Str)) → List Turn → List (List Event)
  | _, [] => []
  | inbox, t :: turns =>
    roundEvents t (arrive inbox t.arrived) :: loopEvents (loopInbox inbox [t]) turns

/-- What waits has one of the subjects. -/
def Worded (inbox : ℕ → List (List Str)) : Prop :=
  ∀ i < 3, ∀ frames ∈ inbox i, (messageOf frames).isSome

theorem Worded.arrive {inbox arrived : ℕ → List (List Str)} (h : Worded inbox)
    (ha : Worded arrived) : Worded (Poller.arrive inbox arrived) := by
  intro i hi frames hf
  obtain hf | hf := List.mem_append.1 hf
  · exact h i hi frames hf
  · exact ha i hi frames hf

theorem Worded.tails {inbox : ℕ → List (List Str)} (h : Worded inbox) (l : List ℕ) :
    Worded (Poller.tails inbox l) := by
  intro i hi frames hf
  refine h i hi frames ?_
  unfold Poller.tails at hf
  split at hf
  · exact List.mem_of_mem_tail hf
  · exact hf

theorem Worded.heads {inbox : ℕ → List (List Str)} (h : Worded inbox) {x : ℕ × List Str}
    (hx : x ∈ Poller.heads inbox (List.range 3)) : x.1 < 3 ∧ (messageOf x.2).isSome := by
  obtain ⟨i, hi, hx⟩ := List.mem_filterMap.1 hx
  obtain ⟨frames, hf, rfl⟩ := Option.map_eq_some_iff.1 hx
  have hi := List.mem_range.1 hi
  exact ⟨hi, h i hi frames (List.mem_of_mem_head? hf)⟩

/-- What the round reads is handled one after the other. -/
theorem served_eq (hr : SocketRouter.ofBinds 3 delegatorBinds = .ok r) {hs : List (ℕ × List Str)}
    (hhs : ∀ x ∈ hs, x.1 < 3 ∧ (messageOf x.2).isSome) (s : Delegator × List Send) :
    served r (call t) hs s = (recvEvents t hs).foldlM runEvent s := by
  induction hs generalizing s with
  | nil => rfl
  | cons x hs ih =>
    obtain ⟨⟨hi, hsome⟩, hhs⟩ := List.forall_mem_cons.1 hhs
    obtain ⟨m, hm⟩ := Option.isSome_iff_exists.1 hsome
    rw [recvEvents_cons hs hm, List.foldlM_cons, served, List.foldlM_cons, serve_eq hr hi hm]
    exact bind_congr fun s => ih hhs s

/-- A round is the run of its events. -/
theorem loopRound_eq (hr : SocketRouter.ofBinds 3 delegatorBinds = .ok r)
    {p : Poller (Delegator × List Send)} (hin : Worded (arrive p.inbox t.arrived)) :
    loopRound r p t = do
      let s ← (roundEvents t (arrive p.inbox t.arrived)).foldlM runEvent p.state
      return ⟨loopInbox p.inbox [t], s⟩ := by
  have hpoll : ∀ s : Delegator × List Send,
      [Event.poll t.clock t.pollFails].foldlM runEvent s = (do
        let (d, out) ← s.1.onPoll t.clock t.pollFails
        return (d, s.2 ++ out)) := by
    intro s
    simp only [List.foldlM_cons, List.foldlM_nil, bind_pure]
    rfl
  rw [loopRound, Poller.round_eq, served_eq hr fun x hx => hin.heads hx, roundEvents,
    List.foldlM_append, bind_assoc]
  refine bind_congr fun s => ?_
  rw [hpoll]
  rfl

theorem Worded.loopInbox {inbox : ℕ → List (List Str)} (h : Worded inbox)
    (ha : Worded t.arrived) : Worded (Delegator.loopInbox inbox [t]) :=
  (h.arrive ha).tails _

/-- **The loop is a run** of the events of its rounds. -/
theorem start_eq {p : Poller (Delegator × List Send)} {turns : List Turn} (hin : Worded p.inbox)
    (harr : ∀ t ∈ turns, Worded t.arrived) : start p turns = do
      let s ← (loopEvents p.inbox turns).flatten.foldlM runEvent p.state
      return ⟨loopInbox p.inbox turns, s⟩ := by
  obtain ⟨r, hr⟩ : ∃ r, SocketRouter.ofBinds 3 delegatorBinds = .ok r := ⟨_, rfl⟩
  rw [start, hr, ok_bind]
  induction turns generalizing p with
  | nil => rfl
  | cons t turns ih =>
    obtain ⟨ht, harr⟩ := List.forall_mem_cons.1 harr
    rw [List.foldlM_cons, loopRound_eq hr (hin.arrive ht), loopEvents, List.flatten_cons,
      List.foldlM_append, bind_assoc, bind_assoc]
    refine bind_congr fun s => ?_
    rw [pure_bind]
    exact @ih ⟨loopInbox p.inbox [t], s⟩ (hin.loopInbox ht) harr

/-- **A GOODBYE from the network** among the events of the rounds ends the loop, if nothing before it
does. -/
theorem start_of_networkGoodbye {p : Poller (Delegator × List Send)} {turns : List Turn}
    (hin : Worded p.inbox) (harr : ∀ t ∈ turns, Worded t.arrived)
    (hbye : ∃ e ∈ (loopEvents p.inbox turns).flatten, e.NetworkGoodbye) :
    ∃ f, start p turns = .error f := by
  obtain ⟨e, he, hbye⟩ := hbye
  obtain ⟨pre, post, hsplit⟩ := List.mem_iff_append.1 he
  rw [start_eq hin harr, hsplit, List.foldlM_append]
  cases pre.foldlM runEvent p.state with
  | error f => exact ⟨f, rfl⟩
  | ok s =>
    refine ⟨.undefined, ?_⟩
    have he : runEvent s e = .error .undefined := by
      unfold runEvent
      rw [handle_networkGoodbye hbye]
      rfl
    rw [ok_bind, List.foldlM_cons, he]
    rfl

/-! ## Each socket -/

/-- The socket of an event. -/
def sockOn : Event → Option Sock
  | .recv x _ _ _ => some x
  | .poll _ _ => none

/-- The message of an event on a socket. -/
def received (x : Sock) : Event → Option Message
  | .recv y m _ _ => if y = x then some m else none
  | .poll _ _ => none

theorem sockOf_inj {j : ℕ} (hi : i < 3) (hj : j < 3) : sockOf j = sockOf i ↔ j = i := by
  interval_cases i <;> interval_cases j <;> decide

/-- The sockets are read in their order, each at most once. -/
theorem sockOn_recvEvents (inbox : ℕ → List (List Str)) (l : List ℕ) :
    ∃ xs : List Sock, xs.Sublist (l.map sockOf) ∧
      (recvEvents t (heads inbox l)).map sockOn = xs.map some := by
  induction l with
  | nil => exact ⟨[], .slnil, rfl⟩
  | cons i l ih =>
    obtain ⟨xs, hxs, hmap⟩ := ih
    cases hin : (inbox i).head? with
    | none =>
      rw [Poller.heads_cons_of_none l hin]
      exact ⟨xs, hxs.cons _, hmap⟩
    | some frames =>
      rw [Poller.heads_cons l hin]
      cases hm : messageOf frames with
      | none =>
        rw [recvEvents_cons_of_none _ hm]
        exact ⟨xs, hxs.cons _, hmap⟩
      | some m =>
        rw [recvEvents_cons _ hm]
        exact ⟨sockOf i :: xs, hxs.cons_cons _, congrArg (some (sockOf i) :: ·) hmap⟩

/-- **The events of each round**: at most one message of each socket, in the order of the sockets, and
then the poll. -/
theorem sockOn_loopEvents (inbox : ℕ → List (List Str)) (turns : List Turn) :
    ∀ es ∈ loopEvents inbox turns, ∃ xs : List Sock,
      xs.Sublist [.requester, .heartbeat, .network] ∧ es.map sockOn = xs.map some ++ [none] := by
  induction turns generalizing inbox with
  | nil => exact fun _ h => absurd h List.not_mem_nil
  | cons t turns ih =>
    refine List.forall_mem_cons.2 ⟨?_, ih _⟩
    obtain ⟨xs, hxs, hmap⟩ := @sockOn_recvEvents t (arrive inbox t.arrived) (List.range 3)
    exact ⟨xs, hxs, by rw [roundEvents, List.map_append, hmap]; rfl⟩

/-- What is read on a socket. -/
theorem received_recvEvents (hi : i < 3) (inbox : ℕ → List (List Str)) {l : List ℕ} (hl : l.Nodup)
    (hlt : ∀ j ∈ l, j < 3) :
    (recvEvents t (heads inbox l)).filterMap (received (sockOf i)) =
      if i ∈ l then ((inbox i).head?.bind messageOf).toList else [] := by
  induction l with
  | nil => rfl
  | cons j l ih =>
    obtain ⟨hj, hl⟩ := List.nodup_cons.1 hl
    obtain ⟨hj3, hlt⟩ := List.forall_mem_cons.1 hlt
    have hrest := ih hl hlt
    -- what the socket `j` adds
    have hcons : (recvEvents t (heads inbox (j :: l))).filterMap (received (sockOf i)) =
        (if j = i then ((inbox i).head?.bind messageOf).toList else []) ++
          (recvEvents t (heads inbox l)).filterMap (received (sockOf i)) := by
      have hnone (h : (inbox j).head?.bind messageOf = none) :
          (if j = i then ((inbox i).head?.bind messageOf).toList else []) = [] := by
        split
        · next hji => rw [← hji, h]; rfl
        · rfl
      cases hin : (inbox j).head? with
      | none =>
        rw [Poller.heads_cons_of_none l hin, hnone (by rw [hin]; rfl)]
        rfl
      | some frames =>
        rw [Poller.heads_cons l hin]
        cases hm : messageOf frames with
        | none =>
          rw [recvEvents_cons_of_none _ hm, hnone (by rw [hin]; exact hm)]
          rfl
        | some m =>
          rw [recvEvents_cons _ hm, List.filterMap_cons]
          simp only [received, sockOf_inj hi hj3]
          by_cases h : j = i
          · rw [if_pos h, if_pos h, ← h, hin, Option.bind_some, hm]
            rfl
          · rw [if_neg h, if_neg h]
            rfl
    rw [hcons, hrest]
    by_cases h : j = i
    · subst h
      simp [hj]
    · have h' : i ≠ j := fun he => h he.symm
      simp [h, h']

/-- A round reads the oldest message of each socket. -/
theorem received_roundEvents (hi : i < 3) (inbox : ℕ → List (List Str)) :
    (roundEvents t inbox).filterMap (received (sockOf i)) =
      ((inbox i).head?.bind messageOf).toList := by
  rw [roundEvents, List.filterMap_append, received_recvEvents hi inbox List.nodup_range
    (fun j hj => List.mem_range.1 hj), if_pos (List.mem_range.2 hi)]
  exact List.append_nil _

theorem loopInbox_one (inbox : ℕ → List (List Str)) (t : Turn) (hi : i < 3) :
    loopInbox inbox [t] i = (inbox i ++ t.arrived i).tail :=
  if_pos (List.mem_range.2 hi)

theorem loopEvents_append (inbox : ℕ → List (List Str)) (pre post : List Turn) :
    loopEvents inbox (pre ++ post) =
      loopEvents inbox pre ++ loopEvents (loopInbox inbox pre) post := by
  induction pre generalizing inbox with
  | nil => rfl
  | cons t pre ih => exact congrArg _ (ih _)

@[simp] theorem length_loopEvents (inbox : ℕ → List (List Str)) (turns : List Turn) :
    (loopEvents inbox turns).length = turns.length := by
  induction turns generalizing inbox with
  | nil => rfl
  | cons t turns ih => exact congrArg (· + 1) (ih _)

/-- **A queue for each socket**: what is handled and what still waits is what has arrived. -/
theorem received_loopEvents (hi : i < 3) {inbox : ℕ → List (List Str)} (hin : Worded inbox)
    {turns : List Turn} (harr : ∀ t ∈ turns, Worded t.arrived) :
    (loopEvents inbox turns).flatten.filterMap (received (sockOf i)) ++
        (loopInbox inbox turns i).filterMap messageOf =
      (inbox i ++ turns.flatMap (·.arrived i)).filterMap messageOf := by
  induction turns generalizing inbox with
  | nil => rw [List.flatMap_nil, List.append_nil]; rfl
  | cons t turns ih =>
    obtain ⟨ht, harr⟩ := List.forall_mem_cons.1 harr
    have hrest := ih (hin.loopInbox ht) harr
    rw [loopInbox_one inbox t hi] at hrest
    rw [loopEvents, List.flatten_cons, List.filterMap_append, received_roundEvents hi,
      List.append_assoc]
    refine (congrArg _ hrest).trans ?_
    rw [List.flatMap_cons, ← List.append_assoc, List.filterMap_append, ← List.append_assoc,
      List.filterMap_append (l := inbox i ++ t.arrived i)]
    refine congrArg (· ++ _) ?_
    show ((inbox i ++ t.arrived i).head?.bind messageOf).toList ++ _ = _
    cases h : inbox i ++ t.arrived i with
    | nil => rfl
    | cons frames rest =>
      obtain ⟨m, hm⟩ := Option.isSome_iff_exists.1
        ((hin.arrive ht) i hi frames (by rw [arrive, h]; exact List.mem_cons_self))
      simp [hm]

/-- **The wait** of a message: one round for each message before it on its socket. -/
theorem waits (hi : i < 3) {inbox : ℕ → List (List Str)} {turns : List Turn} {k : ℕ}
    (hk : k ≤ turns.length) (hf : (arrive inbox t.arrived i)[k]? = some frames)
    (hm : messageOf frames = some m) :
    ∃ es, (loopEvents inbox (t :: turns))[k]? = some es ∧
      es.filterMap (received (sockOf i)) = [m] := by
  induction k generalizing inbox t turns with
  | zero =>
    refine ⟨_, rfl, ?_⟩
    rw [received_roundEvents hi, List.head?_eq_getElem?, hf, Option.bind_some, hm]
    rfl
  | succ k ih =>
    obtain _ | ⟨t', turns⟩ := turns
    · exact absurd hk (by simp)
    · have hlt : k + 1 < (arrive inbox t.arrived i).length := (List.getElem?_eq_some_iff.1 hf).1
      refine @ih t' (loopInbox inbox [t]) turns (by simpa using hk) ?_
      rw [arrive, loopInbox_one inbox t hi, List.getElem?_append_left, List.getElem?_tail]
      · exact hf
      · rw [List.length_tail]
        exact Nat.lt_sub_of_add_lt hlt

/-- **The loop of the delegator** handles what arrives. Its run is the run of the events of its rounds,
and does not return when a GOODBYE from the network is one of them; a round has at most one message
of each socket, in the order of the sockets, and then polls; each socket is a queue, and a message
waits one round for each message before it. -/
theorem loop_events {p : Poller (Delegator × List Send)} {turns : List Turn} (hin : Worded p.inbox)
    (harr : ∀ t ∈ turns, Worded t.arrived) :
    (start p turns = do
      let s ← (loopEvents p.inbox turns).flatten.foldlM runEvent p.state
      return ⟨loopInbox p.inbox turns, s⟩) ∧
    ((∃ e ∈ (loopEvents p.inbox turns).flatten, e.NetworkGoodbye) → ∃ f, start p turns = .error f) ∧
    (loopEvents p.inbox turns).length = turns.length ∧
    (∀ es ∈ loopEvents p.inbox turns, ∃ xs : List Sock,
      xs.Sublist [.requester, .heartbeat, .network] ∧ es.map sockOn = xs.map some ++ [none]) ∧
    ∀ i < 3,
      (loopEvents p.inbox turns).flatten.filterMap (received (sockOf i)) ++
          (loopInbox p.inbox turns i).filterMap messageOf =
        (p.inbox i ++ turns.flatMap (·.arrived i)).filterMap messageOf ∧
      ∀ (pre : List Turn) (t : Turn) (post : List Turn) (k : ℕ) (frames : List Str) (m : Message),
        turns = pre ++ t :: post → k ≤ post.length →
        (arrive (loopInbox p.inbox pre) t.arrived i)[k]? = some frames → messageOf frames = some m →
        ∃ es, (loopEvents p.inbox turns)[pre.length + k]? = some es ∧
          es.filterMap (received (sockOf i)) = [m] := by
  refine ⟨start_eq hin harr, start_of_networkGoodbye hin harr, length_loopEvents _ _,
    sockOn_loopEvents _ _, fun i hi => ?_⟩
  refine ⟨received_loopEvents hi hin harr, ?_⟩
  rintro pre t post k frames m rfl hk hf hm
  rw [loopEvents_append, List.getElem?_append_right (by simp), length_loopEvents,
    Nat.add_sub_cancel_left]
  exact waits hi hk hf hm

/-- A worker that connects and sends a HEARTBEAT before the first round. -/
def helloTurn : Turn where
  arrived i := if i = 2 then [Socket.send ⟨[['w']], 0, [[]]⟩, Socket.send ⟨[['w']], 1, []⟩] else []
  now _ := 0
  fails := false
  clock _ := 0
  pollFails _ := false

/-- A round before which nothing arrives. -/
def idleTurn : Turn := { helloTurn with arrived := fun _ => [] }

/-- **Two messages** on one socket take two rounds. -/
theorem loop_events_heartbeat :
    ∃ es, (loopEvents (fun _ => []) [helloTurn, idleTurn])[1]? = some es ∧
      es.filterMap (received .network) = [⟨[['w']], .heartbeat, []⟩] := by
  have hin : Worded fun _ => [] := fun _ _ _ hf => absurd hf List.not_mem_nil
  have harr : ∀ t ∈ [helloTurn, idleTurn], Worded t.arrived := by
    simp only [List.forall_mem_cons, List.not_mem_nil, false_implies, implies_true, and_true]
    exact ⟨by unfold Worded; decide, hin⟩
  exact ((@loop_events ⟨fun _ => [], .init 1 10, []⟩ _ hin harr).2.2.2.2 2 (by decide)).2
    [] helloTurn [idleTurn] 1 (Socket.send ⟨[['w']], 1, []⟩) _ rfl le_rfl (by decide) (by decide)

end Delegator

end Stateline
