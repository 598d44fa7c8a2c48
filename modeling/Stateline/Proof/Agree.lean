import Stateline.Comms.System
import Stateline.Proof.Requests

/-!
# Agreement of the delegator and the heartbeat thread

Both threads remove workers on their own, and the delegator does not tell the
heartbeat thread when it drops a worker after a failed send. `Safe` is the
condition on one step under which neither a message in flight nor a failed send
sets the two apart.

* `Tracked`: a worker is connected, with no GOODBYE for it on the way to the
  delegator, exactly when the heartbeat thread will monitor it once it has read
  its messages. `tracked_step`: a safe step keeps it.
* `agree_at_rest`: **in every run of safe steps the two agree whenever both
  channels are empty.**
* `disagree_in_run`: two runs that are not safe, and end in disagreement.
-/

namespace Stateline

open Std Lib Delegator

/-! ## The workers a handler leaves -/

/-- The keys of the workers are the identities at the front of their addresses. -/
def Keyed (d : Delegator) : Prop := All (fun id w => w.address.head? = some id) d.workers

/-- `disconnectWorker` removes the worker at the front of the address, and no other. -/
theorem disconnectWorker_keys {d d' : Delegator} {m : Message} {x : Str} (hx : m.address.head? = some x)
    (hd : Keyed d) (h : d.disconnectWorker m = .ok d') :
    Keyed d' ∧ ∀ a, a ∈ d'.workers ↔ a ∈ d.workers ∧ a ≠ x := by
  rcases disconnectWorker_eq_ok hx h with ⟨hnone, rfl⟩ | ⟨w, -, rfl⟩
  · refine ⟨hd, fun a => ⟨fun ha => ⟨ha, ?_⟩, And.left⟩⟩
    rintro rfl
    obtain ⟨w, hw⟩ := mem_iff_getElem?.1 ha
    rw [hnone] at hw
    cases hw
  · refine ⟨hd.erase, ?_⟩
    intro a
    rw [ExtTreeMap.mem_erase, ne_eq, ne_eq, LawfulEqCmp.compare_eq_iff_eq, and_comm, eq_comm]

theorem newWorker_keys {d d' : Delegator} {m : Message} {x : Str} {now : ℤ} {out : List Send}
    (hx : m.address = [x]) (hd : Keyed d) (h : d.newWorker m now = .ok (d', out)) :
    Keyed d' ∧ out = [⟨.heartbeat, m⟩] ∧ ∀ a, a ∈ d'.workers ↔ a ∈ d.workers ∨ a = x := by
  have hhead : m.address.head? = some x := by rw [hx]; rfl
  obtain ⟨rfl, ⟨hmem, rfl⟩ | ⟨-, w, frame, hw, rfl⟩⟩ := newWorker_eq_ok hhead h
  · refine ⟨hd, rfl, fun a => ⟨.inl, ?_⟩⟩
    rintro (h | rfl)
    · exact h
    · exact hmem
  · refine ⟨hd.insert (by rw [hw.address]; exact hhead), rfl, ?_⟩
    intro a
    rw [ExtTreeMap.mem_insert, LawfulEqCmp.compare_eq_iff_eq, or_comm, eq_comm]

/-- A request leaves the workers alone. -/
theorem receiveRequest_keys {d d' : Delegator} {m : Message} (h : d.receiveRequest m = .ok d') :
    d'.workers = d.workers ∧ d'.workerCount = d.workerCount := by
  have hfold : ∀ (id : Str) (ts : List ℕ) (st : Delegator × ℕ),
      (ts.foldl (pushJob id) st).1.workers = st.1.workers ∧
        (ts.foldl (pushJob id) st).1.workerCount = st.1.workerCount := by
    intro id ts
    induction ts with
    | nil => exact fun st => ⟨rfl, rfl⟩
    | cons t ts ih => exact fun st => ih (pushJob id st t)
  obtain ⟨-, -, id, requests, rfl⟩ := receiveRequest_eq_ok h
  exact hfold _ _ _

/-- A worker replaced by one with the same address. -/
theorem Keyed.replace {d : Delegator} {x : Str} {w w' : Worker} (hd : Keyed d)
    (hw : d.workers[x]? = some w) (ha : w'.address = w.address) :
    All (fun id w => w.address.head? = some id) (d.workers.insert x w') ∧
      ∀ a, a ∈ d.workers.insert x w' ↔ a ∈ d.workers := by
  refine ⟨hd.insert ?_, fun _ => mem_insert_of_mem (mem_iff_getElem?.2 ⟨w, hw⟩)⟩
  rw [ha]
  exact hd x w hw

theorem receiveResult_keys {d d' : Delegator} {m : Message} {now : ℤ} {out : List Send} (hd : Keyed d)
    (h : d.receiveResult m now = .ok (d', out)) :
    Keyed d' ∧ (∀ s ∈ out, s.sock = .requester) ∧ ∀ a, a ∈ d'.workers ↔ a ∈ d.workers := by
  obtain ⟨x, -, hout, ⟨-, rfl⟩ | ⟨w, w', i, requests, hw, -, haddr, -, -, -, rfl⟩⟩ :=
    receiveResult_eq_ok h
  · exact ⟨hd, hout, fun _ => Iff.rfl⟩
  · obtain ⟨hk, hm⟩ := hd.replace hw haddr
    exact ⟨hk, hout, hm⟩

/-- A dispatch that returns has not lost its worker. -/
theorem dispatch_keys {d d' : Delegator} {clock : Str → ℤ} {fails : Str → Bool} {id : Str} {i : Job}
    {out : List Send} (hd : Keyed d) (h : d.dispatch clock fails id i = .ok (d', out)) :
    Keyed d' ∧ (∀ s ∈ out, s.sock = .network) ∧ ∀ a, a ∈ d'.workers ↔ a ∈ d.workers := by
  obtain ⟨w, data, hw, -, rfl, rfl⟩ := dispatch_eq_ok (fun w hw => hd id w hw) h
  refine ⟨(hd.replace hw (by rfl)).1, ?_, (hd.replace hw (by rfl)).2⟩
  intro s hs
  rw [List.mem_singleton.1 hs]

theorem pollLoop_keys {clock : Str → ℤ} {fails : Str → Bool} {n : ℕ} {js : List Job}
    {d d' : Delegator} {out : List Send} (hd : Keyed d)
    (h : pollLoop clock fails n d js = .ok (d', out)) :
    Keyed d' ∧ (∀ s ∈ out, s.sock = .network) ∧ ∀ a, a ∈ d'.workers ↔ a ∈ d.workers := by
  refine pollLoop_returned (P := fun d _ d' out => Keyed d →
    Keyed d' ∧ (∀ s ∈ out, s.sock = .network) ∧ ∀ a, a ∈ d'.workers ↔ a ∈ d.workers) ?_ ?_ ?_ h hd
  · exact fun d hd => ⟨hd, List.forall_mem_nil _, fun _ => Iff.rfl⟩
  · exact fun d i js d' out ih hd => ih hd
  · intro d d₁ d' i js x out out' h₁ ih hd
    obtain ⟨hk₁, ho₁, hm₁⟩ := dispatch_keys hd h₁
    obtain ⟨hk, ho, hm⟩ := ih hk₁
    refine ⟨hk, ?_, fun a => (hm a).trans (hm₁ a)⟩
    intro s hs
    rcases List.mem_append.1 hs with hs | hs
    · exact ho₁ s hs
    · exact ho s hs

/-- What is forwarded to the heartbeat thread, and what becomes of the workers. -/
inductive Forwards (d d' : Delegator) (e : Event) : List Message → Prop
  | nothing : (∀ a, a ∈ d'.workers ↔ a ∈ d.workers) → Forwards d d' e []
  | hello {m : Message} {x : Str} {now : ℤ} {fails : Bool} :
    e = .recv .network m now fails → m.address = [x] →
      m.subject = .hello → (∀ a, a ∈ d'.workers ↔ a ∈ d.workers ∨ a = x) → Forwards d d' e [m]
  | heartbeat {m : Message} : m.subject = .heartbeat → (∀ a, a ∈ d'.workers ↔ a ∈ d.workers) →
      Forwards d d' e [m]

theorem forwarded_eq_nil {out : List Send} {sock : Sock} (hs : sock ≠ .heartbeat)
    (h : ∀ s ∈ out, s.sock = sock) :
    System.forwarded out = [] := by
  unfold System.forwarded
  rw [List.filter_eq_nil_iff.2, List.map_nil]
  intro s hmem
  rw [h s hmem]
  simpa using hs

/-- **What the delegator forwards**: nothing, or the message of a worker that it handles, and then it
changes its own workers accordingly. -/
theorem handle_forwards {d d' : Delegator} {e : Event} {out : List Send} (hd : Keyed d)
    (hw : System.FromWorker (.event e)) (hne : ∀ m now fails, e ≠ .recv .heartbeat m now fails)
    (h : d.handle e = .ok (d', out)) : Keyed d' ∧ Forwards d d' e (System.forwarded out) ∧
      ∀ m ∈ System.forwarded out, ∃ now fails, e = .recv .network m now fails := by
  cases e with
  | poll clock fails =>
    obtain ⟨hk, hout, hm⟩ := pollLoop_keys (d := { d with jobQueue := [] }) hd h
    rw [forwarded_eq_nil (by decide) hout]
    exact ⟨hk, .nothing hm, List.forall_mem_nil _⟩
  | recv sock m now fails =>
    cases sock with
    | heartbeat => exact absurd rfl (hne _ _ _)
    | requester =>
      cases hsub : m.subject with
      | request =>
        simp only [handle, hsub] at h
        obtain ⟨d₁, h₁, h⟩ := bind_eq_ok h
        obtain ⟨rfl, rfl⟩ := ok_pair_inj h
        have hm := (receiveRequest_keys h₁).1
        exact ⟨by unfold Keyed; rw [hm]; exact hd, .nothing fun a => by rw [hm], List.forall_mem_nil _⟩
      | _ => simp only [handle, hsub] at h; cases h
    | network =>
      simp only [System.FromWorker] at hw
      have hself : ∀ m' ∈ [m], ∃ now' fails',
          Event.recv .network m now fails = .recv .network m' now' fails' := by
        intro m' hm'
        rw [List.mem_singleton] at hm'
        exact ⟨now, fails, by rw [hm']⟩
      cases hsub : m.subject with
      | request => simp only [handle, hsub] at h; cases h
      | job => simp only [handle, hsub] at h; cases h
      | hello =>
        obtain ⟨x, hx⟩ := hw (.inl hsub)
        simp only [handle, hsub] at h
        obtain ⟨hk, rfl, hm⟩ := newWorker_keys hx hd h
        exact ⟨hk, .hello rfl hx hsub hm, hself⟩
      | heartbeat =>
        simp only [handle, hsub] at h
        obtain ⟨rfl, rfl⟩ := ok_pair_inj h
        exact ⟨hd, .heartbeat hsub fun _ => Iff.rfl, hself⟩
      | result =>
        simp only [handle, hsub] at h
        obtain ⟨hk, hout, hm⟩ := receiveResult_keys hd h
        rw [forwarded_eq_nil (by decide) hout]
        exact ⟨hk, .nothing hm, List.forall_mem_nil _⟩
      | goodbye =>
        rw [handle_networkGoodbye (e := .recv .network m now fails) hsub] at h
        cases h

/-! ## The invariant -/

/-- What a message does to whether the heartbeat thread monitors `x`. -/
def track (x : Str) (b : Bool) (m : Message) : Bool :=
  if m.address.getLast? = some x then
    match m.subject with
    | .hello => true
    | .goodbye => false
    | _ => b
  else b

namespace System

/-- Whether the heartbeat thread monitors `x` once it has read its messages. -/
def monitored (s : System) (x : Str) : Bool := s.toHB.foldl (track x) (decide (x ∈ s.hb.clients))

/-- A GOODBYE for `x` is on the way to the delegator. -/
def ByePending (s : System) (x : Str) : Prop :=
  ∃ m ∈ s.toDel, m.subject = .goodbye ∧ m.address.head? = some x

/-- The condition on a step: no GOODBYE comes from the network; the delegator handles a HELLO only
when no GOODBYE for the worker is on the way to it; a client times out only when none of its
messages on the way to the heartbeat thread would insert it again; and a send fails only to a
worker that is not connected, or for which a GOODBYE is on the way. -/
def Safe (s : System) : Act → Prop
  | .event (.recv .network m _ _) =>
    m.subject ≠ .goodbye ∧ (m.subject = .hello → ∀ x, m.address.head? = some x → ¬ s.ByePending x)
  | .fromHB _ fails =>
    fails = true → ∀ m, s.toDel.head? = some m → m.subject = .heartbeat →
      ∀ x, m.address.head? = some x → x ∈ s.del.workers → s.ByePending x
  | .failedSend m => ∀ x, m.address.head? = some x → x ∈ s.del.workers → s.ByePending x
  | .pollHB clock _ _ =>
    ∀ x ∈ s.hb.clients, s.hb.TimedOut clock x → s.toHB.foldl (track x) false = false
  | _ => True

/-- **The invariant.** -/
structure Tracked (s : System) : Prop where
  keyed : Keyed s.del
  addressed : ∀ m ∈ s.toDel, m.address ≠ []
  tracked : ∀ x, (x ∈ s.del.workers ∧ ¬ s.ByePending x) ↔ s.monitored x = true

variable {s s' : System}

theorem Tracked.init (nJobTypes workerCount msRate msTimeout : ℕ) (now : ℤ) :
    Tracked (.init nJobTypes workerCount msRate msTimeout now) := by
  refine ⟨All.empty, fun m hm => (List.not_mem_nil hm).elim, ?_⟩
  intro x
  simp [System.init, Delegator.init, ServerHeartbeat.init, monitored]

/-- At rest the invariant is agreement. -/
theorem Tracked.agree (h : Tracked s) (hrest : s.AtRest) : s.Agree := by
  intro x
  obtain ⟨hhb, hdel⟩ := hrest
  have hx := h.tracked x
  have hno : ¬ s.ByePending x := by
    rintro ⟨m, hm, -⟩
    rw [hdel] at hm
    cases hm
  simpa [monitored, hhb, hno] using hx

/-- The delegator handled `e` and forwarded a message, or none. -/
theorem tracked_event {d : Delegator} {e : Event} {out : List Message} (ht : Tracked s) (hd : Keyed d)
    (hsafe : s.Safe (.event e)) (hf : Forwards s.del d e out) :
    Tracked { s with del := d, toHB := s.toHB ++ out } := by
  refine ⟨hd, ht.addressed, ?_⟩
  intro x
  have hx := ht.tracked x
  have hfold : ({ s with del := d, toHB := s.toHB ++ out } : System).monitored x =
      out.foldl (track x) (s.monitored x) := by
    simp only [monitored, List.foldl_append]
  rw [hfold]
  show (x ∈ d.workers ∧ ¬ s.ByePending x) ↔ _
  cases hf with
  | nothing hm => simpa only [hm, List.foldl_nil] using hx
  | @heartbeat m hsub hm =>
    have hb : track x (s.monitored x) m = s.monitored x := by
      unfold track
      simp only [hsub, ite_self]
    rw [List.foldl_cons, List.foldl_nil, hb]
    simpa only [hm] using hx
  | @hello m y now fails he haddr hsub hm =>
    subst he
    have hno : ¬ s.ByePending y := hsafe.2 hsub y (by rw [haddr]; rfl)
    simp only [List.foldl_cons, List.foldl_nil, track, haddr, hsub, List.getLast?_singleton,
      Option.some.injEq, hm]
    rcases eq_or_ne y x with rfl | hne
    · simpa using hno
    · rw [if_neg hne]
      simpa [hne.symm] using hx

/-- The delegator dropped the worker `y`, which is not connected or has a GOODBYE on the way. -/
theorem tracked_drop {d : Delegator} {y : Str} {rest : List Message} (ht : Tracked s) (hd : Keyed d)
    (hm : ∀ a, a ∈ d.workers ↔ a ∈ s.del.workers ∧ a ≠ y) (hy : y ∈ s.del.workers → s.ByePending y)
    (hrest : ∀ m ∈ rest, m ∈ s.toDel)
    (hbye : ∀ x, x ≠ y → s.ByePending x → ∃ m ∈ rest, m.subject = .goodbye ∧ m.address.head? = some x) :
    Tracked { s with del := d, toHB := s.toHB, toDel := rest } := by
  refine ⟨hd, fun m h => ht.addressed m (hrest m h), ?_⟩
  intro x
  have hx := ht.tracked x
  show (x ∈ d.workers ∧ ¬ ∃ m ∈ rest, m.subject = .goodbye ∧ m.address.head? = some x) ↔
    s.monitored x = true
  rw [hm]
  rcases eq_or_ne x y with rfl | hne
  · -- it is gone on one side, and on the other once the messages are read
    have hno : ¬ s.monitored x = true := fun h => (hx.2 h).2 (hy (hx.2 h).1)
    exact ⟨fun h => absurd rfl h.1.2, fun h => absurd h hno⟩
  · have hiff : (∃ m ∈ rest, m.subject = .goodbye ∧ m.address.head? = some x) ↔ s.ByePending x :=
      ⟨fun ⟨m, h, h'⟩ => ⟨m, hrest m h, h'⟩, hbye x hne⟩
    rw [hiff, ← hx]
    exact ⟨fun h => ⟨h.1.1, h.2⟩, fun h => ⟨⟨h.1, hne⟩, h.2⟩⟩

/-- The delegator handled the oldest message of the heartbeat thread. -/
theorem tracked_fromHB {d : Delegator} {m : Message} {rest : List Message} {now : ℤ} {fails : Bool}
    {out : List Send} (ht : Tracked s) (hdel : s.toDel = m :: rest) (hsafe : s.Safe (.fromHB now fails))
    (h : s.del.handle (.recv .heartbeat m now fails) = .ok (d, out)) :
    Tracked { s with del := d, toHB := s.toHB ++ forwarded out, toDel := rest } := by
  obtain ⟨x, tl, hx⟩ :=
    List.exists_cons_of_ne_nil (ht.addressed m (by rw [hdel]; exact List.mem_cons_self))
  have hhead : m.address.head? = some x := by rw [hx]; rfl
  have hmem : ∀ m' ∈ rest, m' ∈ s.toDel := fun m' h => hdel ▸ List.mem_cons_of_mem _ h
  -- a GOODBYE on the way is still there, unless it is the one that was read
  have hbye : ∀ y, s.ByePending y → (m.subject = .goodbye ∧ y = x) ∨
      ∃ m' ∈ rest, m'.subject = .goodbye ∧ m'.address.head? = some y := by
    rintro y ⟨m', hm', hsub, haddr⟩
    rw [hdel] at hm'
    rcases List.mem_cons.1 hm' with rfl | hm'
    · exact .inl ⟨hsub, Option.some.inj (haddr.symm.trans hhead)⟩
    · exact .inr ⟨m', hm', hsub, haddr⟩
  cases hsub : m.subject with
  | heartbeat =>
    -- a HEARTBEAT was read, so every GOODBYE is still there
    have hkeep : ∀ y, s.ByePending y → ∃ m' ∈ rest, m'.subject = .goodbye ∧
        m'.address.head? = some y := by
      intro y hy
      rcases hbye y hy with ⟨h, -⟩ | h
      · rw [hsub] at h
        cases h
      · exact h
    cases fails with
    | false =>
      simp only [handle, hsub, Bool.false_eq_true, if_false] at h
      obtain ⟨rfl, rfl⟩ := ok_pair_inj h
      refine ⟨ht.keyed, fun m' h => ht.addressed m' (hmem m' h), ?_⟩
      intro y
      have hiff : (∃ m' ∈ rest, m'.subject = .goodbye ∧ m'.address.head? = some y) ↔ s.ByePending y :=
        ⟨Exists.imp fun m' h => ⟨hmem m' h.1, h.2⟩, hkeep y⟩
      show (y ∈ s.del.workers ∧ ¬ ∃ m' ∈ rest, m'.subject = .goodbye ∧ m'.address.head? = some y) ↔
        (s.toHB ++ []).foldl (track y) (decide (y ∈ s.hb.clients)) = true
      rw [hiff, List.append_nil]
      exact ht.tracked y
    | true =>
      simp only [handle, hsub, if_true] at h
      obtain ⟨d₁, h₁, h⟩ := bind_eq_ok h
      obtain ⟨rfl, rfl⟩ := ok_pair_inj h
      obtain ⟨hk, hm⟩ := disconnectWorker_keys hhead ht.keyed h₁
      rw [show forwarded [] = [] from rfl, List.append_nil]
      exact tracked_drop ht hk hm (hsafe rfl m (by rw [hdel]; rfl) hsub x hhead) hmem
        fun y _ hy => hkeep y hy
  | goodbye =>
    simp only [handle, hsub] at h
    obtain ⟨d₁, h₁, h⟩ := bind_eq_ok h
    obtain ⟨rfl, rfl⟩ := ok_pair_inj h
    obtain ⟨hk, hm⟩ := disconnectWorker_keys hhead ht.keyed h₁
    rw [show forwarded [] = [] from rfl, List.append_nil]
    refine tracked_drop ht hk hm
      (fun _ => ⟨m, by rw [hdel]; exact List.mem_cons_self, hsub, hhead⟩) hmem ?_
    intro y hne hy
    rcases hbye y hy with ⟨-, h⟩ | h
    · exact absurd h hne
    · exact h
  | _ => simp only [handle, hsub] at h; cases h

/-- A message read by the heartbeat thread does what was foreseen. -/
theorem handle_clients {hb hb' : ServerHeartbeat} {m : Message} {now : ℤ}
    (h : hb.handle m now = .ok hb') (x : Str) :
    decide (x ∈ hb'.clients) = track x (decide (x ∈ hb.clients)) m := by
  obtain ⟨addr, haddr, ⟨hsub, rfl⟩ | ⟨hsub, -, rfl⟩ | ⟨hsub, rfl⟩⟩ := ServerHeartbeat.handle_eq_ok h
  · unfold track
    rw [haddr]
    simp only [ExtTreeSet.mem_insert, LawfulEqCmp.compare_eq_iff_eq, hsub, Option.some.injEq]
    by_cases he : addr = x
    · simp [he]
    · simp [he]
  · unfold track
    rw [haddr]
    simp only [ExtTreeSet.mem_erase, ne_eq, LawfulEqCmp.compare_eq_iff_eq, hsub, Option.some.injEq]
    by_cases he : addr = x
    · simp [he]
    · simp [he]
  · unfold track
    simp only [hsub, ite_self]

/-- A poll of the heartbeat thread. -/
theorem tracked_pollHB {clock : Str → ℤ} {currentTime now : ℤ} (ht : Tracked s)
    (hsafe : s.Safe (.pollHB clock currentTime now)) :
    Tracked { s with
      hb := (s.hb.onPoll clock currentTime now).1
      toDel := s.toDel ++ (s.hb.onPoll clock currentTime now).2 } := by
  obtain ⟨-, hbye, hmem⟩ := s.hb.onPoll_spec clock currentTime now
  refine ⟨ht.keyed, ?_, ?_⟩
  · intro m hm
    rcases List.mem_append.1 hm with hm | hm
    · exact ht.addressed m hm
    · rcases hmem m hm with ⟨x, -, -, rfl⟩ | ⟨-, h⟩
      · simp only [ne_eq, List.cons_ne_nil, not_false_eq_true]
      · exact h
  · intro x
    have hx := ht.tracked x
    unfold ByePending monitored at hx ⊢
    simp only
    by_cases hto : x ∈ s.hb.clients ∧ s.hb.TimedOut clock x
    · -- removed here, and on its way to be removed there
      have hb : ∃ m ∈ s.toDel ++ (s.hb.onPoll clock currentTime now).2,
          m.subject = .goodbye ∧ m.address.head? = some x :=
        ⟨_, List.mem_append_right _ (hbye x hto.1 hto.2), rfl, rfl⟩
      rw [ServerHeartbeat.onPoll_gone hto.2, hsafe x hto.1 hto.2]
      exact ⟨fun h => absurd hb h.2, fun h => absurd h (by simp)⟩
    · have hb : (∃ m ∈ s.toDel ++ (s.hb.onPoll clock currentTime now).2,
          m.subject = .goodbye ∧ m.address.head? = some x) ↔
          ∃ m ∈ s.toDel, m.subject = .goodbye ∧ m.address.head? = some x := by
        constructor
        · rintro ⟨m, hm, hsub, haddr⟩
          rcases List.mem_append.1 hm with hm | hm
          · exact ⟨m, hm, hsub, haddr⟩
          · rcases hmem m hm with ⟨y, hy, hyto, rfl⟩ | ⟨h, -⟩
            · obtain rfl : y = x := Option.some.inj haddr
              exact absurd ⟨hy, hyto⟩ hto
            · rw [hsub] at h
              cases h
        · rintro ⟨m, hm, h⟩
          exact ⟨m, List.mem_append_left _ hm, h⟩
      rw [hb, ServerHeartbeat.onPoll_stays hto]
      exact hx

/-- The heartbeat thread read the oldest message of the delegator. -/
theorem tracked_fromDel {hb : ServerHeartbeat} {m : Message} {rest : List Message} {now : ℤ}
    (ht : Tracked s) (hhb : s.toHB = m :: rest) (h : s.hb.handle m now = .ok hb) :
      Tracked { s with hb, toHB := rest } := by
  refine ⟨ht.keyed, ht.addressed, ?_⟩
  intro x
  have hx := ht.tracked x
  unfold monitored at hx ⊢
  rw [hhb, List.foldl_cons, ← handle_clients h x] at hx
  exact hx

/-- The fallback of a send that failed. -/
theorem tracked_failedSend {d : Delegator} {m : Message} (ht : Tracked s) (haddr : m.address ≠ [])
    (hsafe : s.Safe (.failedSend m)) (h : s.del.sendFailed m = .ok d) :
      Tracked { s with del := d } := by
  obtain ⟨x, tl, hx⟩ := List.exists_cons_of_ne_nil haddr
  have hhead : m.address.head? = some x := List.head?_eq_some_iff.2 ⟨tl, hx⟩
  obtain ⟨hk, hm⟩ := disconnectWorker_keys hhead ht.keyed h
  exact tracked_drop ht hk hm (hsafe x hhead) (fun _ h => h) fun _ _ h => h

theorem afterDel_eq_some {toDel : List Message} {res : Except Fault (Delegator × List Send)}
    (hs : s.afterDel toDel res = some s') :
    ∃ d out, res = .ok (d, out) ∧ s' = { s with del := d, toHB := s.toHB ++ forwarded out, toDel } := by
  unfold afterDel at hs
  split at hs
  · rename_i d out
    injection hs with hs
    exact ⟨d, out, rfl, hs.symm⟩
  · cases hs

/-- **A safe step keeps the invariant.** -/
theorem tracked_step {a : Act} (ht : Tracked s) (hw : FromWorker a) (hsafe : s.Safe a)
    (hs : s.step a = some s') :
    Tracked s' := by
  cases a with
  | event e =>
    have key : (∀ m now fails, e ≠ .recv .heartbeat m now fails) →
        s.afterDel s.toDel (s.del.handle e) = some s' →
        Tracked s' := by
      intro hne hs
      obtain ⟨d, out, h, rfl⟩ := afterDel_eq_some hs
      obtain ⟨hk, hf, -⟩ := handle_forwards ht.keyed hw hne h
      exact tracked_event ht hk hsafe hf
    cases e with
    | poll clock fails => exact key (by simp) hs
    | recv sock m now fails =>
      cases sock with
      | heartbeat => cases hs
      | requester => exact key (by simp) hs
      | network => exact key (by simp) hs
  | fromHB now fails =>
    simp only [step] at hs
    split at hs
    · cases hs
    · rename_i m rest hdel
      obtain ⟨d, out, h, rfl⟩ := afterDel_eq_some hs
      exact tracked_fromHB ht hdel hsafe h
  | failedSend m =>
    simp only [step] at hs
    obtain ⟨d, out, h, rfl⟩ := afterDel_eq_some hs
    obtain ⟨d₁, h₁, h⟩ := bind_eq_ok h
    obtain ⟨rfl, rfl⟩ := ok_pair_inj h
    rw [show forwarded [] = [] from rfl, List.append_nil]
    exact tracked_failedSend ht hw hsafe h₁
  | fromDel now =>
    simp only [step] at hs
    split at hs
    · cases hs
    · rename_i m rest hhb
      split at hs
      · rename_i hb h
        injection hs with hs
        subst hs
        exact tracked_fromDel ht hhb h
      · cases hs
  | pollHB clock currentTime now =>
    injection hs with hs
    subst hs
    exact tracked_pollHB ht hsafe

/-- **Agreement at rest**: in every run of safe steps, whenever both channels are empty, the
delegator and the heartbeat thread know the same workers. -/
theorem agree_at_rest {nJobTypes workerCount msRate msTimeout : ℕ} {now : ℤ} {as : List Act}
    (h : Reach step (fun s a => FromWorker a ∧ s.Safe a)
      (.init nJobTypes workerCount msRate msTimeout now) as s)
    (hrest : s.AtRest) : s.Agree := by
  have ht : Tracked s := h.invariant (P := fun _ s => Tracked s) (.init _ _ _ _ _)
    fun _ _ _ _ _ ih hok hs => tracked_step ih hok.1 hok.2 hs
  exact ht.agree hrest

/-- A worker says HELLO. -/
def helloAct : Act := .event (.recv .network ⟨[['w']], .hello, [[]]⟩ 0 false)

/-- A poll at a time of all reads, in nanoseconds. -/
def pollAct (time : ℤ) : Act := .pollHB (fun _ => time) time time

set_option maxRecDepth 8000 in
/-- A worker connects and is timed out, and both sides forget it. -/
theorem agree_at_rest_run : ∃ as s, as = [helloAct, .fromDel 0, pollAct 6000000000, .fromHB 0 false] ∧
    Reach step (fun s a => FromWorker a ∧ s.Safe a) (.init 2 0 1000 5000 0) as s ∧ s.AtRest ∧
      s.Agree := by
  have h : Reach step (fun s a => FromWorker a ∧ s.Safe a) (.init 2 0 1000 5000 0) [] _ := .start
  have h := h.next' (e := helloAct)
    ⟨fun _ => ⟨['w'], rfl⟩, by decide, fun _ _ _ ⟨_, hm, _⟩ => List.not_mem_nil hm⟩ (by decide)
  have h := h.next' (e := Act.fromDel 0) ⟨trivial, trivial⟩ (by decide)
  have h := h.next' (e := pollAct 6000000000) ⟨trivial, fun x _ _ => by rfl⟩ (by decide)
  have h := h.next' (e := Act.fromHB 0 false) ⟨trivial, fun h => by cases h⟩ (by decide)
  exact ⟨_, _, rfl, h, ⟨by decide, by decide⟩, agree_at_rest h ⟨by decide, by decide⟩⟩

set_option maxRecDepth 8000 in
/-- **Two runs that end in disagreement**: a HEARTBEAT that cannot be sent, which only the
delegator hears of; and a repeated HELLO that crosses the GOODBYE of a timeout. -/
theorem disagree_in_run :
    (∃ s, Reach step (fun _ a => FromWorker a) (.init 2 0 1000 5000 0)
      [helloAct, .fromDel 0, pollAct 2000000000, .fromHB 0 true] s ∧ s.AtRest ∧ ¬ s.Agree) ∧
    ∃ s, Reach step (fun _ a => FromWorker a) (.init 2 0 1000 5000 0)
      [helloAct, .fromDel 0, pollAct 6000000000, helloAct, .fromHB 0 false, .fromDel 6000000000] s ∧
      s.AtRest ∧ ¬ s.Agree := by
  have h : Reach step (fun _ a => FromWorker a) (.init 2 0 1000 5000 0) [] _ := .start
  have h := h.next' (e := helloAct) (fun _ => ⟨['w'], rfl⟩) (by decide)
  have h := h.next' (e := Act.fromDel 0) trivial (by decide)
  constructor
  · have h := h.next' (e := pollAct 2000000000) trivial (by decide)
    have h := h.next' (e := Act.fromHB 0 true) trivial (by decide)
    exact ⟨_, h, ⟨by decide, by decide⟩, fun ha => absurd ((ha ['w']).2 (by decide)) (by decide)⟩
  · have h := h.next' (e := pollAct 6000000000) trivial (by decide)
    have h := h.next' (e := helloAct) (fun _ => ⟨['w'], rfl⟩) (by decide)
    have h := h.next' (e := Act.fromHB 0 false) trivial (by decide)
    have h := h.next' (e := Act.fromDel 6000000000) trivial (by decide)
    exact ⟨_, h, ⟨by decide, by decide⟩, fun ha => absurd ((ha ['w']).2 (by decide)) (by decide)⟩

end System

end Stateline
