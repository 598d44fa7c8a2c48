import Stateline.Proof.Agree

/-!
# GOODBYEs at the heartbeat thread

`deleteClient` erases what it finds without a look, so that every GOODBYE has to
find its client. The delegator is to forward the GOODBYEs of workers, but its callback
for them is undefined; and the heartbeat thread removes the clients that it times out
by their keys.

* `Unasked`: no GOODBYE is on the way to the heartbeat thread. `unasked_step`: a step keeps it.
* `removes_only_clients`: **in every run without a GOODBYE from the network `deleteClient`
  only runs for clients**; there is no state after such a GOODBYE.
* `goodbye_in_run`: a run that a GOODBYE of a client ends.
-/

namespace Stateline

open Std Lib Delegator

namespace System

/-- The delegator handles a GOODBYE from the network. -/
def Act.NetworkGoodbye : Act → Prop
  | .event e => e.NetworkGoodbye
  | _ => False

/-- If the heartbeat thread reads a GOODBYE next, it finds its client. -/
def FindsClient (s : System) : Prop :=
  ∀ m rest, s.toHB = m :: rest → m.subject = .goodbye → ∃ x, back m.address = .ok x ∧ x ∈ s.hb.clients

/-- **The invariant.** -/
structure Unasked (s : System) : Prop where
  keyed : Keyed s.del
  unasked : ∀ m ∈ s.toHB, m.subject ≠ .goodbye

variable {s s' : System} {m : Message} {a : Act}

theorem Unasked.init (nJobTypes workerCount msRate msTimeout : ℕ) (now : ℤ) :
    Unasked (.init nJobTypes workerCount msRate msTimeout now) :=
  ⟨All.empty, List.forall_mem_nil _⟩

theorem Unasked.findsClient (h : Unasked s) : s.FindsClient := by
  intro m rest hhb hsub
  exact absurd hsub (h.unasked m (by rw [hhb]; exact List.mem_cons_self))

theorem step_networkGoodbye (s : System) (h : a.NetworkGoodbye) : s.step a = none := by
  cases a with
  | event e =>
    have hrun : s.del.handle e = .error .undefined := handle_networkGoodbye h
    cases e with
    | poll clock fails => exact h.elim
    | recv sock m now fails =>
      cases sock with
      | requester | heartbeat => exact h.elim
      | network =>
        simp only [step, hrun]
        rfl
  | fromHB | failedSend | fromDel | pollHB => exact h.elim

/-! ## The delegator -/

/-- Dropping a worker keeps the others under their identities. -/
theorem disconnectWorker_keyed {d d' : Delegator} (hd : Keyed d)
    (h : d.disconnectWorker m = .ok d') : Keyed d' := by
  obtain ⟨x, hx, -⟩ := bind_eq_ok h
  exact (disconnectWorker_keys (head?_of_front hx) hd h).1

/-- The messages of the heartbeat thread are not sent back to it. -/
theorem handle_fromHB {d d' : Delegator} {now : ℤ} {fails : Bool} {out : List Send} (hd : Keyed d)
    (h : d.handle (.recv .heartbeat m now fails) = .ok (d', out)) : Keyed d' ∧ forwarded out = [] := by
  cases hsub : m.subject with
  | heartbeat =>
    simp only [handle, hsub] at h
    split at h
    · obtain ⟨d₁, h₁, h⟩ := bind_eq_ok h
      obtain ⟨rfl, rfl⟩ := ok_pair_inj h
      exact ⟨disconnectWorker_keyed hd h₁, rfl⟩
    · obtain ⟨rfl, rfl⟩ := ok_pair_inj h
      exact ⟨hd, rfl⟩
  | goodbye =>
    simp only [handle, hsub] at h
    obtain ⟨d₁, h₁, h⟩ := bind_eq_ok h
    obtain ⟨rfl, rfl⟩ := ok_pair_inj h
    exact ⟨disconnectWorker_keyed hd h₁, rfl⟩
  | _ => simp only [handle, hsub] at h; cases h

/-- The delegator handled something, and forwarded no GOODBYE. -/
theorem Unasked.after {d : Delegator} {out toDel : List Message} (hu : Unasked s) (hd : Keyed d)
    (hout : ∀ m ∈ out, m.subject ≠ .goodbye) :
    Unasked { s with del := d, toHB := s.toHB ++ out, toDel } := by
  refine ⟨hd, ?_⟩
  intro m hm
  rcases List.mem_append.1 hm with hm | hm
  · exact hu.unasked m hm
  · exact hout m hm

/-- What the delegator forwards of an event is the message that it handled, and so no GOODBYE. -/
theorem unasked_event {e : Event} (hu : Unasked s) (hw : FromWorker (.event e))
    (hne : ∀ m now fails, e ≠ .recv .heartbeat m now fails)
    (hs : s.afterDel s.toDel (s.del.handle e) = some s') : Unasked s' := by
  obtain ⟨d, out, h, rfl⟩ := afterDel_eq_some hs
  obtain ⟨hk, -, hself⟩ := handle_forwards hu.keyed hw hne h
  refine hu.after hk ?_
  intro m hm hsub
  obtain ⟨now, fails, rfl⟩ := hself m hm
  rw [handle_networkGoodbye (e := .recv .network m now fails) hsub] at h
  cases h

/-! ## Runs -/

/-- **Every step keeps the invariant.** -/
theorem unasked_step (hu : Unasked s) (hw : FromWorker a) (hs : s.step a = some s') : Unasked s' := by
  cases a with
  | event e =>
    cases e with
    | poll clock fails => exact unasked_event hu hw (by simp) hs
    | recv sock m now fails =>
      cases sock with
      | heartbeat => cases hs
      | requester => exact unasked_event hu hw (by simp) hs
      | network => exact unasked_event hu hw (by simp) hs
  | fromHB now fails =>
    simp only [step] at hs
    split at hs
    · cases hs
    · rename_i m rest hdel
      obtain ⟨d, out, h, rfl⟩ := afterDel_eq_some hs
      obtain ⟨hk, hout⟩ := handle_fromHB hu.keyed h
      rw [hout]
      exact hu.after hk (List.forall_mem_nil _)
  | failedSend m =>
    simp only [step] at hs
    obtain ⟨d, out, h, rfl⟩ := afterDel_eq_some hs
    obtain ⟨d₁, h₁, h⟩ := bind_eq_ok h
    obtain ⟨rfl, rfl⟩ := ok_pair_inj h
    exact hu.after (disconnectWorker_keyed hu.keyed h₁) (List.forall_mem_nil _)
  | fromDel now =>
    simp only [step] at hs
    split at hs
    · cases hs
    · rename_i m rest hhb
      split at hs
      · injection hs with hs
        subst hs
        exact ⟨hu.keyed, fun m' hm' => hu.unasked m' (by rw [hhb]; exact List.mem_cons_of_mem _ hm')⟩
      · cases hs
  | pollHB clock currentTime now =>
    injection hs with hs
    subst hs
    exact ⟨hu.keyed, hu.unasked⟩

/-- **`deleteClient` only runs for clients**, and timeouts are only those of clients, in every run
without a GOODBYE from the network. The next step ends in undefined behaviour if it is such a
GOODBYE, and keeps this if there is a state after it. -/
theorem removes_only_clients {nJobTypes workerCount msRate msTimeout : ℕ} {now : ℤ} {as : List Act}
    (h : Reach step (fun _ a => FromWorker a ∧ ¬ a.NetworkGoodbye)
      (.init nJobTypes workerCount msRate msTimeout now) as s) :
    s.FindsClient ∧
    (∀ clock currentTime now, ∀ m ∈ (s.hb.onPoll clock currentTime now).2, m.subject = .goodbye →
      ∃ x ∈ s.hb.clients, m.address = [x]) ∧
    ∀ a, FromWorker a → (a.NetworkGoodbye → s.step a = none) ∧
      ∀ s', s.step a = some s' → s'.FindsClient := by
  have hu : Unasked s := h.invariant (P := fun _ s => Unasked s) (.init _ _ _ _ _)
    fun _ _ _ _ _ ih hok hs => unasked_step ih hok.1 hs
  refine ⟨hu.findsClient, ?_, ?_⟩
  · intro clock currentTime now m hm hsub
    rcases (s.hb.onPoll_spec clock currentTime now).2.2 m hm with ⟨x, hx, -, rfl⟩ | ⟨hbeat, -⟩
    · exact ⟨x, hx, rfl⟩
    · rw [hsub] at hbeat
      cases hbeat
  · intro a hw
    exact ⟨step_networkGoodbye s, fun s' hs => (unasked_step hu hw hs).findsClient⟩

/-- A worker says GOODBYE. -/
def goodbyeAct : Act := .event (.recv .network ⟨[['w']], .goodbye, []⟩ 0 false)

set_option maxRecDepth 8000 in
/-- A worker says HELLO, and would be timed out six seconds later as the client that it is. -/
theorem removes_only_clients_run :
    ∃ s, Reach step (fun _ a => FromWorker a ∧ ¬ a.NetworkGoodbye) (.init 2 0 1000 5000 0)
      [helloAct, .fromDel 0] s ∧ s.FindsClient ∧
    ⟨[['w']], .goodbye, []⟩ ∈ (s.hb.onPoll (fun _ => 6000000000) 6000000000 6000000000).2 ∧
    ∃ x ∈ s.hb.clients, [['w']] = [x] := by
  have h : Reach step (fun _ a => FromWorker a ∧ ¬ a.NetworkGoodbye) (.init 2 0 1000 5000 0) [] _ :=
    .start
  have h := h.next' (e := helloAct) ⟨fun _ => ⟨['w'], rfl⟩, fun h => by cases h⟩ (by decide)
  have h := h.next' (e := Act.fromDel 0) ⟨trivial, id⟩ (by decide)
  obtain ⟨hfinds, htimed, -⟩ := removes_only_clients h
  refine ⟨_, h, hfinds, ?late, htimed (fun _ => 6000000000) 6000000000 6000000000 _ ?late rfl⟩
  case late => decide

set_option maxRecDepth 8000 in
/-- **A GOODBYE of a client**: the callback of the delegator is undefined, and there is no state after it
in which `deleteClient` finds the client. -/
theorem goodbye_in_run : ∃ s, Reach step (fun _ a => FromWorker a) (.init 2 0 1000 5000 0)
      [helloAct, .fromDel 0] s ∧
    ['w'] ∈ s.hb.clients ∧ FromWorker goodbyeAct ∧
    s.del.handle (.recv .network ⟨[['w']], .goodbye, []⟩ 0 false) = .error .undefined ∧
    ¬ ∃ s', s.step goodbyeAct = some s' ∧ s'.FindsClient := by
  have h : Reach step (fun _ a => FromWorker a) (.init 2 0 1000 5000 0) [] _ := .start
  have h := h.next' (e := helloAct) (fun _ => ⟨['w'], rfl⟩) (by decide)
  have h := h.next' (e := Act.fromDel 0) trivial (by decide)
  refine ⟨_, h, by decide, fun _ => ⟨['w'], rfl⟩, handle_networkGoodbye rfl, ?_⟩
  rintro ⟨s', hs, -⟩
  rw [step_networkGoodbye (a := goodbyeAct) _ rfl] at hs
  cases hs

end System

end Stateline
