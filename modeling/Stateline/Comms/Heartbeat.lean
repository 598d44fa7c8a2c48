import Stateline.Comms.Message
import Stateline.Lib.TreeMap

/-!
# The heartbeat thread of the server

`comms/serverheartbeat.cpp`: it keeps the clients it has seen a HELLO of, sends
GOODBYE on behalf of those that have been silent too long, and HEARTBEATs to the
others. Clocks are in nanoseconds.

* `monitorTimeouts_spec`: one GOODBYE for each client that timed out, and only these
  are removed.
-/

namespace Stateline

open Std Lib

structure ServerHeartbeat where
  clients : ExtTreeSet Str
  lastHeartbeats : ExtTreeMap Str ℤ
  lastSendTime : ℤ
  msRate : ℕ
  msTimeout : ℕ

namespace ServerHeartbeat

/-- The thread when it starts. -/
def init (msRate msTimeout : ℕ) (now : ℤ) : ServerHeartbeat := ⟨∅, ∅, now, msRate, msTimeout⟩

/-- `duration_cast<milliseconds>`. -/
def milliseconds (ns : ℤ) : ℤ := ns.tdiv 1000000

/-- `insertClient`. -/
def insertClient (hb : ServerHeartbeat) (m : Message) (now : ℤ) : Except Fault ServerHeartbeat := do
  let addr ← back m.address
  return { hb with clients := hb.clients.insert addr,
                   lastHeartbeats := hb.lastHeartbeats.insertIfNew addr now }

/-- `deleteClient`. Erasing `end()`, for a client that is not there, is undefined. -/
def deleteClient (hb : ServerHeartbeat) (m : Message) : Except Fault ServerHeartbeat := do
  let addr ← back m.address
  if addr ∈ hb.clients then
    return { hb with clients := hb.clients.erase addr, lastHeartbeats := hb.lastHeartbeats.erase addr }
  else .error .undefined

/-- `receiveHeartbeat`. -/
def receiveHeartbeat (hb : ServerHeartbeat) (m : Message) (now : ℤ) : Except Fault ServerHeartbeat := do
  let addr ← back m.address
  return { hb with lastHeartbeats := hb.lastHeartbeats.insert addr now }

/-- One client of the loop of `monitorTimeouts`, over the map, the messages and `toRemove`. -/
def checkTimeout (msTimeout : ℕ) (clock : Str → ℤ)
    (st : ExtTreeMap Str ℤ × List Message × List Str) (addr : Str) :
    ExtTreeMap Str ℤ × List Message × List Str :=
  let (last, lastHeartbeats) := subscript st.1 addr
  if (msTimeout : ℤ) < milliseconds (clock addr - last) then
    (lastHeartbeats.erase addr, st.2.1 ++ [⟨[addr], .goodbye, []⟩], st.2.2 ++ [addr])
  else (lastHeartbeats, st.2)

/-- `monitorTimeouts`, with the time read for each client. -/
def monitorTimeouts (hb : ServerHeartbeat) (clock : Str → ℤ) : ServerHeartbeat × List Message :=
  let st := hb.clients.toList.foldl (checkTimeout hb.msTimeout clock) (hb.lastHeartbeats, [], [])
  ({ hb with clients := st.2.2.foldl (fun c addr => c.erase addr) hb.clients,
             lastHeartbeats := st.1 }, st.2.1)

/-- `sendHeartbeats`, with the time read before and after the sends. -/
def sendHeartbeats (hb : ServerHeartbeat) (currentTime now : ℤ) : ServerHeartbeat × List Message :=
  if (hb.msRate : ℤ) ≤ milliseconds (currentTime - hb.lastSendTime) then
    ({ hb with lastSendTime := if hb.clients.toList = [] then hb.lastSendTime else now },
      hb.clients.toList.map fun addr => ⟨[addr], .heartbeat, []⟩)
  else (hb, [])

/-- The callback of the poll. -/
def onPoll (hb : ServerHeartbeat) (clock : Str → ℤ) (currentTime now : ℤ) :
    ServerHeartbeat × List Message :=
  let (hb, goodbyes) := hb.monitorTimeouts clock
  let (hb, heartbeats) := hb.sendHeartbeats currentTime now
  (hb, goodbyes ++ heartbeats)

/-- The callbacks bound in the constructor. A subject with none calls an empty function. -/
def handle (hb : ServerHeartbeat) (m : Message) (now : ℤ) : Except Fault ServerHeartbeat :=
  match m.subject with
  | .hello => hb.insertClient m now
  | .goodbye => hb.deleteClient m
  | .heartbeat => hb.receiveHeartbeat m now
  | _ => .error .exception

/-! ## Messages -/

/-- **What a message did**, where it was handled. -/
theorem handle_eq_ok {hb hb' : ServerHeartbeat} {m : Message} {now : ℤ}
    (h : hb.handle m now = .ok hb') :
    ∃ addr, m.address.getLast? = some addr ∧
      ((m.subject = .hello ∧ hb' = { hb with
          clients := hb.clients.insert addr,
          lastHeartbeats := hb.lastHeartbeats.insertIfNew addr now }) ∨
        (m.subject = .goodbye ∧ addr ∈ hb.clients ∧ hb' = { hb with
          clients := hb.clients.erase addr, lastHeartbeats := hb.lastHeartbeats.erase addr }) ∨
        (m.subject = .heartbeat ∧ hb' =
          { hb with lastHeartbeats := hb.lastHeartbeats.insert addr now })) := by
  unfold handle at h
  split at h
  · rename_i hsub
    obtain ⟨addr, haddr, h⟩ := bind_eq_ok h
    injection h with h
    exact ⟨addr, getLast?_of_back haddr, .inl ⟨hsub, h.symm⟩⟩
  · rename_i hsub
    obtain ⟨addr, haddr, h⟩ := bind_eq_ok h
    split at h
    · rename_i hmem
      injection h with h
      exact ⟨addr, getLast?_of_back haddr, .inr (.inl ⟨hsub, hmem, h.symm⟩)⟩
    · cases h
  · rename_i hsub
    obtain ⟨addr, haddr, h⟩ := bind_eq_ok h
    injection h with h
    exact ⟨addr, getLast?_of_back haddr, .inr (.inr ⟨hsub, h.symm⟩)⟩
  · cases h

/-! ## Timeouts -/

/-- The client has been silent too long. -/
def TimedOut (hb : ServerHeartbeat) (clock : Str → ℤ) (addr : Str) : Prop :=
  (hb.msTimeout : ℤ) < milliseconds (clock addr - (hb.lastHeartbeats[addr]?).getD 0)

instance (hb : ServerHeartbeat) (clock : Str → ℤ) (addr : Str) : Decidable (hb.TimedOut clock addr) :=
  inferInstanceAs (Decidable (_ < _))

/-- Checking one client does not change the time of another. -/
theorem checkTimeout_of_ne {msTimeout : ℕ} {clock : Str → ℤ}
    {st : ExtTreeMap Str ℤ × List Message × List Str} {addr x : Str} (h : addr ≠ x) :
    (checkTimeout msTimeout clock st addr).1[x]? = st.1[x]? := by
  have hsub : (subscript st.1 addr).2[x]? = st.1[x]? := by
    cases hl : st.1[addr]? with
    | none => rw [subscript_of_none hl, getElem?_insert_eq, if_neg h]
    | some t => rw [subscript_of_some hl]
  unfold checkTimeout
  dsimp only
  split
  · rw [getElem?_erase_eq, if_neg h]; exact hsub
  · exact hsub

/-- **The loop of `monitorTimeouts`**: one GOODBYE for each client that timed out. -/
theorem foldl_checkTimeout (msTimeout : ℕ) (clock last : Str → ℤ) (l : List Str) (hl : l.Nodup)
    (st : ExtTreeMap Str ℤ × List Message × List Str) (hlast : ∀ x ∈ l, (st.1[x]?).getD 0 = last x) :
    (l.foldl (checkTimeout msTimeout clock) st).2 =
      (st.2.1 ++ (l.filter fun x => (msTimeout : ℤ) <
        milliseconds (clock x - last x)).map fun x => ⟨[x], .goodbye, []⟩,
        st.2.2 ++ l.filter fun x => (msTimeout : ℤ) < milliseconds (clock x - last x)) := by
  induction l generalizing st with
  | nil => simp
  | cons a l ih =>
    obtain ⟨ha, hl⟩ := List.nodup_cons.1 hl
    rw [List.foldl_cons, ih hl]
    · have h : (subscript st.1 a).1 = last a := by rw [subscript_fst]; exact hlast a List.mem_cons_self
      unfold checkTimeout
      dsimp only
      rw [h]
      split
      · rename_i hlt
        rw [List.filter_cons_of_pos (by simpa using hlt)]
        simp
      · rename_i hlt
        rw [List.filter_cons_of_neg (by simpa using hlt)]
    · intro x hx
      rw [checkTimeout_of_ne (by rintro rfl; exact ha hx)]
      exact hlast x (List.mem_cons_of_mem _ hx)

theorem mem_foldl_erase {s : ExtTreeSet Str} {l : List Str} {x : Str} :
    x ∈ l.foldl (fun c addr => c.erase addr) s ↔ x ∈ s ∧ x ∉ l := by
  induction l generalizing s with
  | nil => simp
  | cons a l ih =>
    rw [List.foldl_cons, ih, ExtTreeSet.mem_erase, ne_eq, LawfulEqCmp.compare_eq_iff_eq,
      List.mem_cons, not_or, eq_comm, and_assoc, and_left_comm]

/-- **`monitorTimeouts`** removes the clients that timed out, with a GOODBYE for each. -/
theorem monitorTimeouts_spec (hb : ServerHeartbeat) (clock : Str → ℤ) :
    (∀ x, x ∈ (hb.monitorTimeouts clock).1.clients ↔ x ∈ hb.clients ∧ ¬ hb.TimedOut clock x) ∧
      (hb.monitorTimeouts clock).2 =
        (hb.clients.toList.filter fun x => hb.TimedOut clock x).map fun x => ⟨[x], .goodbye, []⟩ := by
  have h := foldl_checkTimeout hb.msTimeout clock
      (fun x => (hb.lastHeartbeats[x]?).getD 0) hb.clients.toList
    (nodup_toList_set _) (hb.lastHeartbeats, [], []) fun _ _ => rfl
  simp only [List.nil_append] at h
  unfold monitorTimeouts
  dsimp only
  rw [h]
  refine ⟨?_, rfl⟩
  intro x
  rw [mem_foldl_erase, List.mem_filter, ExtTreeSet.mem_toList, decide_eq_true_eq]
  unfold TimedOut
  exact ⟨fun ⟨h1, h2⟩ => ⟨h1, fun h => h2 ⟨h1, h⟩⟩, fun ⟨h1, h2⟩ => ⟨h1, fun h => h2 h.2⟩⟩

/-- `sendHeartbeats` only sends HEARTBEATs. -/
theorem sendHeartbeats_spec (hb : ServerHeartbeat) (currentTime now : ℤ) :
    (hb.sendHeartbeats currentTime now).1.clients = hb.clients ∧
      ∀ m ∈ (hb.sendHeartbeats currentTime now).2, m.subject = .heartbeat ∧ m.address ≠ [] := by
  unfold sendHeartbeats
  split
  · refine ⟨rfl, ?_⟩
    intro m hm
    obtain ⟨a, -, rfl⟩ := List.mem_map.1 hm
    exact ⟨rfl, by simp⟩
  · exact ⟨rfl, fun m hm => (List.not_mem_nil hm).elim⟩

/-- **A poll** removes the clients that timed out, and sends GOODBYE for these and HEARTBEATs. -/
theorem onPoll_spec (hb : ServerHeartbeat) (clock : Str → ℤ) (currentTime now : ℤ) :
    (∀ x, x ∈ (hb.onPoll clock currentTime now).1.clients ↔ x ∈ hb.clients ∧ ¬ hb.TimedOut clock x) ∧
      (∀ x ∈ hb.clients, hb.TimedOut clock x →
        ⟨[x], .goodbye, []⟩ ∈ (hb.onPoll clock currentTime now).2) ∧
      ∀ m ∈ (hb.onPoll clock currentTime now).2,
        (∃ x ∈ hb.clients, hb.TimedOut clock x ∧ m = ⟨[x], .goodbye, []⟩) ∨
          (m.subject = .heartbeat ∧ m.address ≠ []) := by
  obtain ⟨hclients, hgoodbyes⟩ := hb.monitorTimeouts_spec clock
  obtain ⟨hsame, hbeats⟩ := (hb.monitorTimeouts clock).1.sendHeartbeats_spec currentTime now
  have hout : (hb.onPoll clock currentTime now).2 =
      (hb.monitorTimeouts clock).2 ++
        ((hb.monitorTimeouts clock).1.sendHeartbeats currentTime now).2 := rfl
  refine ⟨?_, ?_, ?_⟩
  · intro x
    rw [← hclients, ← hsame]
    rfl
  · intro x hx hto
    rw [hout, hgoodbyes]
    refine List.mem_append_left _ (List.mem_map.2 ⟨x, ?_, rfl⟩)
    exact List.mem_filter.2 ⟨ExtTreeSet.mem_toList.2 hx, decide_eq_true hto⟩
  · intro m hm
    rw [hout, hgoodbyes] at hm
    rcases List.mem_append.1 hm with hm | hm
    · obtain ⟨x, hx, rfl⟩ := List.mem_map.1 hm
      obtain ⟨hx, hto⟩ := List.mem_filter.1 hx
      exact .inl ⟨x, ExtTreeSet.mem_toList.1 hx, of_decide_eq_true hto, rfl⟩
    · exact .inr (hbeats m hm)

/-- A client that timed out is no client after the poll. -/
theorem onPoll_gone {hb : ServerHeartbeat} {clock : Str → ℤ} {x : Str} (h : hb.TimedOut clock x)
    (currentTime now : ℤ) :
    decide (x ∈ (hb.onPoll clock currentTime now).1.clients) = false := by
  rw [decide_eq_false_iff_not, (hb.onPoll_spec clock currentTime now).1]
  exact fun hx => hx.2 h

/-- The others are clients as before. -/
theorem onPoll_stays {hb : ServerHeartbeat} {clock : Str → ℤ} {x : Str}
    (h : ¬ (x ∈ hb.clients ∧ hb.TimedOut clock x)) (currentTime now : ℤ) :
    decide (x ∈ (hb.onPoll clock currentTime now).1.clients) = decide (x ∈ hb.clients) := by
  rw [decide_eq_decide, (hb.onPoll_spec clock currentTime now).1]
  exact ⟨And.left, fun hx => ⟨hx, fun hto => h ⟨hx, hto⟩⟩⟩

end ServerHeartbeat

end Stateline
