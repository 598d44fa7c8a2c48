import Stateline.Comms.Heartbeat

/-!
# The heartbeat thread of a worker

`comms/clientheartbeat.cpp`: it sends HEARTBEATs to the server, and stops when the server says GOODBYE.
It does not watch the server, as the call of `monitorTimeout` is commented out. Clocks are in
nanoseconds.
-/

namespace Stateline

open ServerHeartbeat (milliseconds)

structure ClientHeartbeat where
  lastSendTime : ℤ
  lastReceivedTime : ℤ
  running : Bool
  msRate : ℕ
  deriving DecidableEq, Repr

namespace ClientHeartbeat

/-- The thread when it starts. -/
def init (msRate : ℕ) (sendTime receivedTime : ℤ) : ClientHeartbeat :=
  ⟨sendTime, receivedTime, true, msRate⟩

/-- `heartbeatArrived`. -/
def heartbeatArrived (hb : ClientHeartbeat) (now : ℤ) : ClientHeartbeat :=
  { hb with lastReceivedTime := now }

/-- `sendHeartbeat`, with the time read before and after the send. -/
def sendHeartbeat (hb : ClientHeartbeat) (currentTime now : ℤ) : ClientHeartbeat × List Message :=
  if (hb.msRate : ℤ) ≤ milliseconds (currentTime - hb.lastSendTime) then
    ({ hb with lastSendTime := now }, [⟨[], .heartbeat, []⟩])
  else (hb, [])

/-- The callbacks bound in the constructor. A subject with none calls an empty function. -/
def handle (hb : ClientHeartbeat) (m : Message) (now : ℤ) : Except Fault ClientHeartbeat :=
  match m.subject with
  | .heartbeat => .ok (hb.heartbeatArrived now)
  | .goodbye => .ok { hb with running := false }
  | _ => .error .exception

/-- A round of the loop: the message that came, if there is one, and the callback of the poll. -/
def round (hb : ClientHeartbeat) (m : Option Message) (arrived currentTime now : ℤ) :
    Except Fault (ClientHeartbeat × List Message) := do
  let hb ← m.elim (.ok hb) fun m => hb.handle m arrived
  return hb.sendHeartbeat currentTime now

/-- **What a round did**: the time since the last HEARTBEAT is less than `msRate` milliseconds or
there is a new one. -/
theorem round_eq_ok {hb hb' : ClientHeartbeat} {m : Option Message} {arrived currentTime now : ℤ}
    {out : List Message} (h : hb.round m arrived currentTime now = .ok (hb', out)) :
    hb'.msRate = hb.msRate ∧
      ((milliseconds (currentTime - hb.lastSendTime) < hb.msRate ∧
          hb'.lastSendTime = hb.lastSendTime ∧ out = []) ∨
        ((hb.msRate : ℤ) ≤ milliseconds (currentTime - hb.lastSendTime) ∧
          hb'.lastSendTime = now ∧ out = [⟨[], .heartbeat, []⟩])) := by
  obtain ⟨c, hc, h⟩ := bind_eq_ok h
  -- no message changes the time of the last HEARTBEAT
  have hkeep : c.msRate = hb.msRate ∧ c.lastSendTime = hb.lastSendTime := by
    cases m with
    | none => cases hc; exact ⟨rfl, rfl⟩
    | some m =>
      rw [Option.elim_some] at hc
      unfold handle at hc
      split at hc <;> cases hc <;> exact ⟨rfl, rfl⟩
  injection h with h
  unfold sendHeartbeat at h
  rw [hkeep.1, hkeep.2] at h
  split at h
  · next hle =>
    cases h
    exact ⟨rfl, .inr ⟨hle, rfl, rfl⟩⟩
  · next hlt =>
    cases h
    exact ⟨hkeep.1, .inl ⟨not_le.1 hlt, hkeep.2, rfl⟩⟩

end ClientHeartbeat

end Stateline
