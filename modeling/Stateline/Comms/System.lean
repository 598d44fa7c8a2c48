import Stateline.Comms.Delegator
import Stateline.Comms.Heartbeat

/-!
# The delegator and its heartbeat thread

The two threads of the server, joined by an inproc PAIR socket: a FIFO channel in
each direction. A step is a callback of one of the two threads.
-/

namespace Stateline

open Std Lib

structure System where
  del : Delegator
  hb : ServerHeartbeat
  /-- The messages to the heartbeat thread, oldest first. -/
  toHB : List Message
  /-- The messages to the delegator, oldest first. -/
  toDel : List Message

namespace System

open Delegator

/-- The callbacks of the two threads. -/
inductive Act
  /-- A message of a requester or a worker, or a poll, at the delegator. -/
  | event (e : Event)
  /-- The oldest message of the heartbeat thread, at the delegator, and whether a send to a
  worker made for it fails. -/
  | fromHB (now : ℤ) (fails : Bool)
  /-- The fallback of a send to a worker that failed. -/
  | failedSend (m : Message)
  /-- The oldest message of the delegator, at the heartbeat thread. -/
  | fromDel (now : ℤ)
  /-- The poll callback of the heartbeat thread. -/
  | pollHB (clock : Str → ℤ) (currentTime now : ℤ)

/-- Both threads at their start. -/
def init (nJobTypes workerCount msRate msTimeout : ℕ) (now : ℤ) : System :=
  ⟨.init nJobTypes workerCount, .init msRate msTimeout now, [], []⟩

/-- What a callback of the delegator sends to the heartbeat thread. -/
def forwarded (out : List Send) : List Message := (out.filter fun s => s.sock = .heartbeat).map Send.msg

/-- The state after a callback of the delegator. There is none when the callback fails. -/
def afterDel (s : System) (toDel : List Message) : Except Fault (Delegator × List Send) → Option System
  | .ok (d, out) => some { s with del := d, toHB := s.toHB ++ forwarded out, toDel }
  | .error _ => none

/-- One step. -/
def step (s : System) : Act → Option System
  | .event (.recv .heartbeat _ _ _) => none
  | .event e => s.afterDel s.toDel (s.del.handle e)
  | .fromHB now fails =>
    match s.toDel with
    | [] => none
    | m :: rest => s.afterDel rest (s.del.handle (.recv .heartbeat m now fails))
  | .failedSend m => s.afterDel s.toDel (do return (← s.del.sendFailed m, []))
  | .fromDel now =>
    match s.toHB with
    | [] => none
    | m :: rest =>
      match s.hb.handle m now with
      | .ok hb => some { s with hb, toHB := rest }
      | .error _ => none
  | .pollHB clock currentTime now =>
    let (hb, out) := s.hb.onPoll clock currentTime now
    some { s with hb, toDel := s.toDel ++ out }

/-- The channels are empty. -/
def AtRest (s : System) : Prop := s.toHB = [] ∧ s.toDel = []

/-- The delegator and the heartbeat thread know the same workers. -/
def Agree (s : System) : Prop := ∀ x, x ∈ s.del.workers ↔ x ∈ s.hb.clients

/-- HELLO, HEARTBEAT and GOODBYE of a worker: the worker sends them with an empty address, and
the ROUTER socket of the network puts its identity on them. -/
def FromWorker : Act → Prop
  | .event (.recv .network m _ _) =>
    m.subject = .hello ∨ m.subject = .heartbeat ∨ m.subject = .goodbye → ∃ x, m.address = [x]
  | .failedSend m => m.address ≠ []
  | _ => True

end System

end Stateline
