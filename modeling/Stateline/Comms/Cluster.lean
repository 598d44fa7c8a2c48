import Stateline.Comms.Network
import Stateline.Comms.Relay

/-!
# The delegator and its workers

The delegator and any number of workers with their minions, joined by a lossless FIFO
channel in each direction. The ROUTER socket of the delegator takes the identity of a
worker off what it sends and puts it on what it reads. A worker that stops is one that
takes no more steps; it is timed out by the heartbeat thread, or it is not.
-/

namespace Stateline

open Delegator

structure Cluster (D : Type) where
  del : Delegator
  relay : Str → Relay D
  /-- The messages to each worker, oldest first. -/
  toWorker : Str → List Message
  /-- The messages of each worker, oldest first. -/
  fromWorker : Str → List Message
  /-- The number of jobs created. -/
  created : ℕ

namespace Cluster

/-- What a worker and its minion do on their own. -/
inductive Work
  | fromMinion
  | nextJob
  | submitResult
  /-- The heartbeat thread of the worker sends a HEARTBEAT. -/
  | pulse

def Work.act : Work → Relay.Act
  | .fromMinion => .fromMinion
  | .nextJob => .nextJob
  | .submitResult => .submitResult
  | .pulse => .heartbeat ⟨[], .heartbeat, []⟩

inductive Act
  /-- A request, and a poll, at the delegator. -/
  | request (m : Message)
  | poll (clock : Str → ℤ)
  /-- The heartbeat thread times a worker out, or lets a HEARTBEAT be sent to it. -/
  | timeout (x : Str)
  | beat (x : Str)
  /-- The oldest message of a worker, at the delegator. -/
  | deliver (x : Str) (now : ℤ)
  /-- The oldest message for a worker, at the worker. -/
  | take (x : Str)
  | work (x : Str) (k : Work)

variable {D : Type} (stod : Str → Option D) (to_string : D → Str) (lhFn : ℕ → List D → D)

/-- A new delegator, and workers whose minions have said HELLO with their job types. -/
def init (nJobTypes workerCount : ℕ) (range : Str → Str) : Cluster D :=
  ⟨.init nJobTypes workerCount, fun x => .init (range x), fun _ => [], fun _ => [], 0⟩

/-- What is sent to the requesters. -/
def toRequesters (out : List Send) : List Message :=
  (out.filter fun s => s.sock = .requester).map Send.msg

/-- The state after a callback of the delegator, and the replies to requesters. -/
def afterDel (c : Cluster D) : Except Fault (Delegator × List Send) → Option (Cluster D × List Message)
  | .ok (d, out) => some
    ({ c with del := d, toWorker := fun x => c.toWorker x ++ Net.arriving out x }, toRequesters out)
  | .error _ => none

/-- The state after a step of the worker `x`, which may have sent something. -/
def afterWork (c : Cluster D) (x : Str) : Option (Relay D) → Option (Cluster D × List Message)
  | some r => some
    ({ c with
      relay := Function.update c.relay x r
      fromWorker := Function.update c.fromWorker x
        (c.fromWorker x ++ r.sent.drop (c.relay x).sent.length) }, [])
  | none => none

/-- One step, and what is sent to the requesters. -/
def step (c : Cluster D) : Act → Option (Cluster D × List Message)
  | .request m =>
    { c with created := c.created + Net.jobsOf m }.afterDel (c.del.handle (.recv .requester m 0 false))
  | .poll clock => c.afterDel (c.del.handle (.poll clock fun _ => false))
  | .timeout x => c.afterDel (c.del.handle (.recv .heartbeat ⟨[x], .goodbye, []⟩ 0 false))
  | .beat x => c.afterDel (c.del.handle (.recv .heartbeat ⟨[x], .heartbeat, []⟩ 0 false))
  | .deliver x now =>
    match c.fromWorker x with
    | [] => none
    | m :: rest =>
      { c with fromWorker := Function.update c.fromWorker x rest }.afterDel
        (c.del.handle (.recv .network { m with address := m.address ++ [x] } now false))
  | .take x =>
    match c.toWorker x with
    | [] => none
    | m :: rest =>
      { c with toWorker := Function.update c.toWorker x rest }.afterWork x
        ((c.relay x).step stod to_string lhFn (.network m))
  | .work x k => c.afterWork x ((c.relay x).step stod to_string lhFn k.act)

end Cluster

end Stateline
