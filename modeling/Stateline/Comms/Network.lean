import Stateline.Comms.Delegator

/-!
# The delegator and honest workers

The delegator, and any number of workers, each behind a lossless FIFO channel in
each direction. A worker answers every job it has received once, in any order, and
says HELLO whenever it likes, always with its own range of job types. The ROUTER
socket of the delegator takes the identity of a worker off what it sends and puts
it on what it reads.
-/

namespace Stateline

open Std Lib Delegator

structure Net where
  del : Delegator
  /-- The messages to each worker, oldest first. -/
  toWorker : Str → List Message
  /-- The ids of the jobs each worker has received and not answered. -/
  held : Str → List Str
  /-- The messages of each worker, oldest first. -/
  fromWorker : Str → List Message
  /-- The number of jobs created. -/
  created : ℕ

namespace Net

/-- The number of jobs that a request makes, when it is accepted. -/
def jobsOf (m : Message) : ℕ :=
  match (do jobTypesInt (splitStr (fun out s => out.insert s) ∅ (← nth m.data 0) ':') :
    Except Fault (ExtTreeSet ℕ)) with
  | .ok types => types.toList.length
  | .error _ => 0

/-- What arrives at a worker of what the delegator sends. -/
def arriving (out : List Send) (x : Str) : List Message :=
  (out.filter fun s => s.sock = .network ∧ s.msg.address.head? = some x).map fun s =>
    { s.msg with address := s.msg.address.tail }

theorem arriving_append (out out' : List Send) (x : Str) :
    arriving (out ++ out') x = arriving out x ++ arriving out' x := by
  unfold arriving
  rw [List.filter_append, List.map_append]

/-- A new delegator, and no messages. -/
def init (nJobTypes workerCount : ℕ) : Net :=
  ⟨.init nJobTypes workerCount, fun _ => [], fun _ => [], fun _ => [], 0⟩

/-- The state after a callback of the delegator. There is none when the callback fails. -/
def afterDel (s : Net) : Except Fault (Delegator × List Send) → Option Net
  | .ok (d, out) => some { s with del := d, toWorker := fun x => s.toWorker x ++ arriving out x }
  | .error _ => none

inductive Act
  /-- A request, and a poll, at the delegator. -/
  | request (m : Message)
  | poll (clock : Str → ℤ)
  /-- The heartbeat thread times a worker out, or lets a HEARTBEAT be sent to it. -/
  | timeout (x : Str)
  | beat (x : Str)
  /-- The oldest message of a worker, at the delegator. -/
  | deliver (x : Str) (now : ℤ)
  /-- The oldest message for a worker, at the worker. -/
  | take (x : Str)
  /-- A worker answers a job. -/
  | answer (x id data : Str)
  /-- A worker says HELLO, or sends a HEARTBEAT. -/
  | hello (x : Str)
  | pulse (x : Str)

/-- A worker sends a message. -/
def post (s : Net) (x : Str) (m : Message) : Net :=
  { s with fromWorker := Function.update s.fromWorker x (s.fromWorker x ++ [m]) }

variable (range : Str → Str)

/-- One step, for workers with the given ranges. -/
def step (s : Net) : Act → Option Net
  | .request m =>
    { s with created := s.created + jobsOf m }.afterDel (s.del.handle (.recv .requester m 0 false))
  | .poll clock => s.afterDel (s.del.handle (.poll clock fun _ => false))
  | .timeout x => s.afterDel (s.del.handle (.recv .heartbeat ⟨[x], .goodbye, []⟩ 0 false))
  | .beat x => s.afterDel (s.del.handle (.recv .heartbeat ⟨[x], .heartbeat, []⟩ 0 false))
  | .deliver x now =>
    match s.fromWorker x with
    | [] => none
    | m :: rest =>
      { s with fromWorker := Function.update s.fromWorker x rest }.afterDel
        (s.del.handle (.recv .network { m with address := m.address ++ [x] } now false))
  | .take x =>
    match s.toWorker x with
    | [] => none
    | m :: rest => some { s with
        toWorker := Function.update s.toWorker x rest
        held := Function.update s.held x
          (s.held x ++ if m.subject = .job then m.data[1]?.toList else []) }
  | .answer x id data =>
    if id ∈ s.held x then
      some ({ s with held := Function.update s.held x ((s.held x).erase id) }.post x
        ⟨[], .result, [id, data]⟩)
    else none
  | .hello x => some (s.post x ⟨[], .hello, [range x]⟩)
  | .pulse x => some (s.post x ⟨[], .heartbeat, []⟩)

end Net

end Stateline
