import Stateline.Comms.Wire

/-!
# The worker and its minion

`comms/worker.cpp` and `comms/minion.cpp`: the worker relays jobs from the network
to its minion, one at a time, and results back. The two are joined by a pair of
DEALER sockets, a FIFO channel in each direction. A step is a callback of the
worker, or a call of the minion. The doubles, their conversions and the likelihood
are parameters.
-/

namespace Stateline.Relay

/-! ## The worker -/

/-- The sockets of the worker, in the order given to its router. -/
inductive Sock
  | minion | heartbeat | network
  deriving DecidableEq, Repr

/-- A message sent on one of the sockets. -/
structure Send where
  sock : Sock
  msg : Message
  deriving DecidableEq, Repr

structure Worker where
  minionWaiting : Bool
  queue : List Message
  deriving DecidableEq, Repr

namespace Worker

/-- The state the constructor leaves. -/
def init : Worker := ⟨true, []⟩

/-- `onJobFromNetwork`. -/
def onJobFromNetwork (w : Worker) (m : Message) : Worker × List Send :=
  if w.minionWaiting then ({ w with minionWaiting := false }, [⟨.minion, m⟩])
  else ({ w with queue := w.queue ++ [m] }, [])

/-- `onResultFromMinion`. -/
def onResultFromMinion (w : Worker) (m : Message) : Worker × List Send :=
  match w.queue with
  | job :: queue => ({ w with queue }, [⟨.network, m⟩, ⟨.minion, job⟩])
  | [] => ({ w with minionWaiting := true }, [⟨.network, m⟩])

/-- `forwardToNetwork`. -/
def forwardToNetwork (w : Worker) (m : Message) : Worker × List Send :=
  (w, [⟨.network, ⟨[], m.subject, m.data⟩⟩])

/-- `forwardToHB`. -/
def forwardToHB (w : Worker) (m : Message) : Worker × List Send := (w, [⟨.heartbeat, m⟩])

/-- The callbacks bound in the constructor. There is no state after a GOODBYE of the heartbeat
thread, which ends the process, nor for a subject with no callback. -/
def handle (w : Worker) (sock : Sock) (m : Message) : Option (Worker × List Send) :=
  match sock, m.subject with
  | .minion, .result => some (w.onResultFromMinion m)
  | .minion, .hello => some (w.forwardToNetwork m)
  | .heartbeat, .heartbeat => some (w.forwardToNetwork m)
  | .network, .job => some (w.onJobFromNetwork m)
  | .network, .heartbeat => some (w.forwardToHB m)
  | .network, .hello => some (w.forwardToHB m)
  | .network, .goodbye => some (w.forwardToHB m)
  | _, _ => none

end Worker

/-! ## The minion -/

variable {D : Type} (stod : Str → Option D) (to_string : D → Str) (lhFn : ℕ → List D → D)

/-- A minion in the loop of `runMinion`: the id it keeps of the job, and the type and the sample
that `nextJob` returned, until their likelihood is submitted. -/
structure Minion (D : Type) where
  currentJob : Str
  job : Option (ℕ × List D)

/-- `nextJob`, of a message that was received: the current job, and what is returned. -/
def nextJob (r : Message) : Except Fault (Str × ℕ × List D) := do
  let currentJob ← nth r.data 1
  let sampleVectorStr := segments (← nth r.data 2) ':'
  let sample ← sampleVectorStr.mapM fun x => orThrow (stod x)
  let jobType ← orThrow (stoi (← nth r.data 0))
  return (currentJob, toUint jobType, sample)

/-- `submitResult`. -/
def submitResult (currentJob : Str) (result : D) : Message :=
  ⟨[], .result, [currentJob, to_string result]⟩

/-- With decimals that are read as exact. -/
theorem nextJob_eq (r : Message) : nextJob Stateline.stod r = Stateline.Minion.nextJob r := rfl

end Relay

open Relay

/-! ## The two together -/

/-- The worker, the minion, the channels between them, oldest message first, and what went
through the worker so far. -/
structure Relay (D : Type) where
  worker : Worker
  minion : Minion D
  toMinion : List Message
  toWorker : List Message
  /-- The JOBs read from the network. -/
  received : List Message
  /-- The messages sent to the minion. -/
  handed : List Message
  /-- The messages sent to the network. -/
  sent : List Message

namespace Relay

variable {D : Type} (stod : Str → Option D) (to_string : D → Str) (lhFn : ℕ → List D → D)

/-- The worker at its start, and a minion that has sent its HELLO. -/
def init (jobstring : Str) : Relay D := ⟨.init, ⟨[], none⟩, [], [⟨[], .hello, [jobstring]⟩], [], [], []⟩

/-- What is sent on a socket. -/
def sends (sock : Sock) (out : List Send) : List Message :=
  (out.filter fun s => s.sock = sock).map Send.msg

/-- The state after a callback of the worker. -/
def afterWorker (s : Relay D) : Option (Worker × List Send) → Option (Relay D)
  | some (worker, out) => some { s with
      worker
      toMinion := s.toMinion ++ sends .minion out
      handed := s.handed ++ sends .minion out
      sent := s.sent ++ sends .network out }
  | none => none

/-- The callbacks of the worker, and the calls of the minion. -/
inductive Act
  /-- A message of the network, or of the heartbeat thread, at the worker. -/
  | network (m : Message)
  | heartbeat (m : Message)
  /-- The oldest message of the minion, at the worker. -/
  | fromMinion
  /-- The minion takes the oldest message of the worker. -/
  | nextJob
  /-- The minion sends the likelihood of its job. -/
  | submitResult

/-- One step. There is no next state when a callback throws or nothing is there to be read. -/
def step (s : Relay D) : Act → Option (Relay D)
  | .network m =>
    { s with received := if m.subject = Subject.job then s.received ++ [m] else s.received }.afterWorker
      (s.worker.handle .network m)
  | .heartbeat m => s.afterWorker (s.worker.handle .heartbeat m)
  | .fromMinion =>
    match s.toWorker with
    | [] => none
    | m :: rest => { s with toWorker := rest }.afterWorker (s.worker.handle .minion m)
  | .nextJob =>
    match s.minion.job, s.toMinion with
    | none, m :: rest =>
      match Relay.nextJob stod m with
      | .ok (currentJob, job) => some { s with minion := ⟨currentJob, some job⟩, toMinion := rest }
      | .error _ => none
    | _, _ => none
  | .submitResult =>
    match s.minion.job with
    | some (jobType, sample) => some { s with
        minion := { s.minion with job := none }
        toWorker := s.toWorker ++
          [Relay.submitResult to_string s.minion.currentJob (lhFn jobType sample)] }
    | none => none

end Relay

end Stateline
