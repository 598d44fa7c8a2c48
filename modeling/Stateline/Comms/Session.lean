import Stateline.Comms.Network
import Stateline.Comms.Relay
import Stateline.Comms.Router

/-!
# A session of a worker in another language

`README.md`, "Workers in Other Languages", and `comms/worker.cpp`: a program says
HELLO to a `stateline-client`, answers the JOBs it receives one at a time, and may say
GOODBYE. The client has a worker with its router, and a heartbeat thread; behind it is
the delegator, with other workers and requesters. A step is a message of the program,
a callback of the router of the worker, or one of the delegator.
-/

namespace Stateline

open Delegator (Event)

namespace Relay

/-- The index of a socket of the worker. -/
def Sock.index : Sock → ℕ
  | .minion => 0
  | .heartbeat => 1
  | .network => 2

namespace Worker

/-- The functions that the constructor binds. -/
inductive Callback
  | onResultFromMinion | onJobFromNetwork | forwardToHB | forwardToNetwork | disconnect
  deriving DecidableEq, Repr

/-- The calls of `bind` in the constructor. -/
def binds : List (Bind Callback) :=
  [⟨0, .result, .onResultFromMinion⟩, ⟨0, .hello, .forwardToNetwork⟩,
    ⟨1, .heartbeat, .forwardToNetwork⟩, ⟨1, .goodbye, .disconnect⟩,
    ⟨2, .job, .onJobFromNetwork⟩, ⟨2, .heartbeat, .forwardToHB⟩, ⟨2, .hello, .forwardToHB⟩,
    ⟨2, .goodbye, .forwardToHB⟩]

/-- The callback that the router of the worker calls with frames that arrive at a socket, and the
message it is called with. -/
def dispatched (sock : Sock) (frames : List Str) : Except Fault (Bind Callback × RawMessage) := do
  (← SocketRouter.ofBinds 3 binds).dispatch sock.index frames

/-- A call of a callback. There is no state after `disconnect`, which ends the process. -/
def call (w : Worker) (m : Message) : Callback → Option (Worker × List Send)
  | .onResultFromMinion => some (w.onResultFromMinion m)
  | .onJobFromNetwork => some (w.onJobFromNetwork m)
  | .forwardToHB => some (w.forwardToHB m)
  | .forwardToNetwork => some (w.forwardToNetwork m)
  | .disconnect => none

end Worker

end Relay

open Relay

/-- The process of a `stateline-client`: a fault ends the loop of its router. -/
inductive Client
  | running
  | exited
  | failed (f : Fault)
  deriving DecidableEq, Repr

/-- The program: before its HELLO, between two jobs, with the id of the job it works on, and after its
GOODBYE. -/
inductive Program
  | starting
  | waiting
  | working (job_uid : Str)
  | gone
  deriving DecidableEq, Repr

structure Session where
  del : Delegator
  worker : Relay.Worker
  client : Client
  program : Program
  /-- The frames that wait at each socket of the worker, oldest first. -/
  atWorker : Sock → List (List Str)
  /-- The messages of the worker to the program, and to the delegator, oldest first. -/
  toProgram : List Message
  toDel : List Message
  /-- What the program said so far. -/
  said : List Message
  /-- What the worker sent to the delegator so far. -/
  sent : List Message

namespace Session

/-- Nothing was sent yet. -/
def init (nJobTypes workerCount : ℕ) : Session :=
  ⟨.init nJobTypes workerCount, .init, .running, .starting, fun _ => [], [], [], [], []⟩

/-- Frames arrive at a socket of the worker. -/
def arrive (s : Session) (sock : Sock) (frames : List (List Str)) : Session :=
  { s with atWorker := Function.update s.atWorker sock (s.atWorker sock ++ frames) }

/-- The frames of a message. -/
def frames (m : Message) : List Str := Socket.send m.raw

/-- The program says something. -/
def say (s : Session) (m : Message) (program : Program) : Session :=
  { s with program, said := s.said ++ [m] }.arrive .minion [frames m]

/-- The state after a callback of the delegator, which knows the client as `x`. There is none when
the callback fails. -/
def afterDel (s : Session) (x : Str) : Except Fault (Delegator × List Delegator.Send) → Option Session
  | .ok (del, out) => some ({ s with del }.arrive .network ((Net.arriving out x).map frames))
  | .error _ => none

/-- The state after a callback of the worker. -/
def afterWorker (s : Session) : Option (Relay.Worker × List Relay.Send) → Session
  | some (worker, out) => { s with
      worker
      toProgram := s.toProgram ++ Relay.sends .minion out
      toDel := s.toDel ++ Relay.sends .network out
      sent := s.sent ++ Relay.sends .network out }
  | none => { s with client := .exited }

/-- The HEARTBEAT of the heartbeat thread of the client. -/
def beat : Message := ⟨[], .heartbeat, []⟩

inductive Act
  /-- The program says HELLO, receives a JOB, sends its RESULT, or says GOODBYE. -/
  | hello (jobs : Str)
  | receive
  | result (job_result : Str)
  | goodbye
  /-- The heartbeat thread of the client sends a HEARTBEAT. -/
  | heartbeat
  /-- The router of the worker reads what waits longest at a socket. -/
  | read (sock : Sock)
  /-- The oldest message of the worker, at the delegator. -/
  | deliver (now : ℤ) (fails : Bool)
  /-- Anything else at the delegator. -/
  | event (e : Event)

/-- The messages of others: another identity in front, and from the heartbeat thread of the server
GOODBYEs and HEARTBEATs with the identity of a client. -/
def Admissible (x : Str) : Act → Prop
  | .event (.recv .network m _ _) => m.address.head? ≠ some x
  | .event (.recv .heartbeat m _ _) => (∃ y, m.address = [y]) ∧ m.data = []
  | _ => True

/-- One step, of a client that the delegator knows as `x`. -/
def step (x : Str) (s : Session) : Act → Option Session
  | .hello jobs =>
    match s.program with
    | .starting => some (s.say ⟨[], .hello, [jobs]⟩ .waiting)
    | _ => none
  | .receive =>
    match s.program, s.toProgram with
    | .waiting, m :: rest =>
      match m.data[1]? with
      | some job_uid => some { s with program := .working job_uid, toProgram := rest }
      | none => none
    | _, _ => none
  | .result job_result =>
    match s.program with
    | .working job_uid => some (s.say ⟨[], .result, [job_uid, job_result]⟩ .waiting)
    | _ => none
  | .goodbye =>
    match s.program with
    | .waiting | .working _ => some (s.say ⟨[], .goodbye, []⟩ .gone)
    | _ => none
  | .heartbeat => some (s.arrive .heartbeat [frames beat])
  | .read sock =>
    match s.client, s.atWorker sock with
    | .running, fs :: rest =>
      let s := { s with atWorker := Function.update s.atWorker sock rest }
      match Worker.dispatched sock fs with
      | .ok (b, m) => some (s.afterWorker (s.worker.call ⟨m.address, b.subject, m.data⟩ b.f))
      | .error f => some { s with client := .failed f }
    | _, _ => none
  | .deliver now fails =>
    match s.toDel with
    | [] => none
    | m :: rest =>
      { s with toDel := rest }.afterDel x
        (s.del.handle (.recv .network { m with address := m.address ++ [x] } now fails))
  | .event e => s.afterDel x (s.del.handle e)

/-- The frames that the README gives for the messages of the program. -/
example (jobs job_uid job_result : Str) :
    frames ⟨[], .hello, [jobs]⟩ = [[], ['0'], jobs] ∧
    frames ⟨[], .result, [job_uid, job_result]⟩ = [[], ['4'], job_uid, job_result] ∧
    frames ⟨[], .goodbye, []⟩ = [[], ['5']] :=
  ⟨congrArg ([[], ·, jobs]) (show toStrInt 0 = ['0'] by decide),
    congrArg ([[], ·, job_uid, job_result]) (show toStrInt 4 = ['4'] by decide),
    congrArg ([[], ·]) (show toStrInt 5 = ['5'] by decide)⟩

end Session

end Stateline
