import Stateline.Comms.Message
import Stateline.Lib.TreeMap

/-!
# The delegator

`comms/delegator.cpp`: the server between requesters and workers. A request is
split into one job for each of its job types; jobs wait in `jobQueue`, are sent
to workers and come back as results, or go back to the queue when their worker
disconnects. Maps are iterated in key order, `uint` arithmetic is modulo
`2 ^ 32`, clocks are in nanoseconds, and a handler that throws or runs into
undefined behaviour ends in a `Fault`.
-/

namespace Stateline

open Std Lib

/-- `CircularBuffer<T>`. The constructor fills the buffer with `size` default elements. -/
structure CircularBuffer (T : Type) where
  buffer : List T
  size : ℕ
  deriving DecidableEq

namespace CircularBuffer

variable {T : Type}

/-- The constructor. -/
def ofSize [Inhabited T] (size : ℕ) : CircularBuffer T := ⟨List.replicate size default, size⟩

/-- `push_back`. -/
def pushBack (b : CircularBuffer T) (val : T) : CircularBuffer T :=
  let buffer := b.buffer ++ [val]
  { b with buffer := if b.size < buffer.length then buffer.tail else buffer }

end CircularBuffer

namespace Delegator

structure Request where
  address : Address
  jobTypes : ExtTreeSet ℕ
  data : Str
  results : List Str
  nDone : ℕ
  deriving DecidableEq

structure Job where
  type : ℕ
  id : Str
  requesterID : Str
  requesterIndex : ℕ
  startTime : ℤ
  deriving DecidableEq

/-- The value-initialised job that `operator[]` creates. -/
instance : Inhabited Job := ⟨⟨0, [], [], 0, 0⟩⟩

/-- The value-initialised request that `operator[]` creates. -/
instance : Inhabited Request := ⟨⟨[], ∅, [], [], 0⟩⟩

structure Worker where
  address : Address
  jobTypesRange : ℕ × ℕ
  workInProgress : ExtTreeMap Str Job
  times : ExtTreeMap ℕ (CircularBuffer ℕ)
  lastResultTime : ℤ
  deriving DecidableEq

/-- The sockets of the delegator, in the order given to its router. -/
inductive Sock
  | requester | heartbeat | network
  deriving DecidableEq, Repr

/-- A message sent on one of the sockets. -/
structure Send where
  sock : Sock
  msg : Message
  deriving DecidableEq, Repr

end Delegator

open Delegator

structure Delegator where
  workers : ExtTreeMap Str Worker
  requests : ExtTreeMap Str Request
  jobQueue : List Job
  nextJobId : ℕ
  nJobTypes : ℕ
  workerCount : ℕ
  deriving DecidableEq

namespace Delegator

/-- `timeForJob`: the average over the buffer, 5 when there is none. -/
def timeForJob (w : Worker) (jobType : ℕ) : Except Fault ℕ :=
  match w.times[jobType]? with
  | none => .error .exception
  | some times =>
    let totalTime := times.buffer.foldl (fun t x => (t + x) % 2 ^ 32) 0
    .ok (if 0 < times.size then totalTime / times.size else 5)

/-- `usTillDone`: the expected time of a worker for its jobs in progress and one more. -/
def usTillDone (w : Worker) (jobType : ℕ) : Except Fault ℕ := do
  let t ← (vals w.workInProgress).foldlM (fun t i => do return (t + (← timeForJob w i.type)) % 2 ^ 32) 0
  return (t + (← timeForJob w jobType)) % 2 ^ 32

/-- The state the constructor leaves. `workerCount_` is not initialised. -/
def init (nJobTypes workerCount : ℕ) : Delegator := ⟨∅, ∅, [], 0, nJobTypes, workerCount⟩

/-- The range of job types of a HELLO: all of them, or `first:second`. -/
def jobTypeRange (d : Delegator) (frame : Str) : Except Fault (ℕ × ℕ) :=
  if frame = [] then .ok (0, d.nJobTypes)
  else
    match segments frame ':' with
    | [first, second] =>
      match stoi first, stoi second with
      | some a, some b => .ok (toUint a, toUint b)
      | _, _ => .error .exception
    | _ => .error .assertion

/-- `connectWorker`. -/
def connectWorker (d : Delegator) (msg : Message) (now : ℤ) : Except Fault Delegator := do
  let frame ← nth msg.data 0
  let range ← d.jobTypeRange frame
  let w : Worker :=
    { address := msg.address
      jobTypesRange := range
      workInProgress := ∅
      times := (List.range' range.1 (range.2 - range.1)).foldl
        (fun m i => m.insertIfNew i (.ofSize 10)) ∅
      lastResultTime := now }
  let id ← front w.address
  return { d with workers := d.workers.insertIfNew id w, workerCount := (d.workerCount + 1) % 2 ^ 32 }

/-- `fNewWorker`, bound to HELLO from the network. -/
def newWorker (d : Delegator) (m : Message) (now : ℤ) : Except Fault (Delegator × List Send) := do
  let worker ← front m.address
  if worker ∈ d.workers then return (d, [⟨.heartbeat, m⟩])
  else return (← d.connectWorker m now, [⟨.heartbeat, m⟩])

/-- One job of the loop of `receiveRequest`, with its index in the request. -/
def pushJob (id : Str) (st : Delegator × ℕ) (t : ℕ) : Delegator × ℕ :=
  let j : Job := ⟨t, toStr st.1.nextJobId, id, st.2, 0⟩
  ({ st.1 with jobQueue := st.1.jobQueue ++ [j], nextJobId := (st.1.nextJobId + 1) % 2 ^ 32 }, st.2 + 1)

/-- The `std::transform` of the job types into numbers. -/
def jobTypesInt (jobTypes : ExtTreeSet Str) : Except Fault (ExtTreeSet ℕ) :=
  jobTypes.toList.foldlM (fun out x =>
    match stoi x with
    | some v => .ok (out.insert (toUint v))
    | none => .error .exception) ∅

/-- `receiveRequest`. -/
def receiveRequest (d : Delegator) (msg : Message) : Except Fault Delegator := do
  let id ← match joinStr msg.address [':'] with
    | some id => .ok id
    | none => .error .undefined
  let frame ← nth msg.data 0
  let jobTypes : ExtTreeSet Str := splitStr (fun out s => out.insert s) ∅ frame ':'
  let types ← jobTypesInt jobTypes
  let data ← nth msg.data 1
  let r : Request := ⟨msg.address, types, data, List.replicate jobTypes.size [], 0⟩
  return (types.toList.foldl (pushJob id) ({ d with requests := d.requests.insertIfNew id r }, 0)).1

/-- `receiveResult`. -/
def receiveResult (d : Delegator) (msg : Message) (now : ℤ) : Except Fault (Delegator × List Send) := do
  let workerId ← front msg.address
  match d.workers[workerId]? with
  | none => return (d, [])
  | some worker =>
    let jobID ← nth msg.data 0
    -- both maps are read with `operator[]`, which creates what it does not find
    let (j, workInProgress) := subscript worker.workInProgress jobID
    let elapsedTime := now - max j.startTime worker.lastResultTime
    let usecs := toUint (elapsedTime.tdiv 1000)
    let times ← match worker.times[j.type]? with
      | some b => .ok (worker.times.insert j.type (b.pushBack usecs))
      | none => .error .exception
    let (r, requests) := subscript d.requests j.requesterID
    let data ← nth msg.data 1
    if r.results.length ≤ j.requesterIndex then .error .undefined
    let r := { r with results := r.results.set j.requesterIndex data, nDone := (r.nDone + 1) % 2 ^ 32 }
    let done := r.nDone = r.jobTypes.size
    let requests := if done then requests.erase j.requesterID else requests.insert j.requesterID r
    let out := if done then [⟨.requester, ⟨r.address, .result, r.results⟩⟩] else []
    let worker :=
      { worker with workInProgress := workInProgress.erase jobID, times, lastResultTime := now }
    return ({ d with workers := d.workers.insert workerId worker, requests }, out)

/-- One worker of the loop of `bestWorker`, with the best one so far and its time. -/
def better (jobType maxJobs : ℕ) (best : Option Str × ℕ) (w : Str × Worker) :
    Except Fault (Option Str × ℕ) := do
  if w.2.jobTypesRange.1 ≤ jobType ∧ jobType < w.2.jobTypesRange.2 ∧
    w.2.workInProgress.size < maxJobs then
    let t ← usTillDone w.2 jobType
    return if t < best.2 then (some w.1, t) else best
  else return best

/-- `bestWorker`: the key of the worker it returns a pointer to. -/
def bestWorker (d : Delegator) (jobType maxJobs : ℕ) : Except Fault (Option Str) := do
  return (← d.workers.toList.foldlM (better jobType maxJobs) (none, 2 ^ 32 - 1)).1

/-- `disconnectWorker`. -/
def disconnectWorker (d : Delegator) (goodbyeFromWorker : Message) : Except Fault Delegator := do
  let workerId ← front goodbyeFromWorker.address
  match d.workers[workerId]? with
  | none => return d
  | some w =>
    return { d with
      jobQueue := (vals w.workInProgress).foldl (fun q j => j :: q) d.jobQueue
      workers := d.workers.erase workerId
      workerCount := (d.workerCount + 2 ^ 32 - 1) % 2 ^ 32 }

/-- `sendFailed`, the fallback of the network socket. -/
def sendFailed (d : Delegator) (msgToWorker : Message) : Except Fault Delegator :=
  d.disconnectWorker msgToWorker

/-- The part of a round of `onPoll` after `bestWorker` found the worker under `id`:
the send, whose failure runs the fallback, and the bookkeeping through the pointer. -/
def dispatch (d : Delegator) (clock : Str → ℤ) (fails : Str → Bool) (id : Str) (i : Job) :
    Except Fault (Delegator × List Send) := do
  let worker ← match d.workers[id]? with
    | some w => .ok w
    | none => .error .undefined
  let (r, requests) := subscript d.requests i.requesterID
  let m : Message := ⟨worker.address, .job, [toStr i.type, i.id, r.data]⟩
  let d := { d with requests }
  let d ← if fails i.id then d.sendFailed m else .ok d
  -- the fallback may have erased the worker the pointer refers to
  let worker ← match d.workers[id]? with
    | some w => .ok w
    | none => .error .undefined
  let i := { i with startTime := clock i.id }
  let worker := { worker with workInProgress := worker.workInProgress.insertIfNew i.id i }
  return ({ d with workers := d.workers.insert id worker }, if fails i.id then [] else [⟨.network, m⟩])

/-- The loop of `onPoll` from an iterator on: `jobQueue` holds what is before the
iterator, the list what is left. -/
def pollLoop (clock : Str → ℤ) (fails : Str → Bool) (maxJobs : ℕ) :
    Delegator → List Job → Except Fault (Delegator × List Send)
  | d, [] => .ok (d, [])
  | d, i :: rest => do
    match ← d.bestWorker i.type maxJobs with
    | none => pollLoop clock fails maxJobs { d with jobQueue := d.jobQueue ++ [i] } rest
    | some id =>
      let (d, out) ← d.dispatch clock fails id i
      let (d, out') ← pollLoop clock fails maxJobs d rest
      return (d, out ++ out')

/-- `onPoll`. The clock read and the outcome of each send are indexed by the job sent. -/
def onPoll (d : Delegator) (clock : Str → ℤ) (fails : Str → Bool) :
    Except Fault (Delegator × List Send) :=
  pollLoop clock fails 10 { d with jobQueue := [] } d.jobQueue

/-- What the router of the delegator runs: a message on a socket, with the time it
is handled and whether a network send made for it fails, or the poll callback. -/
inductive Event
  | recv (sock : Sock) (m : Message) (now : ℤ) (fails : Bool)
  | poll (clock : Str → ℤ) (fails : Str → Bool)

/-- A GOODBYE from the network. -/
def Event.NetworkGoodbye : Event → Prop
  | .recv .network m _ _ => m.subject = .goodbye
  | _ => False

instance : DecidablePred Event.NetworkGoodbye := fun
  | .recv .network m _ _ => inferInstanceAs (Decidable (m.subject = .goodbye))
  | .recv .requester _ _ _ | .recv .heartbeat _ _ _ | .poll _ _ => isFalse id

/-- The callbacks bound in the constructor. A subject with none calls an empty function. -/
def handle (d : Delegator) : Event → Except Fault (Delegator × List Send)
  | .recv sock m now fails =>
    match sock, m.subject with
    | .requester, .request => do return (← d.receiveRequest m, [])
    | .network, .hello => d.newWorker m now
    | .network, .result => d.receiveResult m now
    | .network, .heartbeat => .ok (d, [⟨.heartbeat, m⟩])
    -- `fForwardToHBAndDisconnect` calls `fForwardToHB` and `fDisconnect`, locals of the constructor that
    -- it captured by reference: they are gone once the constructor has returned
    | .network, .goodbye => .error .undefined
    | .heartbeat, .heartbeat =>
      if fails then do return (← d.sendFailed m, []) else .ok (d, [⟨.network, m⟩])
    | .heartbeat, .goodbye => do return (← d.disconnectWorker m, [])
    | _, _ => .error .exception
  | .poll clock fails => d.onPoll clock fails

/-- **A GOODBYE from the network** ends in undefined behaviour, whatever the state. -/
theorem handle_networkGoodbye {d : Delegator} {e : Event} (h : e.NetworkGoodbye) :
    d.handle e = .error .undefined := by
  cases e with
  | poll clock fails => exact h.elim
  | recv sock m now fails =>
    cases sock with
    | requester | heartbeat => exact h.elim
    | network =>
      have hsub : m.subject = .goodbye := h
      simp only [handle, hsub]

end Delegator

end Stateline
