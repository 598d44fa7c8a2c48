import Stateline.App.SamplerProgram
import Stateline.App.ServerWrapper
import Stateline.Comms.Cluster

/-!
# The service

The threads of the server and its workers: `runSampler` with its requester, the delegator, and
any number of workers. The requester is a DEALER at the ROUTER socket of the delegator, with a
lossless FIFO channel in each direction; there may be other requesters.
-/

namespace Stateline

/-- The settings of the server and of its workers, the identities that the sockets were given, and
the conversions and the likelihood that they call. -/
structure Deployment (P F : Type) extends Setup P F where
  /-- The identity of the requester. -/
  me : Str
  /-- What each worker says in its HELLO. -/
  range : Str → Str
  port : ℕ
  workerCount : ℕ
  stod : Str → Option F
  to_string : F → Str
  lhFn : ℕ → List F → F

structure Service (P F : Type) (d : ℕ) where
  program : SamplerProgram P (Fin d → F) F
  cluster : Cluster F
  /-- The messages of the requester, oldest first. -/
  toDelegator : List Message
  /-- The messages to the requester, oldest first. -/
  toRequester : List Message

namespace Service

variable {P F : Type} {d : ℕ} (c : Deployment P F)

/-- `Requester::submit`. -/
def submit (r : SampleRequest (Fin d → F)) : Except Fault Message := do
  let jtstring ← joinColon (r.jobTypes.map toStr)
  let dataVectorStr := (List.ofFn r.data).map c.to_string
  return ⟨[toStr r.id], .request, [jtstring, ← joinColon dataVectorStr]⟩

/-- `Requester::retrieve`, of a message that was received. -/
def retrieve (r : Message) : Except Fault (ℕ × List F) := do
  let id ← orThrow (stoul (← nth r.address 0))
  let results ← r.data.mapM fun x => orThrow (c.stod x)
  return (id % 2 ^ 32, results)

/-- With decimals that are read as exact. -/
theorem retrieve_eq (c : Deployment P ℚ) (h : c.stod = Stateline.stod) :
    retrieve c = Requester.retrieve := by
  funext r
  unfold retrieve
  rw [h]
  rfl

theorem submit_eq (c : Deployment P FiniteDouble) (h : c.to_string = fun x => toDecimal x.val)
    (r : SampleRequest (Fin d → FiniteDouble)) :
    submit c r = Requester.submit r.id r.jobTypes (List.ofFn r.data) := by
  unfold submit
  rw [h]
  rfl

/-- Nothing is submitted yet, and no worker is connected. The delegator has its default settings. -/
def init : Service P F d :=
  ⟨.starting [], .init (DelegatorSettings.default c.port).nJobTypes c.workerCount c.range, [], []⟩

inductive Act (F : Type) (d : ℕ)
  /-- The steps of `runSampler` that wait for nothing. -/
  | generate (sample : Fin d → F)
  | start
  | stop
  | finish
  /-- `runSampler` retrieves the oldest result. -/
  | retrieve (acceptRand swapRand : F) (now : ℤ)
  /-- The delegator reads the oldest request. -/
  | request
  /-- The other steps of the delegator and its workers, with the requests of others. -/
  | other (a : Cluster.Act)

variable [Double F] [Inhabited F] [Proposal P (Fin d → F) F]

/-- A step of `runSampler`, which submits what is new among the requests outstanding. -/
def advance (s : Service P F d) (a : SamplerProgram.Act (Fin d → F) F) (toRequester : List Message) :
    Option (Service P F d) := do
  let program ← SamplerProgram.step c.toSetup s.program a
  let new := (SamplerProgram.outstanding c.toSetup program).drop
    (SamplerProgram.left c.toSetup s.program a).length
  match new.mapM (submit c) with
  | .ok ms => some { s with program, toDelegator := s.toDelegator ++ ms, toRequester }
  | .error _ => none

/-- What arrives at the requester of what the delegator sends. -/
def arriving (out : List Message) : List Message :=
  (out.filter fun m => m.address.getLast? = some c.me).map fun m =>
    { m with address := m.address.dropLast }

/-- The state after a step of the delegator and its workers. -/
def afterCluster (s : Service P F d) : Option (Cluster F × List Message) → Option (Service P F d)
  | some (cluster, out) => some { s with cluster, toRequester := s.toRequester ++ arriving c out }
  | none => none

/-- One step. There is no next state when a call throws or nothing is there to be read. -/
def step (s : Service P F d) : Act F d → Option (Service P F d)
  | .generate sample => s.advance c (.generate sample) s.toRequester
  | .start => s.advance c .start s.toRequester
  | .stop => s.advance c .stop s.toRequester
  | .finish => s.advance c .finish s.toRequester
  | .retrieve acceptRand swapRand now =>
    match s.toRequester with
    | [] => none
    | m :: rest =>
      match retrieve c m with
      | .ok (id, results) =>
        let index := (SamplerProgram.outstanding c.toSetup s.program).findIdx fun r => r.id = id
        s.advance c (.retrieve ⟨index, results, acceptRand, swapRand, now⟩) rest
      | .error _ => none
  | .request =>
    match s.toDelegator with
    | [] => none
    | m :: rest =>
      { s with toDelegator := rest }.afterCluster c
        (s.cluster.step c.stod c.to_string c.lhFn
          (.request { m with address := m.address ++ [c.me] }))
  | .other a => s.afterCluster c (s.cluster.step c.stod c.to_string c.lhFn a)

end Service

end Stateline
