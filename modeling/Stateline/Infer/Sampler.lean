import Stateline.Infer.Adaptive
import Stateline.Infer.ChainArray

/-!
# The sampler

`infer/sampler.cpp`. What other threads and the random generators decide is the
input of a step: which outstanding request is answered, with which results, the
draws and the clock. There are fewer than 2^32 chains and jobs. `calls` is no data of the
source: it lists, newest first, what the sampler called, with the arguments and what it had
read for them.
-/

namespace Stateline

/-- What the sampler calls of its proposal, which holds a random generator. -/
class Proposal (P V F : Type) where
  /-- `operator()`. -/
  propose : P → ℕ → V → F → V × P
  update : P → ℕ → V → P

/-- A request that was submitted. -/
structure SampleRequest (V : Type) where
  id : ℕ
  jobTypes : List ℕ
  data : V

/-- A call of the sampler. -/
inductive Call (V F : Type)
  /-- The proposal, from the last state of a chain and a step size. -/
  | propose (id : ℕ) (last : State V F) (sigma : F) (sample : V)
  | submit (id : ℕ) (jobTypes : List ℕ) (sample : V)
  | retrieve (request : SampleRequest V) (results : List F)
  /-- `chains_.append` with its draw, and what the chain array then holds of the chain. -/
  | append (id : ℕ) (sample : V) (energy rand : F) (last : State V F) (sigma beta : F)
  /-- `sigmaAdapter_.update`. -/
  | update (id : ℕ) (logval sideData : F) (accepted : Bool)

structure Sampler (P V F : Type) where
  /-- The requests that were submitted and not retrieved. -/
  requester : List (SampleRequest V)
  jobTypes : List ℕ
  chains : ChainArray V F
  proposal : P
  sigmaAdapter : RegressionAdapter F
  betaAdapter : RegressionAdapter F
  propStates : ℕ → V
  swapInterval : ℕ
  numOutstandingJobs : ℕ
  locked : ℕ → Bool
  haveFlushed : Bool
  calls : List (Call V F)

/-- What a call of `retrieve`, and the step around it, gets from outside. -/
structure Input (F : Type) where
  /-- The position of the request that is answered. -/
  index : ℕ
  results : List F
  acceptRand : F
  swapRand : F
  now : ℤ

/-- `n--` of a `uint`. -/
def predUint (n : ℕ) : ℕ := if n = 0 then 2 ^ 32 - 1 else n - 1

namespace Sampler

variable {P V F : Type} [Double F] [Sub V] [Proposal P V F] (s : Sampler P V F)

/-- `requester_.retrieve`. -/
def retrieve (i : Input F) : Except Fault (SampleRequest V × Sampler P V F) :=
  match s.requester[i.index]? with
  | some request =>
    .ok (request, { s with
      requester := s.requester.eraseIdx i.index
      calls := .retrieve request i.results :: s.calls })
  | none => .error .blocked

/-- The sum of the likelihood factors. -/
def energyOf (results : List F) : F := results.foldl (· + ·) 0.0

/-- `propose`. -/
def propose (id : ℕ) : Except Fault (Sampler P V F) := do
  let last ← s.chains.lastState id
  let sigma := s.sigmaAdapter.values id
  let (sample, proposal) := Proposal.propose s.proposal id last.sample sigma
  return { s with
    proposal
    propStates := Function.update s.propStates id sample
    requester := s.requester ++ [⟨id, s.jobTypes, sample⟩]
    numOutstandingJobs := s.numOutstandingJobs + 1
    calls := .submit id s.jobTypes sample :: .propose id last sigma sample :: s.calls }

/-- The constructor, on a requester with nothing outstanding: all chains are started,
from hottest to coldest. -/
def init [Inhabited V] (jobTypes : List ℕ) (chains : ChainArray V F) (proposal : P)
    (sigmaAdapter betaAdapter : RegressionAdapter F) (swapInterval : ℕ) :
      Except Fault (Sampler P V F) :=
  (List.range chains.numTotalChains).foldlM (fun s i => s.propose (chains.numTotalChains - i - 1))
    ⟨[], jobTypes, chains, proposal, sigmaAdapter, betaAdapter, fun _ => default, swapInterval, 0,
      fun _ => false, true, []⟩

/-- `chains_.append` of a proposed state. -/
def append (id : ℕ) (energy : F) (i : Input F) : Except Fault (Sampler P V F) := do
  let last ← s.chains.lastState id
  let (chains, _) ← s.chains.append id (s.propStates id) energy i.acceptRand i.now
  return { s with
    chains
    calls := .append id (s.propStates id) energy i.acceptRand last (s.chains.sigma id)
      (s.chains.beta id) :: s.calls }

/-- The adaption of the proposal's scale and shape to a state just recorded. -/
def adapt (id : ℕ) (previousState state : State V F) : Except Fault (Sampler P V F) := do
  let logtemper := -Double.log state.beta
  let sigmaAdapter := s.sigmaAdapter.update id (Double.log state.sigma) logtemper state.accepted
  let (sigmaAdapter, sigma) := sigmaAdapter.computeSigma id logtemper
  let chains ← s.chains.setSigma id sigma
  return { s with
    chains
    sigmaAdapter
    proposal :=
      if state.accepted then Proposal.update F s.proposal id (state.sample - previousState.sample)
        else s.proposal
    calls := .update id (Double.log state.sigma) logtemper state.accepted :: s.calls }

/-- `unlock`. -/
def unlock (id : ℕ) : Except Fault (Sampler P V F) := do
  let s := { s with locked := Function.update s.locked id false }
  -- the hotter chain no longer has to wait
  let s ← s.propose (id + 1)
  if id % s.chains.numTemps ≠ 0 then return { s with locked := Function.update s.locked (id - 1) true }
  else s.propose id

/-- The swap of a locked chain with the chain above, which is waiting. -/
def swap (id : ℕ) (i : Input F) : Except Fault (Sampler P V F) := do
  let (chains, swapType) ← s.chains.swap id (id + 1) i.swapRand
  let s ← { s with chains }.unlock id
  let betaAdapter :=
    s.betaAdapter.betaUpdate id (s.chains.beta id) (s.chains.beta (id + 1))
      (decide (swapType = .accept))
  let betaAdapter :=
    if s.chains.isColdestInStack id then betaAdapter.computeBetaStack id else betaAdapter
  let chains ← s.chains.setBeta (id + 1) (betaAdapter.values (id + 1))
  return { s with chains, betaAdapter }

/-- What becomes of a chain after its result: a swap, the start of a swap cascade, or a new proposal. -/
def proceed (id : ℕ) (i : Input F) : Except Fault (Sampler P V F) :=
  if s.locked id then s.swap id i
  else if s.chains.isHottestInStack id then
    if s.swapInterval = 0 then .error .undefined
    else if s.chains.length id % s.swapInterval = 0 ∧ 1 < s.chains.numTemps then
      .ok { s with locked := Function.update s.locked (id - 1) true }
    else s.propose id
  else s.propose id

/-- `step`. -/
def step (i : Input F) : Except Fault (Sampler P V F × ℕ × State V F) := do
  let (request, s) ← s.retrieve i
  let id := request.id
  let energy := energyOf i.results
  let s := { s with numOutstandingJobs := predUint s.numOutstandingJobs }
  let previousState ← s.chains.lastState id
  let s ← s.append id energy i
  let state ← s.chains.lastState id
  let s := { s with haveFlushed := false }
  let s ← s.adapt id previousState state
  let s ← s.proceed id i
  return (s, id, ← s.chains.lastState id)

/-- The body of the loop in `flush`. -/
def collect (i : Input F) : Except Fault (Sampler P V F) := do
  let (request, s) ← s.retrieve i
  s.append request.id (energyOf i.results) i

/-- `flush`, with the results that arrive while it waits, one for each outstanding job. -/
def flush (is : List (Input F)) : Except Fault (Sampler P V F) := do
  let s := { s with haveFlushed := true }
  if is.length ≠ s.numOutstandingJobs then .error .blocked
  else
    let s ← is.foldlM (fun s i => s.collect i) s
    -- the loop ends with the decrement of zero
    return { s with numOutstandingJobs := predUint 0, chains := s.chains.flushAll }

/-- `~Sampler`. -/
def destroy (is : List (Input F)) : Except Fault (Sampler P V F) :=
  if s.haveFlushed then .ok s else s.flush is

end Sampler

end Stateline
