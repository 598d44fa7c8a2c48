import Stateline.App.RunSampler
import Stateline.Common.Str
import Stateline.Infer.Drawn

/-!
# A configuration, and the run on it

`StatelineSettings::fromJSON` and `ProposalBoundsFromJSON`, and `runSampler` of
`app/serverwrapper.cpp` with its initial samples and its main loop. The energies of the
initial samples, the random numbers and the clock are arguments. Vectors have fewer than
2^32 components.
-/

namespace Stateline

variable {F : Type}

/-- The fields of a JSON object that are read: a value of the type that is asked for, or none. -/
structure Json (F : Type) where
  nStacks : Option ℕ
  nTemperatures : Option ℕ
  nSamplesTotal : Option ℕ
  swapInterval : Option ℕ
  loggingRateSec : Option F
  nJobTypes : Option ℕ
  outputPath : Option Str
  optimalAcceptRate : Option F
  optimalSwapRate : Option F
  useInitial : Option Bool
  initial : Option (List F)
  min : Option (List F)
  max : Option (List F)

/-- The settings that `runSampler` reads, and the initial point and the bounds. -/
structure Settings (F : Type) extends StatelineSettings F where
  nsamples : ℕ
  useInitial : Bool
  initial : List F
  ndims : ℕ
  proposalBounds : ProposalBounds F ndims

/-- `readSettings<uint>`. -/
def readUint (field : Option ℕ) : Option ℕ := field.map (· % 2 ^ 32)

/-- `ProposalBoundsFromJSON`, which ends the process when the dimensions are not the same. -/
def proposalBoundsFromJSON (j : Json F) : Option ((ndims : ℕ) × ProposalBounds F ndims) := do
  let vmin ← j.min
  let vmax ← j.max
  if h : vmin.length = vmax.length then
    return ⟨vmax.length, fun i => vmin.get (i.cast h.symm), vmax.get⟩
  else none

/-- `fromJSON`. The process ends where a field cannot be read. -/
def fromJSON (j : Json F) : Option (Settings F) := do
  let nstacks ← readUint j.nStacks
  let ntemps ← readUint j.nTemperatures
  let nsamples ← readUint j.nSamplesTotal
  let swapInterval ← readUint j.swapInterval
  let _ ← j.loggingRateSec
  let nJobTypes ← readUint j.nJobTypes
  let _ ← j.outputPath
  let optimalAcceptRate ← j.optimalAcceptRate
  let optimalSwapRate ← j.optimalSwapRate
  let useInitial ← j.useInitial
  let initial ← if useInitial then j.initial else some []
  let ⟨ndims, proposalBounds⟩ ← proposalBoundsFromJSON j
  return { nstacks, ntemps, nJobTypes, swapInterval, optimalAcceptRate, optimalSwapRate,
           nsamples, useInitial, initial, ndims, proposalBounds }

namespace Settings

variable [CMath F] (s : Settings F)

/-- What `generateInitialSample` passes to `bouncyBounds`: the configured point, which may have
another dimension, or a random one. -/
def initialPoint (random : Fin s.ndims → F) : Except Fault (Fin s.ndims → F) :=
  if s.useInitial then
    if h : s.initial.length = s.ndims then .ok fun i => s.initial.get (i.cast h.symm)
    else .error .undefined
  else .ok random

/-- `generateInitialSample`, without its energy. -/
def generateInitialSample (random : Fin s.ndims → F) : Except Fault (Fin s.ndims → F) := do
  foldBounds (← s.initialPoint random) s.proposalBounds.min s.proposalBounds.max

/-- The initial samples of all chains. -/
def initialSamples (random : ℕ → Fin s.ndims → F) : Except Fault (ℕ → Fin s.ndims → F) :=
  (List.range s.numChains).foldlM
    (fun samples i => do return Function.update samples i (← s.generateInitialSample (random i)))
    fun _ _ => 0.0

end Settings

/-- What is random in a run, but for what the steps get: the initial points, with the energies
that the workers find, and the draws of the proposals. -/
structure Chance (F : Type) (ndims : ℕ) where
  random : ℕ → Fin ndims → F
  energies : ℕ → F
  draws : ℕ → Fin ndims → F
  now : ℤ

/-- The main loop of `runSampler`. -/
structure MainLoop (F : Type) (ndims : ℕ) where
  sampler : Sampler (Drawn F ndims) (Fin ndims → F) F
  nsamples : ℕ

namespace MainLoop

variable [CMath F]

/-- `runSampler` up to its main loop. -/
def init (s : Settings F) [Inhabited F] (c : Chance F s.ndims) : Except Fault (MainLoop F s.ndims) := do
  let proposal ← Drawn.init s.proposalBounds 1000 c.draws
  let samples ← s.initialSamples c.random
  let sampler ← RunSampler.runSampler s.toStatelineSettings proposal
    (fun i => (samples i, c.energies i)) c.now
  return ⟨sampler, 0⟩

/-- A round of the main loop: there is none once enough samples of the coldest chains are there, or when
the step does not return. -/
def next (s : Settings F) (m : MainLoop F s.ndims) (i : Input F) : Option (MainLoop F s.ndims) :=
  if m.nsamples < s.nsamples then
    match m.sampler.step i with
    | .ok (sampler, id, _) =>
      some ⟨sampler, if id % s.ntemps = 0 then (m.nsamples + 1) % 2 ^ 32 else m.nsamples⟩
    | .error _ => none
  else none

end MainLoop

end Stateline
