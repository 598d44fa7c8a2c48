import Stateline.Infer.Sampler

/-!
# Running the sampler

`runSampler` of `app/serverwrapper.cpp`, up to its main loop, which only calls
`step`. The workers compute the energies of the initial samples, which are an
input here with the samples.
-/

namespace Stateline

/-- What `runSampler` reads of its settings. -/
structure StatelineSettings (F : Type) where
  nstacks : ℕ
  ntemps : ℕ
  nJobTypes : ℕ
  swapInterval : ℕ
  optimalAcceptRate : F
  optimalSwapRate : F

/-- The number of chains, a `uint`, and so the size of each vector with an entry for a chain. -/
def StatelineSettings.numChains {F : Type} (s : StatelineSettings F) : ℕ :=
  (s.nstacks * s.ntemps) % 2 ^ 32

namespace RunSampler

variable {P V F : Type} [Double F] (settings : StatelineSettings F)

def maxLogRatio : F := 4.0

def minLogRatio : F := -8.0

/-- The temperatures of a stack are computed at its coldest chain, the last of them for the chain
`i + ntemps - 1`. -/
def initBetas (betaAdapter : RegressionAdapter F) (i : ℕ) : Except Fault (RegressionAdapter F) :=
  if i % settings.ntemps = 0 then
    if i + settings.ntemps ≤ settings.numChains then .ok (betaAdapter.computeBetaStack i)
    else .error .undefined
  else .ok betaAdapter

/-- The body of the loop over the chains, with an initial sample and its energy for each. -/
def initialise (samples : ℕ → V × F) (sigmaAdapter : RegressionAdapter F)
    (p : ChainArray V F × RegressionAdapter F) (i : ℕ) :
      Except Fault (ChainArray V F × RegressionAdapter F) := do
  let (chains, betaAdapter) := p
  let (sample, energy) := samples i
  let betaAdapter ← initBetas settings betaAdapter i
  let chains ← chains.initialise i sample energy (sigmaAdapter.values i) (betaAdapter.values i)
  return (chains, betaAdapter)

/-- The chains are initialised and the sampler is constructed. -/
def start [Inhabited V] [Proposal P V F] (sigmaAdapter betaAdapter : RegressionAdapter F) (proposal : P)
    (samples : ℕ → V × F) (now : ℤ) : Except Fault (Sampler P V F) := do
  let chains := ChainArray.init settings.nstacks settings.ntemps now
  let (chains, betaAdapter) ← (List.range settings.numChains).foldlM
    (initialise settings samples sigmaAdapter) (chains, betaAdapter)
  Sampler.init (List.range settings.nJobTypes) chains proposal sigmaAdapter betaAdapter
    settings.swapInterval

/-- The adapter of the step sizes. -/
def sigmaAdapter : RegressionAdapter F :=
  .init settings.nstacks settings.ntemps settings.optimalAcceptRate minLogRatio maxLogRatio

/-- The adapter of the temperatures. -/
def betaAdapter : RegressionAdapter F :=
  .init settings.nstacks settings.ntemps settings.optimalSwapRate 0.0 maxLogRatio

/-- `runSampler`. -/
def runSampler [Inhabited V] [Proposal P V F] (proposal : P) (samples : ℕ → V × F) (now : ℤ) :
    Except Fault (Sampler P V F) :=
  start settings (sigmaAdapter settings) (betaAdapter settings) proposal samples now

end RunSampler

end Stateline
