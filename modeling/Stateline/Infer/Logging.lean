import Stateline.Infer.Diagnostics

/-!
# Logging

`TableLogger` of `infer/logging.cpp`: what it counts for each chain, and what it tells the API. What
it prints from time to time is left out. Counts are `uint`s, and `infinity` is the limit of a
`double` that the energies start from.
-/

namespace Stateline

structure TableLogger (F : Type) (d : ℕ) where
  /-- The number of chains. -/
  size : ℕ
  lengths : ℕ → ℕ
  minEnergies : ℕ → F
  energies : ℕ → F
  nAcceptsGlobal : ℕ → ℕ
  nSwapsGlobal : ℕ → ℕ
  nSwapAttemptsGlobal : ℕ → ℕ
  diagnostic : EPSRDiagnostic F d

/-- An entry of the resource `chains`. -/
structure ChainResource (F : Type) where
  id : ℕ
  length : ℕ
  energy : F
  minEnergy : F
  sigma : F
  acceptRate : F
  beta : F
  swapRate : F

/-- What the logger sets of the resources of the API. -/
structure ApiResources (F : Type) where
  numStacks : ℕ
  chainsPerStack : ℕ
  chains : List (ChainResource F)

namespace TableLogger

variable {F : Type} [CMath F] {d : ℕ}

/-- The constructor. -/
def init (infinity : F) (nstacks nchains : ℕ) : TableLogger F d where
  size := (nstacks * nchains) % 2 ^ 32
  lengths _ := 1
  minEnergies _ := infinity
  energies _ := 0.0
  nAcceptsGlobal _ := 1
  nSwapsGlobal _ := 0
  nSwapAttemptsGlobal _ := 1
  diagnostic := .init nstacks nchains 1.1

/-- A count that goes up when `b` holds. -/
def tick (counts : ℕ → ℕ) (id : ℕ) (b : Bool) : ℕ → ℕ :=
  Function.update counts id ((counts id + if b then 1 else 0) % 2 ^ 32)

variable (l : TableLogger F d)

/-- `update`. -/
def update (id : ℕ) (s : State (Fin d → F) F) : TableLogger F d where
  size := l.size
  lengths := tick l.lengths id true
  minEnergies := Function.update l.minEnergies id (Double.min (l.minEnergies id) s.energy)
  energies := Function.update l.energies id s.energy
  nAcceptsGlobal := tick l.nAcceptsGlobal id s.accepted
  nSwapsGlobal := tick l.nSwapsGlobal id (s.swapType = .accept)
  nSwapAttemptsGlobal := tick l.nSwapAttemptsGlobal id (s.swapType ≠ .noAttempt)
  diagnostic := l.diagnostic.update id s

/-- `updateApi`. -/
def updateApi (chains : ChainArray (Fin d → F) F) : ApiResources F where
  numStacks := chains.numStacks
  chainsPerStack := chains.numTemps
  chains := (List.range l.size).map fun i =>
    { id := i
      length := l.lengths i
      energy := l.energies i
      minEnergy := l.minEnergies i
      sigma := chains.sigma i
      acceptRate := Double.ofInt (l.nAcceptsGlobal i) / Double.ofInt (l.lengths i)
      beta := chains.beta i
      swapRate := Double.ofInt (l.nSwapsGlobal i) / Double.ofInt (l.nSwapAttemptsGlobal i) }

end TableLogger

end Stateline
