import Stateline.Infer.ChainArray

/-!
# Convergence diagnostics

`EPSRDiagnostic` of `infer/diagnostics.cpp`: the estimated potential scale reduction of the coldest
chains. An array with a column for each stack is a function of the stack and the dimension, and
the counts stay below 2^31.
-/

namespace Stateline

structure EPSRDiagnostic (F : Type) (d : ℕ) where
  nStacks : ℕ
  nChains : ℕ
  /-- The running means. -/
  M : ℕ → Fin d → F
  /-- The running sums of squared deviations. -/
  S : ℕ → Fin d → F
  numSamples : ℕ → ℕ
  threshold : F

namespace EPSRDiagnostic

variable {F : Type} [CMath F] {d : ℕ}

/-- The constructor. -/
def init (nStacks nChains : ℕ) (threshold : F) : EPSRDiagnostic F d :=
  ⟨nStacks, nChains, fun _ _ => 0.0, fun _ _ => 0.0, fun _ => 0, threshold⟩

variable (e : EPSRDiagnostic F d)

/-- `update`. -/
def update (id : ℕ) (state : State (Fin d → F) F) : EPSRDiagnostic F d :=
  -- only the coldest chains are monitored
  if id % e.nChains = 0 then
    let id := id / e.nChains
    let n := e.numSamples id + 1
    let x := state.sample
    let newM : Fin d → F := fun i => e.M id i + (x i - e.M id i) / Double.ofInt n
    { e with
      S := Function.update e.S id fun i => e.S id i + (x i - e.M id i) * (x i - newM i)
      M := Function.update e.M id newM
      numSamples := Function.update e.numSamples id n }
  else e

/-- `numSamples_.minCoeff()`, the length of the shortest chain. -/
def minSamples : ℕ := (List.range e.nStacks).foldl (fun n k => min n (e.numSamples k)) (e.numSamples 0)

/-- A sum over the stacks. -/
def sumStacks (f : ℕ → F) : F := (List.range e.nStacks).foldl (fun acc k => acc + f k) 0.0

/-- `b` of `rHat`, the variance between the chains. -/
def between (i : Fin d) : F :=
  let n : F := Double.ofInt e.minSamples
  let m : F := Double.ofInt e.nStacks
  let overallMean := e.sumStacks (fun k => e.M k i) / m
  n / (m - 1.0) * e.sumStacks fun k => (e.M k i - overallMean) * (e.M k i - overallMean)

/-- `w` of `rHat`, the variance within the chains. -/
def within (i : Fin d) : F :=
  let n : F := Double.ofInt e.minSamples
  let m : F := Double.ofInt e.nStacks
  e.sumStacks fun k => 1.0 / m * e.S k i / (n - 1.0)

/-- `rHat`. -/
def rHat (i : Fin d) : F :=
  let n : F := Double.ofInt e.minSamples
  let vHat := (n - 1.0) / n * e.within i + 1.0 / n * e.between i
  CMath.sqrt (vHat / (e.within i + 1e-30))

/-- `hasConverged`. -/
def hasConverged : Bool := (List.finRange d).all fun i => Double.lt (e.rHat i) e.threshold

end EPSRDiagnostic

end Stateline
