import Stateline.Comms.Message
import Stateline.Infer.ProposalShaper

/-!
# The proposal

`bouncyBounds` and `GaussianProposal` of `infer/sampler.cpp`, for bounds with a
component for each dimension. The standard normal draws are an argument. The
conversion of a `double` to `int` is undefined outside of `int`.
-/

namespace Stateline

variable {F : Type} {nDims : ℕ} [CMath F]

/-- `(int)v`. -/
def toInt (v : F) : Except Fault ℤ :=
  let z := CMath.trunc v
  if -2 ^ 31 ≤ z ∧ z < 2 ^ 31 then .ok z else .error .undefined

/-- The body of the loop of `bouncyBounds`: the component of the result. -/
def bounce (val min max : F) : Except Fault F := do
  let delta := max - min
  let big := Double.lt max val
  let small := Double.lt val min
  let result ← (if big then do
      let overstep := val - max
      let nSteps ← toInt (overstep / delta)
      let stillToGo := overstep - Double.ofInt nSteps * delta
      return if nSteps.tmod 2 = 0 then max - stillToGo else min + stillToGo
    else .ok val)
  if small then do
      let understep := min - val
      let nSteps ← toInt (understep / delta)
      let stillToGo := understep - Double.ofInt nSteps * delta
      return if nSteps.tmod 2 = 0 then min + stillToGo else max - stillToGo
    else .ok result

/-- `bouncyBounds`. -/
def bouncyBounds (val min max : Fin nDims → F) : Except Fault (Fin nDims → F) :=
  (List.finRange nDims).foldlM
    (fun result i => do return Function.update result i (← bounce (val i) (min i) (max i))) val

structure GaussianProposal (F : Type) (nDims : ℕ) where
  bounds : ProposalBounds F nDims
  proposalShape : ProposalShaper F nDims

namespace GaussianProposal

/-- The constructor. -/
def init (bounds : ProposalBounds F nDims) (initLength : ℕ) : GaussianProposal F nDims :=
  ⟨bounds, .init bounds initLength⟩

variable (p : GaussianProposal F nDims)

/-- `propose`. -/
def propose (id : ℕ) (sample : Fin nDims → F) (sigma : F) (randn : Fin nDims → F) :
    Fin nDims → F := fun i =>
  sample i +
    (List.finRange nDims).foldl (fun acc j => acc + p.proposalShape.Ns id i j * randn j) 0.0 * sigma

/-- `boundedPropose`. -/
def boundedPropose (id : ℕ) (sample : Fin nDims → F) (sigma : F) (randn : Fin nDims → F) :
    Except Fault (Fin nDims → F) :=
  bouncyBounds (p.propose id sample sigma randn) p.bounds.min p.bounds.max

/-- `update`. -/
def update (id : ℕ) (stepv : Fin nDims → F) : GaussianProposal F nDims :=
  { p with proposalShape := p.proposalShape.update id stepv }

end GaussianProposal

end Stateline
