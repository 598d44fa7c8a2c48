import Stateline.Infer.GaussianProposal
import Stateline.Infer.Sampler

/-!
# The proposal with its draws

`GaussianProposal` as the sampler calls it: the draws of its generator are a stream, and
a division by zero is undefined, as the conversion out of range is. `points` is no data of
the source: it lists, newest first, what was passed to `bouncyBounds`. A sample that is
undefined is the point itself; no result is about what comes after it.
-/

namespace Stateline

variable {F : Type} {nDims : ℕ} [CMath F]

/-- A number that no division may have as its divisor. -/
def isZero (v : F) : Bool := !Double.lt v 0.0 && !Double.lt 0.0 v

/-- The component is out of its bounds, so that it is divided by their distance, which is zero. -/
def dividesByZero (val min max : F) : Bool :=
  (Double.lt max val || Double.lt val min) && isZero (max - min)

/-- `bouncyBounds`, where a division by zero is undefined. -/
def foldBounds (val min max : Fin nDims → F) : Except Fault (Fin nDims → F) :=
  if (List.finRange nDims).any fun i => dividesByZero (val i) (min i) (max i) then .error .undefined
  else bouncyBounds val min max

/-- A proposal, the draws to come, and the points so far. -/
structure Drawn (F : Type) (nDims : ℕ) where
  gaussian : GaussianProposal F nDims
  draws : ℕ → Fin nDims → F
  points : List (Fin nDims → F)

namespace Drawn

/-- The constructor of `GaussianProposal`, which divides by the norm of the widths. -/
def init (bounds : ProposalBounds F nDims) (initLength : ℕ) (draws : ℕ → Fin nDims → F) :
    Except Fault (Drawn F nDims) :=
  let range : Fin nDims → F := fun i => (bounds.max i - bounds.min i) / 4.0
  if nDims ≠ 0 ∧ isZero (ProposalShaper.norm range) then .error .undefined
  else .ok ⟨.init bounds initLength, draws, []⟩

variable (p : Drawn F nDims)

/-- The point that is drawn next. -/
def point (id : ℕ) (sample : Fin nDims → F) (sigma : F) : Fin nDims → F :=
  p.gaussian.propose id sample sigma (p.draws 0)

/-- The proposal after a draw. -/
def drawn (point : Fin nDims → F) : Drawn F nDims :=
  { p with draws := fun n => p.draws (n + 1), points := point :: p.points }

/-- `boundedPropose`, and `update`. -/
instance : Proposal (Drawn F nDims) (Fin nDims → F) F where
  propose p id sample sigma :=
    let point := p.point id sample sigma
    match foldBounds point p.gaussian.bounds.min p.gaussian.bounds.max with
    | .ok sample => (sample, p.drawn point)
    | .error _ => (point, p.drawn point)
  update p id stepv := { p with gaussian := p.gaussian.update id stepv }

end Drawn

end Stateline
