import Stateline.Infer.Double

/-!
# The shape of the proposals

`ProposalShaper` of `infer/adaptive.cpp`: for each chain the Cholesky factor of the
covariance of its steps, and a normalised version of it. A vector is a function of the
index, and a vector with one entry for each chain a function of the chain.
-/

namespace Stateline

/-- The bounds of the proposals. -/
structure ProposalBounds (F : Type) (d : ℕ) where
  min : Fin d → F
  max : Fin d → F

structure ProposalShaper (F : Type) (nDims : ℕ) where
  propNorm : F
  count : ℕ → ℕ
  L : ℕ → Fin nDims → Fin nDims → F
  N : ℕ → Fin nDims → Fin nDims → F

namespace ProposalShaper

variable {F : Type} {nDims : ℕ} [CMath F]

def eps : F := 1e-18

def minRank : F := 1e-4

/-- `norm()` of a vector. -/
def norm (v : Fin nDims → F) : F :=
  CMath.sqrt ((List.finRange nDims).foldl (fun acc i => acc + v i * v i) 0.0)

/-- `norm()` of a matrix. -/
def matrixNorm (R : Fin nDims → Fin nDims → F) : F :=
  CMath.sqrt ((List.finRange nDims).foldl
    (fun acc j => (List.finRange nDims).foldl (fun acc i => acc + R i j * R i j) acc) 0.0)

/-- A zero matrix, but for its diagonal. -/
def diagonal (v : Fin nDims → F) : Fin nDims → Fin nDims → F := fun i j => if i = j then v i else 0.0

/-- The constructor. -/
def init (bounds : ProposalBounds F nDims) (initialCount : ℕ) : ProposalShaper F nDims :=
  let range : Fin nDims → F := fun i => (bounds.max i - bounds.min i) / 4.0
  let rnorm : Fin nDims → F := fun i => range i / norm range
  ⟨norm range, fun _ => initialCount, fun _ => diagonal range, fun _ => diagonal rnorm⟩

/-- `R(j, k) = v`. -/
def set (R : Fin nDims → Fin nDims → F) (j k : Fin nDims) (v : F) : Fin nDims → Fin nDims → F :=
  Function.update R j (Function.update (R j) k v)

/-- The body of the inner loop of `update`, over the factor and the working vector. -/
def row (k : Fin nDims) (c s : F) (p : (Fin nDims → Fin nDims → F) × (Fin nDims → F)) (j : Fin nDims) :
    (Fin nDims → Fin nDims → F) × (Fin nDims → F) :=
  let (R, x) := p
  let R := set R j k ((R j k + s * x j) / c)
  (R, Function.update x j (c * x j - s * R j k))

/-- The body of the outer loop of `update`. -/
def column (p : (Fin nDims → Fin nDims → F) × (Fin nDims → F)) (k : Fin nDims) :
    (Fin nDims → Fin nDims → F) × (Fin nDims → F) :=
  let (R, x) := p
  let V := Double.max eps (R k k)
  let r := CMath.sqrt (V * V + x k * x k)
  let c := r / V
  let s := x k / V
  ((List.finRange nDims).filter (k < ·)).foldl (row k c s) (set R k k r, x)

variable (sh : ProposalShaper F nDims)

/-- `update`. -/
def update (i : ℕ) (sample : Fin nDims → F) : ProposalShaper F nDims :=
  let count : ℕ := (sh.count i + 1) % 2 ^ 32
  let n : F := Double.ofInt count
  -- the incremental scaling
  let x : Fin nDims → F := fun j => sample j / CMath.sqrt n
  let R : Fin nDims → Fin nDims → F := fun j k => sh.L i j k * CMath.sqrt ((n - 1.0) / n)
  let R := ((List.finRange nDims).foldl column (R, x)).1
  -- the normalised version, which is kept from low rank
  let scale := sh.propNorm / Double.max (matrixNorm R) eps
  let N : Fin nDims → Fin nDims → F :=
    fun j k => if j = k then R j k * scale + minRank else R j k * scale
  { sh with
    count := Function.update sh.count i count
    L := Function.update sh.L i R
    N := Function.update sh.N i N }

/-- `Ns`. -/
def Ns : ℕ → Fin nDims → Fin nDims → F := sh.N

end ProposalShaper

end Stateline
