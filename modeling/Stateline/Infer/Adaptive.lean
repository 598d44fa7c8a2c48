import Stateline.Infer.Double

/-!
# Regression adapters

`infer/adaptive.cpp`: a linear model of the acceptance rate for each temperature,
from which the proposal widths and the temperature ratios are predicted. A vector
with one entry for each chain or temperature is a function.
-/

namespace Stateline

variable {F : Type}

structure RegressionAdapter (F : Type) where
  nStacks : ℕ
  nTemps : ℕ
  minCap : F
  maxCap : F
  optimalRate : F
  -- for estimating proposal lengths
  muXY : ℕ → Fin 3 → F
  muXX : ℕ → Fin 3 → Fin 3 → F
  weight : ℕ → Fin 3 → F
  count : ℕ → F
  -- for estimating the accept rates using a rolling window
  window : ℕ → List ℤ
  windowSum : ℕ → ℤ
  rates : ℕ → F
  values : ℕ → F

namespace RegressionAdapter

variable [Double F]

def initialCount : F := 10.0

def tempVariance : F := 10.0

def nWindow : ℕ := 1000

/-- The constructor. -/
def init (nStacks nTemps : ℕ) (optimalRate minCap maxCap : F) : RegressionAdapter F :=
  -- data-point = (logx, log_sidedata, bias=1.)
  let boundRej : Fin 3 → F := ![minCap, 0.0, 1.0]
  let boundAcc : Fin 3 → F := ![maxCap, 0.0, 1.0]
  let muXX : Fin 3 → Fin 3 → F := fun i j =>
    if i = 1 ∧ j = 1 then tempVariance
    else 0.5 * boundRej i * boundRej j + 0.5 * boundAcc i * boundAcc j
  let muXY : Fin 3 → F := fun i => 0.5 * boundAcc i
  ⟨nStacks, nTemps, minCap, maxCap, optimalRate, fun _ => muXY, fun _ => muXX, fun _ => muXY,
    fun _ => initialCount, fun _ => [], fun _ => 0, fun _ => 0.0, fun _ => 1.0⟩

variable (a : RegressionAdapter F)

/-- `update`. -/
def update (chainID : ℕ) (logval sideData : F) (acc : Bool) : RegressionAdapter F :=
  let tempID := chainID % a.nTemps
  let logval := Double.min (Double.max logval a.minCap) a.maxCap
  let x : Fin 3 → F := ![-logval, sideData, 1.0]
  let y : F := if acc then 1.0 else 0.0
  let count := a.count tempID + 1.0
  let alpha := 1.0 / count
  let muXX : Fin 3 → Fin 3 → F := fun i j => a.muXX tempID i j * (1.0 - alpha) + x i * x j * alpha
  let muXY : Fin 3 → F := fun i => a.muXY tempID i * (1.0 - alpha) + x i * y * alpha
  -- the accept rate, with a circular buffer
  let ia : ℤ := if acc then 1 else 0
  let window := a.window chainID ++ [ia]
  let windowSum := a.windowSum chainID + ia
  let n := window.length
  let full := nWindow ≤ n
  { a with
    muXX := Function.update a.muXX tempID muXX
    muXY := Function.update a.muXY tempID muXY
    weight := Function.update a.weight tempID (Double.solve muXX muXY)
    count := Function.update a.count tempID count
    window := Function.update a.window chainID (if full then window.tail else window)
    windowSum := Function.update a.windowSum chainID
      (if full then windowSum - window.headD 0 else windowSum)
    rates :=
      Function.update a.rates chainID
        (Double.ofInt (if full then windowSum - window.headD 0 else windowSum) / Double.ofInt n) }

/-- `predict`. -/
def predict (chainID : ℕ) (sideData : F) : F :=
  let W := a.weight (chainID % a.nTemps)
  let eps : F := 1e-3
  let denom := Double.max eps (W 0)
  let numer := -(a.optimalRate - W 1 * sideData - W 2)
  let numer := Double.max (Double.min numer (denom * a.maxCap)) (denom * a.minCap)
  numer / denom

/-- `betaUpdate`. -/
def betaUpdate (chainID : ℕ) (bl bh : F) (acc : Bool) : RegressionAdapter F :=
  a.update chainID (Double.log bl - Double.log bh) (Double.log bl) acc

/-- `computeBetaStack`, of the coldest chain of a stack. -/
def computeBetaStack (chainID : ℕ) : RegressionAdapter F :=
  ((List.range' 1 (a.nTemps - 1)).foldl
    (fun (p : RegressionAdapter F × F) i =>
      let logbeta := p.2 - p.1.predict (i - 1) p.2
      ({ p.1 with values := Function.update p.1.values (chainID + i) (Double.exp logbeta) }, logbeta))
    (a, 0.0)).1

/-- `computeSigma`, which also saves the value. -/
def computeSigma (chainID : ℕ) (t : F) : RegressionAdapter F × F :=
  let sigma := Double.exp (a.predict chainID t)
  ({ a with values := Function.update a.values chainID sigma }, sigma)

@[simp] theorem computeSigma_values (chainID : ℕ) (t : F) :
    (a.computeSigma chainID t).1.values =
      Function.update a.values chainID (a.computeSigma chainID t).2 := rfl

/-- The logs of the temperature ladder that the model predicts. -/
def logBetas : ℕ → F
  | 0 => 0.0
  | n + 1 => logBetas n - a.predict n (logBetas n)

/-- `computeBetaStack` after `n` rounds of its loop. -/
theorem computeBetaStack_loop (chainID n : ℕ) :
    (List.range' 1 n).foldl
      (fun (p : RegressionAdapter F × F) i =>
        let logbeta := p.2 - p.1.predict (i - 1) p.2
        ({ p.1 with values := Function.update p.1.values (chainID + i) (Double.exp logbeta) },
          logbeta)) (a, 0.0) =
      ({ a with values := fun j =>
          if chainID < j ∧ j ≤ chainID + n then Double.exp (a.logBetas (j - chainID)) else a.values j },
        a.logBetas n) := by
  induction n with
  | zero =>
    have hno : ∀ j, ¬ (chainID < j ∧ j ≤ chainID + 0) := by
      intro j
      omega
    simp only [List.range'_zero, List.foldl_nil, hno, if_false]
    rfl
  | succ n ih =>
    rw [List.range'_concat, List.foldl_append, ih]
    refine Prod.ext ?_ ?_
    · simp only [List.foldl_cons, List.foldl_nil, one_mul, Nat.add_sub_cancel_left]
      congr 1
      funext j
      rcases eq_or_ne j (chainID + (1 + n)) with rfl | hne
      · rw [Function.update_self, if_pos (by omega), Nat.add_sub_cancel_left, Nat.add_comm 1 n]
        rfl
      · rw [Function.update_of_ne hne]
        have hiff : (chainID < j ∧ j ≤ chainID + (n + 1)) ↔ (chainID < j ∧ j ≤ chainID + n) := by omega
        simp only [hiff]
    · simp only [List.foldl_cons, List.foldl_nil, one_mul, Nat.add_sub_cancel_left]
      rfl

/-- **`computeBetaStack`** sets the values of the chains above the coldest one of the stack. -/
theorem computeBetaStack_eq (chainID : ℕ) : a.computeBetaStack chainID =
    { a with values := fun j =>
        if chainID < j ∧ j < chainID + a.nTemps then Double.exp (a.logBetas (j - chainID))
          else a.values j } := by
  unfold computeBetaStack
  rw [computeBetaStack_loop]
  simp only
  congr 1
  funext j
  have hiff : (chainID < j ∧ j ≤ chainID + (a.nTemps - 1)) ↔
      (chainID < j ∧ j < chainID + a.nTemps) := by omega
  simp only [hiff]

@[simp] theorem betaUpdate_nTemps (chainID : ℕ) (bl bh : F) (acc : Bool) :
    (a.betaUpdate chainID bl bh acc).nTemps = a.nTemps := rfl

/-- Only the values above the coldest chain change. -/
theorem computeBetaStack_values {chainID j : ℕ} (hj : ¬ (chainID < j ∧ j < chainID + a.nTemps)) :
    (a.computeBetaStack chainID).values j = a.values j := by
  rw [computeBetaStack_eq]
  exact if_neg hj

theorem computeBetaStack_nTemps (chainID : ℕ) : (a.computeBetaStack chainID).nTemps = a.nTemps := by
  rw [computeBetaStack_eq]

end RegressionAdapter

end Stateline
