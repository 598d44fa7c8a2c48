import Stateline.Comms.Message
import Stateline.Infer.Double
import Stateline.Lib.Lines

/-!
# Chains

`infer/chainarray.cpp`, the writer of `db/db.cpp` and the reader of `bin/vis.py`. A
vector with one entry for each chain is a function; an index that is not below the
number of chains is undefined behaviour. A file is the list of the states passed to
its writer. Lengths are `uint`s, clocks are in nanoseconds, `V` is the type of a
sample.
-/

namespace Stateline

inductive SwapType
  | noAttempt | accept | reject
  deriving DecidableEq, Repr

structure State (V F : Type) where
  sample : V
  energy : F
  /-- The step size of the chain when this state was recorded. -/
  sigma : F
  /-- The inverse temperature of the chain when this state was recorded. -/
  beta : F
  accepted : Bool
  swapType : SwapType
  deriving DecidableEq

variable {V F : Type}

/-- `acceptProposal`, with the draw `rand` from [0, 1). -/
def acceptProposal [Double F] (newState oldState : State V F) (beta rand : F) : Bool :=
  if Double.isInf newState.energy then false
  else
    let deltaEnergy := newState.energy - oldState.energy
    Double.lt rand (Double.exp (-(1.0 : F) * beta * deltaEnergy))

/-- `acceptSwap`, with the draw `rand` from [0, 1). -/
def acceptSwap [Double F] (stateLow stateHigh : State V F) (betaLow betaHigh rand : F) : Bool :=
  let deltaEnergy := stateHigh.energy - stateLow.energy
  let deltaBeta := betaHigh - betaLow
  Double.lt rand (Double.exp (deltaEnergy * deltaBeta))

/-- The state that `append` records: the proposal, or the last state again. -/
def recorded (newState last : State V F) (accepted : Bool) : State V F :=
  { (if accepted then newState else last) with accepted, swapType := .noAttempt }

structure ChainArray (V F : Type) where
  /-- The files of the writer. -/
  chainFiles : ℕ → List (State V F)
  nstacks : ℕ
  ntemps : ℕ
  lengthOnDisk : ℕ → ℕ
  beta : ℕ → F
  sigma : ℕ → F
  cache : ℕ → List (State V F)
  lastFlushTime : ℤ

namespace ChainArray

/-- The constructor. -/
def init [Double F] (nStacks nTemps : ℕ) (now : ℤ) : ChainArray V F :=
  ⟨fun _ => [], nStacks, nTemps, fun _ => 0, fun _ => 0.0, fun _ => 0.0, fun _ => [], now⟩

variable (c : ChainArray V F) (id : ℕ)

def numStacks : ℕ := c.nstacks

def numTemps : ℕ := c.ntemps

/-- `numTotalChains`, a `uint`, and so the size of each vector with an entry for a chain. -/
def numTotalChains : ℕ := (c.numTemps * c.numStacks) % 2 ^ 32

@[simp] theorem numTemps_eq : c.numTemps = c.ntemps := rfl

theorem numTotalChains_eq : c.numTotalChains = (c.ntemps * c.nstacks) % 2 ^ 32 := rfl

theorem numTotalChains_of_lt {c : ChainArray V F} (h : c.ntemps * c.nstacks < 2 ^ 32) :
    c.numTotalChains = c.ntemps * c.nstacks := Nat.mod_eq_of_lt h

def stackIndex : ℕ := id / c.numTemps

def chainIndex : ℕ := id % c.numTemps

def isHottestInStack : Bool := c.chainIndex id = c.numTemps - 1

def isColdestInStack : Bool := c.chainIndex id = 0

/-- An index of a chain. -/
def check : Except Fault Unit := if id < c.numTotalChains then .ok () else .error .undefined

/-- `length`. -/
def length : ℕ := (c.lengthOnDisk id + (c.cache id).length) % 2 ^ 32

/-- `lastState`. -/
def lastState : Except Fault (State V F) := do
  c.check id
  back (c.cache id)

/-- `setSigma`. -/
def setSigma (sigma : F) : Except Fault (ChainArray V F) := do
  c.check id
  return { c with sigma := Function.update c.sigma id sigma }

/-- `setBeta`. -/
def setBeta (beta : F) : Except Fault (ChainArray V F) := do
  c.check id
  return { c with beta := Function.update c.beta id beta }

/-- The array after a chain was flushed: all its states but one are out of the cache. -/
def flushed : ChainArray V F :=
  let cacheLength := (c.cache id).length % 2 ^ 32
  if cacheLength = 0 then c
  else
    let newLength := (c.lengthOnDisk id + cacheLength + 2 ^ 32 - 1) % 2 ^ 32
    { c with
      -- cold chains only
      chainFiles :=
        if c.chainIndex id = 0 then
          Function.update c.chainFiles (id / c.numTemps)
            (c.chainFiles (id / c.numTemps) ++ (c.cache id).dropLast)
        else c.chainFiles
      lengthOnDisk := Function.update c.lengthOnDisk id newLength
      -- all but the last element is cleared
      cache := Function.update c.cache id (c.cache id).getLast?.toList }

/-- `flushToDisk`. -/
def flushToDisk : Except Fault (ChainArray V F) := do
  c.check id
  return c.flushed id

/-- The loop over all chains. -/
def flushAll : ChainArray V F := (List.range c.numTotalChains).foldl flushed c

/-- `~ChainArray`. -/
def destroy : ChainArray V F := c.flushAll

/-- The flush of all chains every ten seconds. -/
def timedFlush (now : ℤ) : ChainArray V F :=
  let secs := toUint ((now - c.lastFlushTime).tdiv 1000000000)
  if 10 ≤ secs then { c with lastFlushTime := now }.flushAll else c

/-- `append`, with the draw of `acceptProposal` and the time read after it. -/
def append [Double F] (sample : V) (energy rand : F) (now : ℤ) :
    Except Fault (ChainArray V F × Bool) := do
  c.check id
  let newState : State V F := ⟨sample, energy, c.sigma id, c.beta id, false, .noAttempt⟩
  let last ← c.lastState id
  let accepted := acceptProposal newState last (c.beta id) rand
  let state := recorded newState last accepted
  return ({ c with cache := Function.update c.cache id (c.cache id ++ [state]) }.timedFlush now,
    accepted)

/-- `initialise`. -/
def initialise (sample : V) (energy sigma beta : F) : Except Fault (ChainArray V F) := do
  let c ← c.setSigma id sigma
  let c ← c.setBeta id beta
  return { c with
    cache := Function.update c.cache id (c.cache id ++
      [⟨sample, energy, c.sigma id, c.beta id, true, .noAttempt⟩]) }

theorem initialise_eq (sample : V) (energy sigma beta : F) :
    c.initialise id sample energy sigma beta = do
      c.check id
      return { c with
        sigma := Function.update c.sigma id sigma
        beta := Function.update c.beta id beta
        cache := Function.update c.cache id
          (c.cache id ++ [⟨sample, energy, sigma, beta, true, .noAttempt⟩]) } := by
  by_cases h : id < c.numTotalChains
  · have h₁ : c.check id = .ok () := if_pos h
    have h₂ : ({ c with sigma := Function.update c.sigma id sigma } : ChainArray V F).check id =
        .ok () := if_pos h
    simp only [initialise, setSigma, setBeta, h₁, h₂, ok_bind, pure, Except.pure, Function.update_self]
  · have h₁ : c.check id = .error .undefined := if_neg h
    simp only [initialise, setSigma, h₁, error_bind]

/-- A proposal is judged against the last state, which `append` reads first. -/
theorem append_eq [Double F] (sample : V) (energy rand : F) (now : ℤ) :
    c.append id sample energy rand now = do
      let last ← c.lastState id
      let newState : State V F := ⟨sample, energy, c.sigma id, c.beta id, false, .noAttempt⟩
      let accepted := acceptProposal newState last (c.beta id) rand
      let state := recorded newState last accepted
      return ({ c with
        cache := Function.update c.cache id (c.cache id ++ [state]) }.timedFlush now, accepted) := by
  unfold append lastState
  cases c.check id with
  | error e => rfl
  | ok u => rfl

/-- Replacing `cache_[id].back()`. -/
def setBack (state : State V F) : ChainArray V F :=
  { c with cache := Function.update c.cache id ((c.cache id).dropLast ++ [state]) }

/-- `swap`, with the draw of `acceptSwap`. -/
def swap [Double F] (id1 id2 : ℕ) (rand : F) : Except Fault (ChainArray V F × SwapType) := do
  let hId := max id1 id2
  let lId := min id1 id2
  let stateh ← c.lastState hId
  let statel ← c.lastState lId
  let swapped := acceptSwap stateh statel (c.beta hId) (c.beta lId) rand
  if swapped then
    let stateh' :=
      { stateh with sample := statel.sample, energy := statel.energy, accepted := statel.accepted }
    let statel' : State V F :=
      { statel with
        sample := stateh.sample, energy := stateh.energy, accepted := stateh.accepted,
        swapType := .accept }
    return ((c.setBack hId stateh').setBack lId statel', .accept)
  else return (c.setBack lId { statel with swapType := .reject }, .reject)

/-- A call of a member function, with the draws and the time it reads. -/
inductive Op (V F : Type)
  | initialise (id : ℕ) (sample : V) (energy sigma beta : F)
  | append (id : ℕ) (sample : V) (energy rand : F) (now : ℤ)
  | setSigma (id : ℕ) (sigma : F)
  | setBeta (id : ℕ) (beta : F)
  | swap (id1 id2 : ℕ) (rand : F)
  | flushToDisk (id : ℕ)

/-- The array after a call. -/
def apply [Double F] (c : ChainArray V F) : Op V F → Except Fault (ChainArray V F)
  | .initialise id sample energy sigma beta => c.initialise id sample energy sigma beta
  | .append id sample energy rand now => do return (← c.append id sample energy rand now).1
  | .setSigma id sigma => c.setSigma id sigma
  | .setBeta id beta => c.setBeta id beta
  | .swap id1 id2 rand => do return (← c.swap id1 id2 rand).1
  | .flushToDisk id => c.flushToDisk id

end ChainArray

/-! ## The text of the files

`fmt` is what a stream makes of a `double`: six significant digits. Texts have no quotes, so a field is
what is between two commas. -/

/-- `(int)s.swapType`. -/
def SwapType.code : SwapType → ℕ
  | .noAttempt => 0
  | .accept => 1
  | .reject => 2

namespace Csv

variable {F : Type} {d : ℕ} (fmt : F → Str)

/-- `operator<<`. -/
def row (s : State (Fin d → F) F) : Str :=
  ((List.ofFn s.sample).flatMap fun x => fmt x ++ [',']) ++
    (fmt s.energy ++ ',' :: (fmt s.sigma ++ ',' :: (fmt s.beta ++ ',' ::
      (toStr s.accepted.toNat ++ ',' :: toStr s.swapType.code))))

/-- `CSVChainArrayWriter::append`, to the text of a file. -/
def append (file : Str) (states : List (State (Fin d → F) F)) : Str :=
  states.foldl (fun file s => file ++ row fmt s ++ ['\n']) file

/-- The text of the file of a stack. -/
def text (c : ChainArray (Fin d → F) F) (k : ℕ) : Str := append fmt [] (c.chainFiles k)

/-- `csv.reader`: the fields of each line. -/
def reader (text : Str) : List (List Str) :=
  (Lib.lines '\n' text).map fun line => if line = [] then [] else line.splitOn ','

/-- `samples` of `vis.py`: all fields but the last five. -/
def samples (text : Str) : List (List Str) := (reader text).map fun row => row.take (row.length - 5)

/-- `ndims` of `vis.py`, which fails on a file with no row. -/
def ndims (text : Str) : Option ℕ := (samples text).head?.map List.length

end Csv

end Stateline
