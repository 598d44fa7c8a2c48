import Stateline.Common.Str
import Stateline.Infer.Sampler

/-!
# Results as they are received

A RESULT carries strings, which `Requester::retrieve` converts with `std::stod`; this is a
parameter here, `none` where it throws. A call that throws leaves the state that it had reached.
-/

namespace Stateline

/-- How a call ends: it returns, an exception leaves it in a state, or it does neither. -/
inductive Outcome (σ α : Type)
  | returned (s : σ) (a : α)
  | threw (s : σ)
  | stuck (f : Fault)

/-- A RESULT, by the position of the request that it answers, with the draws of the step. -/
structure Received (F : Type) where
  index : ℕ
  data : List Str
  acceptRand : F
  swapRand : F
  now : ℤ

/-- The message once its data is converted. -/
def Received.input {F : Type} (m : Received F) (results : List F) : Input F :=
  ⟨m.index, results, m.acceptRand, m.swapRand, m.now⟩

namespace Sampler

variable {P V F : Type} [Double F] [Sub V] [Proposal P V F] (stod : Str → Option F)
    (s : Sampler P V F)

/-- `step`, on a message. The message is taken from the socket before its data is converted. -/
def stepReceived (m : Received F) : Outcome (Sampler P V F) (ℕ × State V F) :=
  if m.index < s.requester.length then
    match m.data.mapM stod with
    | none => .threw { s with requester := s.requester.eraseIdx m.index }
    | some results =>
      match s.step (m.input results) with
      | .ok (s, out) => .returned s out
      | .error f => .stuck f
  else .stuck .blocked

/-- What the main loop of `runSampler` makes of a step: an exception is caught, and `flush` ends the
run with the results that arrive. -/
def caught (is : List (Input F)) : Outcome (Sampler P V F) (ℕ × State V F) →
    Except Fault (Sampler P V F)
  | .returned s _ => .ok s
  | .threw s => s.flush is
  | .stuck f => .error f

end Sampler

end Stateline
