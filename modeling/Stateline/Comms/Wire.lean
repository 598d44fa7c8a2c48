import Stateline.Common.Decimal
import Stateline.Comms.Message

/-!
# Samples and energies on the wire

`comms/requester.cpp` and `comms/minion.cpp`: what the two ends of a request make
of samples and results. The frames in between are passed on as they are.
-/

namespace Stateline

/-- A conversion of the standard library, which throws where it cannot read. -/
def orThrow {α : Type} : Option α → Except Fault α
  | some a => .ok a
  | none => .error .exception

/-- `joinStr` with a colon, undefined on an empty container. -/
def joinColon (container : List Str) : Except Fault Str :=
  match joinStr container [':'] with
  | some s => .ok s
  | none => .error .undefined

/-- `std::stoul`: blanks, a sign, digits, anything. `none` where it throws, with no digit to read or
a value outside `unsigned long`. -/
def stoul (str : Str) : Option ℕ :=
  let s := takeSign (str.dropWhile isSpace)
  let digits := s.2.takeWhile Char.isDigit
  let v := Nat.ofDigitChars 10 digits 0
  if digits ≠ [] ∧ v < 2 ^ 64 then some (if s.1 then (2 ^ 64 - v) % 2 ^ 64 else v) else none

namespace Requester

/-- `submit`. -/
def submit (id : ℕ) (jobTypes : List ℕ) (data : List FiniteDouble) : Except Fault Message := do
  let jtstring ← joinColon (jobTypes.map toStr)
  let dataVectorStr := data.map fun x => toDecimal x.val
  return ⟨[toStr id], .request, [jtstring, ← joinColon dataVectorStr]⟩

/-- `retrieve`, of a message that was received. -/
def retrieve (r : Message) : Except Fault (ℕ × List ℚ) := do
  let id ← orThrow (stoul (← nth r.address 0))
  let results ← r.data.mapM fun x => orThrow (stod x)
  return (id % 2 ^ 32, results)

end Requester

namespace Minion

/-- `nextJob`, of a message that was received: the current job, and what is returned. -/
def nextJob (r : Message) : Except Fault (Str × ℕ × List ℚ) := do
  let currentJob ← nth r.data 1
  let sampleVectorStr := segments (← nth r.data 2) ':'
  let sample ← sampleVectorStr.mapM fun x => orThrow (stod x)
  let jobType ← orThrow (stoi (← nth r.data 0))
  return (currentJob, toUint jobType, sample)

/-- `submitResult`. -/
def submitResult (currentJob : Str) (result : FiniteDouble) : Message :=
  ⟨[], .result, [currentJob, toDecimal result.val]⟩

end Minion

end Stateline
