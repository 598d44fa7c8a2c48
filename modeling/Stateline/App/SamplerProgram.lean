import Stateline.App.RunSampler
import Stateline.Infer.Logging

/-!
# The program of the sampler

`runSampler` of `app/serverwrapper.cpp` from its first request to the end of `flush`, cut at the
calls of `retrieve`, where it waits for others. The samples that are drawn first, the answers and
the end of the main loop (`running` is cleared by other threads) are its inputs.
-/

namespace Stateline

/-- The settings that `runSampler` reads, its proposal and the time of its start. -/
structure Setup (P F : Type) extends StatelineSettings F where
  nsamples : ℕ
  proposal : P
  now : ℤ

/-- Where `runSampler` is. -/
inductive SamplerProgram (P V F : Type)
  /-- The initial samples so far, with their energies. -/
  | starting (samples : List (V × F))
  /-- The next initial sample is with the workers. -/
  | evaluating (samples : List (V × F)) (sample : V)
  /-- The main loop. -/
  | sampling (sampler : Sampler P V F) (nsamples : ℕ)
  /-- The loop of `flush`. -/
  | flushing (sampler : Sampler P V F) (nsamples : ℕ)
  | finished (sampler : Sampler P V F) (nsamples : ℕ)

namespace SamplerProgram

inductive Act (V F : Type)
  /-- `generateInitialSample` submits a sample. -/
  | generate (sample : V)
  /-- A result is retrieved. -/
  | retrieve (i : Input F)
  /-- The chains are initialised and the sampler is constructed. -/
  | start
  /-- The main loop ends. -/
  | stop
  /-- The loop of `flush` ends. -/
  | finish

variable {P V F : Type} [Double F] [Inhabited V] [Sub V] [Proposal P V F] (c : Setup P F)

/-- The requests that are submitted and not retrieved. -/
def outstanding : SamplerProgram P V F → List (SampleRequest V)
  | .starting _ => []
  | .evaluating _ sample => [⟨0, List.range c.nJobTypes, sample⟩]
  | .sampling s _ | .flushing s _ | .finished s _ => s.requester

/-- The requests that are left when a result is retrieved. What is submitted comes after them. -/
def left (p : SamplerProgram P V F) : Act V F → List (SampleRequest V)
  | .retrieve i => (outstanding c p).eraseIdx i.index
  | _ => outstanding c p

/-- One step. There is no next state when a call fails, or the program does not act in this way. -/
def step : SamplerProgram P V F → Act V F → Option (SamplerProgram P V F)
  | .starting samples, .generate sample =>
    if samples.length < c.numChains then some (.evaluating samples sample) else none
  | .evaluating samples sample, .retrieve i =>
    if i.index = 0 then some (.starting (samples ++ [(sample, Sampler.energyOf i.results)])) else none
  | .starting samples, .start =>
    if samples.length = c.numChains then
      match RunSampler.runSampler c.toStatelineSettings c.proposal
        (fun j => samples.getD j (default, 0.0)) c.now with
      | .ok s => some (.sampling s 0)
      | .error _ => none
    else none
  | .sampling s nsamples, .retrieve i =>
    if nsamples < c.nsamples then
      match s.step i with
      | .ok (s, id, _) =>
        some (.sampling s (if id % c.ntemps = 0 then (nsamples + 1) % 2 ^ 32 else nsamples))
      | .error _ => none
    else none
  | .sampling s nsamples, .stop => some (.flushing { s with haveFlushed := true } nsamples)
  | .flushing s nsamples, .retrieve i =>
    -- the condition of the loop decrements the counter
    if s.numOutstandingJobs ≠ 0 then
      match { s with numOutstandingJobs := predUint s.numOutstandingJobs }.collect i with
      | .ok s => some (.flushing s nsamples)
      | .error _ => none
    else none
  | .flushing s nsamples, .finish =>
    if s.numOutstandingJobs = 0 then
      some (.finished { s with
        numOutstandingJobs := predUint s.numOutstandingJobs, chains := s.chains.flushAll } nsamples)
    else none
  | _, _ => none

end SamplerProgram

/-- `runSampler` with its `TableLogger`, which is told of every state that `step` returns, and the
resources of the API that it sets after each. The number of workers, which another thread changes, is
not among them. -/
structure LoggedProgram (P F : Type) (d : ℕ) where
  program : SamplerProgram P (Fin d → F) F
  /-- The logger, which is made before the main loop. -/
  logger : Option (TableLogger F d)
  api : Option (ApiResources F)

namespace LoggedProgram

variable {P F : Type} {d : ℕ}

def init : LoggedProgram P F d := ⟨.starting [], none, none⟩

variable [CMath F] [Inhabited F] [Proposal P (Fin d → F) F] (c : Setup P F) (infinity : F)

/-- A step of the program, and what its logger makes of it. -/
def step (m : LoggedProgram P F d) (a : SamplerProgram.Act (Fin d → F) F) :
    Option (LoggedProgram P F d) := do
  let program ← SamplerProgram.step c m.program a
  match m.program, a, m.logger with
  | .starting _, .start, _ =>
    return { m with program, logger := some (.init infinity c.nstacks c.ntemps) }
  | .sampling s _, .retrieve i, some logger =>
    match s.step i with
    | .ok (s, id, state) =>
      let logger := logger.update id state
      return ⟨program, some logger, some (logger.updateApi s.chains)⟩
    | .error _ => none
  | _, _, _ => return { m with program }

end LoggedProgram

end Stateline
