import Stateline.App.RunSampler
import Stateline.Comms.Delegator
import Stateline.Comms.Wire

/-!
# The server

`app/serverwrapper.cpp`: the delegator that `ServerWrapper` constructs, with the
default settings of `comms/settings.hpp`, and the requests that `runSampler` makes of
it, for the initial samples and for the proposals of the sampler.
-/

namespace Stateline

structure HeartbeatSettings where
  msRate : ℕ
  msPollRate : ℤ
  msTimeout : ℕ

/-- `DelegatorDefault`. -/
def HeartbeatSettings.delegatorDefault : HeartbeatSettings := ⟨1000, 500, 5000⟩

structure DelegatorSettings where
  msPollRate : ℤ
  port : ℕ
  heartbeat : HeartbeatSettings
  nJobTypes : ℕ

/-- `Default`. -/
def DelegatorSettings.default (port : ℕ) : DelegatorSettings := ⟨10, port, .delegatorDefault, 1⟩

/-- The constructor. -/
def Delegator.ofSettings (settings : DelegatorSettings) (workerCount : ℕ) : Delegator :=
  .init settings.nJobTypes workerCount

namespace ServerWrapper

variable {F : Type}

/-- `delegator_`, as the constructor initialises it. The settings of the server are not passed on. -/
def delegator (port : ℕ) (_s : StatelineSettings F) (workerCount : ℕ) : Delegator :=
  .ofSettings (.default port) workerCount

/-- The job types of every request, from 0 on. -/
def jobTypes (s : StatelineSettings F) : List ℕ := List.range s.nJobTypes

/-- A request of `runSampler`, with the identity of its requester as the delegator reads it. -/
def IsRequest (s : StatelineSettings F) (m : Message) : Prop :=
  ∃ id data requester sent, Requester.submit id (jobTypes s) data = .ok sent ∧
    m = { sent with address := sent.address ++ [requester] }

end ServerWrapper

end Stateline
