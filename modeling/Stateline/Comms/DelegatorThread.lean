import Stateline.Comms.Delegator
import Stateline.Comms.Router

/-!
# The thread of the delegator

The callbacks that the constructor of the delegator binds, and the loop that `start` runs. A message
whose subject is none of the enumeration is left out.
-/

namespace Stateline

/-- The subject of a code. -/
def Subject.ofCode (code : ℤ) : Option Subject :=
  [hello, heartbeat, request, job, result, goodbye].find? fun s => (s.code : ℤ) = code

/-- The message that is read. -/
def RawMessage.message (m : RawMessage) : Option Message :=
  (Subject.ofCode m.subject).map fun s => ⟨m.address, s, m.data⟩

namespace SocketRouter

/-- The callbacks of the delegator. -/
inductive DelegatorCallback
  | rcvRequest | newWorker | rcvResult | forwardToHB | forwardToHBAndDisconnect | forwardToNetwork
  | disconnect
  deriving DecidableEq, Repr

/-- The calls of `bind` in the constructor of the delegator. The sockets are those of the requesters,
the heartbeat thread and the network. -/
def delegatorBinds : List (Bind DelegatorCallback) :=
  [⟨0, .request, .rcvRequest⟩, ⟨2, .hello, .newWorker⟩, ⟨2, .result, .rcvResult⟩,
    ⟨2, .heartbeat, .forwardToHB⟩, ⟨2, .goodbye, .forwardToHBAndDisconnect⟩,
    ⟨1, .heartbeat, .forwardToNetwork⟩, ⟨1, .goodbye, .disconnect⟩]

end SocketRouter

namespace Delegator

open SocketRouter (DelegatorCallback delegatorBinds)

/-- `REQUESTER_SOCKET`, `HB_SOCKET` and `NETWORK_SOCKET`. -/
def sockOf : ℕ → Sock
  | 0 => .requester
  | 1 => .heartbeat
  | _ => .network

/-- What a round of the loop gets from outside. -/
structure Turn where
  arrived : ℕ → List (List Str)
  /-- The time at which the message of a socket is handled. -/
  now : ℕ → ℤ
  /-- Whether a HEARTBEAT cannot be sent to its worker. -/
  fails : Bool
  clock : Str → ℤ
  /-- Whether a job cannot be sent. -/
  pollFails : Str → Bool

/-- A callback, and what it sends. -/
def callback (t : Turn) (i : ℕ) (f : DelegatorCallback) (m : Message) (d : Delegator) :
    Except Fault (Delegator × List Send) :=
  match f with
  | .rcvRequest => do return (← d.receiveRequest m, [])
  | .newWorker => d.newWorker m (t.now i)
  | .rcvResult => d.receiveResult m (t.now i)
  | .forwardToHB => .ok (d, [⟨.heartbeat, m⟩])
  -- the two lambdas that it calls are locals of the constructor, captured by reference
  | .forwardToHBAndDisconnect => .error .undefined
  | .forwardToNetwork => if t.fails then do return (← d.sendFailed m, []) else .ok (d, [⟨.network, m⟩])
  | .disconnect => do return (← d.disconnectWorker m, [])

/-- The call of a callback, on the delegator and all that it has sent. -/
def call (t : Turn) (i : ℕ) (f : DelegatorCallback) (msg : RawMessage) (s : Delegator × List Send) :
    Except Fault (Delegator × List Send) :=
  match msg.message with
  | none => .error .undefined
  | some m => do
    let (d, out) ← callback t i f m s.1
    return (d, s.2 ++ out)

/-- A round of the loop. -/
def loopRound (r : SocketRouter DelegatorCallback) (p : Poller (Delegator × List Send)) (t : Turn) :
    Except Fault (Poller (Delegator × List Send)) :=
  p.round r (call t) (fun s => do
    let (d, out) ← s.1.onPoll t.clock t.pollFails
    return (d, s.2 ++ out)) 3 t.arrived

/-- `start`: the rounds of the loop while `running` is set. -/
def start (p : Poller (Delegator × List Send)) (turns : List Turn) :
    Except Fault (Poller (Delegator × List Send)) := do
  let r ← SocketRouter.ofBinds 3 delegatorBinds
  turns.foldlM (loopRound r) p

end Delegator

end Stateline
