import Stateline.Comms.Socket

/-!
# The router of a thread

`comms/router.cpp`: a table of callbacks, one for each socket and subject, and the
callback that `poll` picks for a message that was read. A callback is the call of
`bind` that made it.

In each round of `poll` at most one message is read on each socket, in the order of the sockets,
and then `onPoll_` is called. What arrives while a round is on its way is not seen before the
next one. A callback that throws ends the loop.
-/

namespace Stateline

/-- A call of `bind`. -/
structure Bind (Callback : Type) where
  socketIndex : ℕ
  subject : Subject
  f : Callback
  deriving DecidableEq, Repr

structure SocketRouter (Callback : Type) where
  callbacks : List (Option (Bind Callback))

namespace SocketRouter

variable {Callback : Type}

/-- `index`, in `uint` arithmetic. -/
def index (socketIndex : ℕ) (s : ℤ) : ℕ := (Subject.size * socketIndex + toUint s) % 2 ^ 32

/-- The constructor, for a number of sockets. -/
def ofSockets (sockets : ℕ) : SocketRouter Callback := ⟨List.replicate (Subject.size * sockets) none⟩

/-- `bind`. Writing past the end of the table is undefined. -/
def bind (r : SocketRouter Callback) (b : Bind Callback) : Except Fault (SocketRouter Callback) :=
  let i := index b.socketIndex b.subject.code
  if i < r.callbacks.length then .ok ⟨r.callbacks.set i (some b)⟩ else .error .undefined

/-- The router of a thread: the sockets, and the calls of `bind` in their order. -/
def ofBinds (sockets : ℕ) (binds : List (Bind Callback)) : Except Fault (SocketRouter Callback) :=
  binds.foldlM bind (ofSockets sockets)

/-- The message that `poll` reads on a socket, and the callback it calls with it. Reading past the
end of the table is undefined; a function that is empty throws when it is called. -/
def dispatch (r : SocketRouter Callback) (i : ℕ) (frames : List Str) :
    Except Fault (Bind Callback × RawMessage) := do
  let msg ← Socket.receive frames
  match r.callbacks[index i msg.subject]? with
  | some (some b) => return (b, msg)
  | some none => .error .exception
  | none => .error .undefined

end SocketRouter

/-! ## The loop -/

/-- A thread in `poll`. -/
structure Poller (σ : Type) where
  /-- The messages that wait at each socket, oldest first. -/
  inbox : ℕ → List (List Str)
  /-- What the callbacks change. -/
  state : σ

namespace Poller

variable {Callback σ : Type} (r : SocketRouter Callback)
    (call : ℕ → Callback → RawMessage → σ → Except Fault σ) (onPoll : σ → Except Fault σ)

/-- The body of the loop over the sockets. -/
def visit (p : Poller σ) (i : ℕ) : Except Fault (Poller σ) :=
  match p.inbox i with
  | [] => .ok p
  | frames :: rest => do
    let (b, msg) ← r.dispatch i frames
    let state ← call i b.f msg p.state
    return ⟨Function.update p.inbox i rest, state⟩

/-- What has arrived before a round. -/
def arrive (inbox arrived : ℕ → List (List Str)) : ℕ → List (List Str) := fun i => inbox i ++ arrived i

/-- One round, after the messages `arrived`. -/
def round (sockets : ℕ) (arrived : ℕ → List (List Str)) (p : Poller σ) : Except Fault (Poller σ) := do
  let p ← (List.range sockets).foldlM (visit r call) { p with inbox := arrive p.inbox arrived }
  return { p with state := ← onPoll p.state }

end Poller

end Stateline
