import Stateline.Comms.Message

/-!
# Sockets

`comms/socket.cpp`: how a message is written as the frames of one multipart
message, and read back. The transport is lossless: the frames sent are the frames
read, except that a ROUTER puts the identity of the sender in front of what it
reads, and takes the first frame of what it sends as the destination.
-/

namespace Stateline

namespace Subject

/-- The code of a subject. -/
def code : Subject → ℕ
  | .hello => 0
  | .heartbeat => 1
  | .request => 2
  | .job => 3
  | .result => 4
  | .goodbye => 5

/-- `Subject::Size`. -/
def size : ℕ := 6

theorem code_lt (s : Subject) : s.code < size := by cases s <;> decide

end Subject

/-- A message as it is read: the subject is any `int`, cast to the enumeration unchecked. -/
structure RawMessage where
  address : Address
  subject : ℤ
  data : List Str
  deriving DecidableEq, Repr

/-- A message with one of the subjects. -/
def Message.raw (m : Message) : RawMessage := ⟨m.address, m.subject.code, m.data⟩

namespace Socket

/-- `send`: the frames it writes. The address is a stack, and `dataSize` is a `uint`. -/
def send (m : RawMessage) : List Str :=
  let subjectString := toStrInt m.subject
  let dataSize := m.data.length % 2 ^ 32
  m.address.reverse ++ [] :: if 0 < dataSize then subjectString :: m.data else [subjectString]

/-- The loop of `receive` up to the delimiter: the frames before it, and what is left. With no
frame left it waits. -/
def readAddress : List Str → Except Fault (List Str × List Str)
  | [] => .error .blocked
  | frame :: frames =>
    if frame = [] then .ok ([], frames)
    else do
      let (address, frames) ← readAddress frames
      return (frame :: address, frames)

/-- `receive`, of the frames of one multipart message. -/
def receive (frames : List Str) : Except Fault RawMessage := do
  let (address, frames) ← readAddress frames
  match frames with
  | [] => .error .blocked
  | subjectString :: data =>
    match stoi subjectString with
    | some subject => return ⟨address.reverse, subject, data⟩
    | none => .error .exception

/-- What a ROUTER reads of the frames sent by the peer `p`. -/
def routerReceive (p : Str) (frames : List Str) : List Str := p :: frames

/-- Where a ROUTER sends frames to, and what arrives there. -/
def routerSend : List Str → Option (Str × List Str)
  | [] => none
  | p :: frames => some (p, frames)

/-! ## Reading -/

/-- An address is read up to the delimiter. -/
theorem readAddress_append {address : List Str} (ha : ∀ a ∈ address, a ≠ []) (frames : List Str) :
    readAddress (address ++ [] :: frames) = .ok (address, frames) := by
  induction address with
  | nil => rfl
  | cons a address ih =>
    have hne : a ≠ [] := ha a List.mem_cons_self
    rw [List.cons_append, readAddress, if_neg hne, ih fun b hb => ha b (List.mem_cons_of_mem _ hb)]
    rfl

/-- What was read, put together again. -/
theorem readAddress_eq_ok {frames address rest : List Str}
    (h : readAddress frames = .ok (address, rest)) :
    frames = address ++ [] :: rest ∧ ∀ a ∈ address, a ≠ [] := by
  induction frames generalizing address with
  | nil => cases h
  | cons frame frames ih =>
    rw [readAddress] at h
    split at h
    · rename_i hdelim
      obtain ⟨rfl, rfl⟩ := ok_pair_inj h
      exact ⟨by rw [hdelim]; rfl, fun a ha => (List.not_mem_nil ha).elim⟩
    · rename_i hne
      obtain ⟨⟨address', rest'⟩, h', h⟩ := bind_eq_ok h
      obtain ⟨rfl, rfl⟩ := ok_pair_inj h
      obtain ⟨rfl, ha⟩ := ih h'
      refine ⟨rfl, ?_⟩
      intro a hmem
      rcases List.mem_cons.1 hmem with rfl | hmem
      · exact hne
      · exact ha a hmem

/-- **`receive`** of an address, a delimiter, a subject and data. -/
theorem receive_append {address : List Str} (ha : ∀ a ∈ address, a ≠ []) {subjectString : Str}
    {subject : ℤ} (hs : stoi subjectString = some subject) (data : List Str) :
    receive (address ++ [] :: subjectString :: data) = .ok ⟨address.reverse, subject, data⟩ := by
  unfold receive
  rw [readAddress_append ha, ok_bind]
  simp only [hs]
  rfl

/-- What `receive` accepts. -/
theorem receive_eq_ok {frames : List Str} {m : RawMessage} (h : receive frames = .ok m) :
    ∃ subjectString, frames = m.address.reverse ++ [] :: subjectString :: m.data ∧
      (∀ a ∈ m.address, a ≠ []) ∧ stoi subjectString = some m.subject := by
  unfold receive at h
  obtain ⟨⟨address, rest⟩, hr, hm⟩ := bind_eq_ok h
  obtain ⟨rfl, ha⟩ := readAddress_eq_ok hr
  dsimp only at hm
  split at hm
  · cases hm
  · rename_i subjectString data
    split at hm
    · rename_i subject hs
      injection hm with hm
      subst hm
      refine ⟨subjectString, by rw [List.reverse_reverse], ?_, hs⟩
      intro a hmem
      exact ha a (List.mem_reverse.1 hmem)
    · cases hm

end Socket

end Stateline
