import Stateline.Comms.Socket

/-!
# Framing

`Framed`: a message comes back from its frames, directly, through a ROUTER, and a
reply through the ROUTER finds its way. `send` counts the data of a message in 32
bits, so that it takes some data for none (`Dropped`).

* `framing_iff`: **a message comes back exactly when its data is not dropped, and so
  do frames that were read.**
* `data_lost`: a message that does not come back.
-/

namespace Stateline

namespace Socket

/-- The number of data frames, in 32 bits, is zero, and there are some. -/
def Dropped (data : List Str) : Prop := data ≠ [] ∧ data.length % 2 ^ 32 = 0

instance (data : List Str) : Decidable (Dropped data) := inferInstanceAs (Decidable (_ ∧ _))

/-- The message comes back: directly; through a ROUTER, with the sender on its address; and a
reply to that address arrives at the sender, with the address of the message. -/
def Framed (m : Message) : Prop :=
  receive (send m.raw) = .ok m.raw ∧
  (∀ p : Str, p ≠ [] →
    receive (routerReceive p (send m.raw)) = .ok { m.raw with address := m.address ++ [p] } ∧
    ∀ reply : Message, reply.address = m.address ++ [p] →
      ∃ frames r, routerSend (send reply.raw) = some (p, frames) ∧ receive frames = .ok r ∧
        r.address = m.address)

/-- The frame of the subject: the one behind the delimiter. -/
def subjectFrame (frames : List Str) : Option Str := (frames.dropWhile (· ≠ [])).tail.head?

/-- The subject is written as `send` writes it. -/
def Canonical (frames : List Str) : Prop := ∃ v : ℤ, subjectFrame frames = some (toStrInt v)

/-! ## Sending -/

/-- What is sent of the data. -/
def kept (data : List Str) : List Str := if data.length % 2 ^ 32 = 0 then [] else data

/-- The frames of a message. -/
theorem send_eq (m : RawMessage) :
    send m = m.address.reverse ++ [] :: toStrInt m.subject :: kept m.data := by
  unfold send kept
  dsimp only
  split
  · rename_i hpos
    rw [if_neg (Nat.ne_of_gt hpos)]
  · rename_i hzero
    rw [if_pos (by omega)]

theorem kept_of_dropped {data : List Str} (h : Dropped data) : kept data = [] := if_pos h.2

/-- All of the data is sent, unless it is dropped. -/
theorem kept_eq_iff {data : List Str} : kept data = data ↔ ¬ Dropped data := by
  unfold kept Dropped
  by_cases hz : data.length % 2 ^ 32 = 0
  · rw [if_pos hz]
    simp only [hz, and_true, not_not]
    exact eq_comm
  · rw [if_neg hz]
    exact ⟨fun _ h => hz h.2, fun _ => rfl⟩

theorem code_in_range (s : Subject) : -2 ^ 31 ≤ (s.code : ℤ) ∧ (s.code : ℤ) < 2 ^ 31 := by
  have := s.code_lt
  unfold Subject.size at this
  omega

/-- **What arrives of a message** under any address of parts that are not empty. -/
theorem receive_send {m : RawMessage} (ha : ∀ a ∈ m.address, a ≠ [])
    (hs : -2 ^ 31 ≤ m.subject ∧ m.subject < 2 ^ 31) :
    receive (send m) = .ok { m with data := kept m.data } := by
  have hstoi : stoi (toStrInt m.subject) = some m.subject := by rw [stoi_toStrInt, if_pos hs]
  rw [send_eq, receive_append (fun a h => ha a (List.mem_reverse.1 h)) hstoi, List.reverse_reverse]

/-- Prepending an identity to the frames is appending it to the address. -/
theorem cons_send (p : Str) (m : RawMessage) : p ::
    send m = send { m with address := m.address ++ [p] } := by
  rw [send_eq, send_eq, List.reverse_append]
  rfl

/-! ## Round trips -/

/-- **A message comes back** exactly when its data is not dropped. -/
theorem framed_iff {m : Message} (ha : ∀ a ∈ m.address, a ≠ []) : Framed m ↔ ¬ Dropped m.data := by
  have hsame : ∀ address, (Except.ok { m.raw with address, data := kept m.data } :
      Except Fault RawMessage) =
      .ok { m.raw with address } ↔ ¬ Dropped m.data := by
    intro address
    rw [← kept_eq_iff]
    simp [Message.raw]
  -- directly, it comes back exactly when its data is not dropped
  have hback : receive (send m.raw) = .ok m.raw ↔ ¬ Dropped m.data := by
    rw [receive_send ha (code_in_range _)]
    exact hsame m.address
  refine ⟨fun h => hback.1 h.1, fun h => ⟨hback.2 h, ?_⟩⟩
  intro p hp
  have happend : ∀ a ∈ m.address ++ [p], a ≠ [] := by
    intro a hmem
    rcases List.mem_append.1 hmem with hmem | hmem
    · exact ha a hmem
    · rw [List.mem_singleton] at hmem
      exact hmem ▸ hp
  constructor
  · unfold routerReceive
    rw [cons_send, receive_send happend (code_in_range _)]
    exact (hsame _).2 h
  · intro reply hreply
    -- the first frame is the identity, the others are those of the message to the rest of the address
    have hsend : send reply.raw = p :: send { reply.raw with address := m.address } := by
      rw [cons_send, ← hreply]
      rfl
    refine ⟨_, _, by rw [hsend]; rfl,
      receive_send (m := { reply.raw with address := m.address }) ha (code_in_range _), rfl⟩

/-- The frame behind the delimiter. -/
theorem subjectFrame_append {address : List Str} (ha : ∀ a ∈ address, a ≠ [])
    (subjectString : Str) (data : List Str) :
    subjectFrame (address ++ [] :: subjectString :: data) = some subjectString := by
  unfold subjectFrame
  rw [List.dropWhile_append_of_pos (by simpa using ha)]
  rfl

/-- **Frames that were read are sent again** exactly when their data is not dropped. -/
theorem send_receive_iff {frames : List Str} {m : RawMessage} (h : receive frames = .ok m)
    (hc : Canonical frames) :
    send m = frames ↔ ¬ Dropped m.data := by
  obtain ⟨subjectString, rfl, ha, hs⟩ := receive_eq_ok h
  obtain ⟨v, hv⟩ := hc
  rw [subjectFrame_append (fun a hmem => ha a (List.mem_reverse.1 hmem)), Option.some.injEq] at hv
  subst hv
  -- a canonical frame is read as the number it was written for
  have hsub : v = m.subject := by
    rw [stoi_toStrInt] at hs
    split at hs
    · exact Option.some.inj hs
    · cases hs
  rw [send_eq, ← kept_eq_iff, hsub, List.append_cancel_left_eq]
  simp

/-- **Framing round-trips exactly when no data is dropped**: for messages, and for frames that
were read. -/
theorem framing_iff {m : Message} (ha : ∀ a ∈ m.address, a ≠ []) :
    (Framed m ↔ ¬ Dropped m.data) ∧
      ∀ frames r, receive frames = .ok r → Canonical frames → (send r = frames ↔ ¬ Dropped r.data) :=
  ⟨framed_iff ha, fun _ _ h hc => send_receive_iff h hc⟩

/-- A JOB with an address of two parts. -/
def jobMessage : Message := ⟨[['r'], ['w']], .job, [['0'], [], ['x']]⟩

theorem framing_iff_job : Framed jobMessage ∧ send ⟨[['w']], 3, [[]]⟩ = [['w'], [], ['3'], []] :=
  have h := framing_iff (show ∀ a ∈ jobMessage.address, a ≠ [] by decide)
  ⟨h.1.2 (by decide), (h.2 [['w'], [], ['3'], []] ⟨[['w']], 3, [[]]⟩ (by decide) ⟨3, by decide⟩).2
    (by decide)⟩

/-- A JOB of `2 ^ 32` empty strings. -/
def bigMessage : Message := ⟨[], .job, List.replicate (2 ^ 32) []⟩

/-- **A message that loses its data.** -/
theorem data_lost : receive (send bigMessage.raw) = .ok ⟨[], 3, []⟩ ∧ bigMessage.data.length = 2 ^ 32 ∧
    receive (send bigMessage.raw) ≠ .ok bigMessage.raw ∧ ¬ Framed bigMessage := by
  have hlen : bigMessage.data.length = 2 ^ 32 := List.length_replicate
  have hdata : bigMessage.data ≠ [] := by
    intro h
    rw [h] at hlen
    cases hlen
  have hdrop : Dropped bigMessage.data := ⟨hdata, by rw [hlen, Nat.mod_self]⟩
  have hrecv : receive (send bigMessage.raw) = .ok ⟨[], 3, []⟩ := by
    rw [receive_send (by intro a h; cases h) (code_in_range _)]
    show Except.ok (⟨[], 3, kept bigMessage.data⟩ : RawMessage) = _
    rw [kept_of_dropped hdrop]
  have hne : receive (send bigMessage.raw) ≠ .ok bigMessage.raw := by
    rw [hrecv]
    intro h
    injection h with h
    exact hdata (congrArg RawMessage.data h).symm
  exact ⟨hrecv, hlen, hne, fun h => hne h.1⟩

end Socket

end Stateline
