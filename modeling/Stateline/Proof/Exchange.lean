import Stateline.App.Service
import Stateline.Proof.RoundTrip
import Stateline.Proof.Watched

/-!
# What the sampler and a worker exchange

A request of the sampler on its way to the workers and back, frame by frame.

* `submit_eq_message`: what is submitted. `asked`: what the delegator reads of it.
* `honestReply_asked`: what honest workers make of it.
* `retrieve_reply`: **what comes back are the likelihoods of the sample**, but for the digits
  that the decimals on the way do not have.
* `key_asked_inj`: the delegator keeps the requests of different chains apart, and apart from those
  of other requesters.
-/

namespace Stateline

open Std Lib Delegator

/-- What the service relies on: the decimals of a double are read back, all calls are defined, and
the identities are those that the sockets make up. -/
structure Deployment.OK {P F : Type} (c : Deployment P F) (d : ℕ) : Prop where
  legible : ∀ x, c.to_string x ≠ [] ∧ ':' ∉ c.to_string x ∧ (c.stod (c.to_string x)).isSome
  dims : 0 < d
  types : 0 < c.nJobTypes ∧ c.nJobTypes ≤ 2 ^ 31
  interval : c.swapInterval ≠ 0
  chains : c.nstacks * c.ntemps < 2 ^ 32
  me : c.me ≠ [] ∧ ':' ∉ c.me
  hello : ∀ x, HelloOK ⟨[x], .hello, [c.range x]⟩

namespace Service

variable {P F : Type} {d : ℕ} (c : Deployment P F)

/-- A double, once it was written and read. -/
def wire (x : F) : F := (c.stod (c.to_string x)).getD x

/-- The likelihoods of a sample that was written and read, written and read. -/
def likelihoods (data : Fin d → F) : List F :=
  (List.range c.nJobTypes).map fun t => wire c (c.lhFn t ((List.ofFn data).map (wire c)))

/-- The message that submits a request. -/
def message (r : SampleRequest (Fin d → F)) : Message :=
  ⟨[toStr r.id], .request, [(joinStr (r.jobTypes.map toStr) [':']).getD [],
    (joinStr ((List.ofFn r.data).map c.to_string) [':']).getD []]⟩

/-- A request, as the delegator reads it. -/
def asked (r : SampleRequest (Fin d → F)) : Message := { message c r with address := [toStr r.id, c.me] }

/-- The message that is retrieved for a request. -/
def reply (r : SampleRequest (Fin d → F)) : Message :=
  ⟨[toStr r.id], .result, (List.range c.nJobTypes).map fun t =>
    c.to_string (c.lhFn t ((List.ofFn r.data).map (wire c)))⟩

/-- What the minions of the workers answer. -/
abbrev likelihood (t : ℕ) (data : Str) : Str := Relay.answer c.stod c.to_string c.lhFn t data

variable {c} {r r' : SampleRequest (Fin d → F)}

/-- Strings that can be joined are joined. -/
theorem joinColon_getD {vs : List Str} (h : vs ≠ []) :
    joinColon vs = .ok ((joinStr vs [':']).getD []) := by
  unfold joinColon
  rw [joinStr_eq h]
  rfl

theorem segments_getD {vs : List Str} (hne : vs ≠ []) (hvs : ∀ v ∈ vs, v ≠ [] ∧ ':' ∉ v) :
    segments ((joinStr vs [':']).getD []) ':' = vs := by
  obtain ⟨s, hs, hsplit⟩ := segments_joinStr hne hvs
  rw [hs, Option.getD_some, hsplit]

/-- The decimals of a sample. -/
theorem decimals_ne_nil (hc : c.OK d) (data : Fin d → F) : (List.ofFn data).map c.to_string ≠ [] := by
  rw [Ne, List.map_eq_nil_iff, List.ofFn_eq_nil_iff]
  exact Nat.ne_of_gt hc.dims

/-- **What `submit` sends.** -/
theorem submit_eq_message (hc : c.OK d) (hr : r.jobTypes ≠ []) : submit c r = .ok (message c r) := by
  have htypes : r.jobTypes.map toStr ≠ [] := mt List.map_eq_nil_iff.1 hr
  unfold submit
  rw [joinColon_getD htypes, ok_bind]
  dsimp only
  rw [joinColon_getD (decimals_ne_nil hc r.data)]
  rfl

/-! ## At the delegator -/

/-- An address that has no empty parts and no colons. -/
def Plain (address : Address) : Prop := address ≠ [] ∧ ∀ a ∈ address, a ≠ [] ∧ ':' ∉ a

theorem plain_asked (hc : c.OK d) (r : SampleRequest (Fin d → F)) : Plain (asked c r).address := by
  refine ⟨List.cons_ne_nil _ _, ?_⟩
  rw [asked, List.forall_mem_cons, List.forall_mem_singleton]
  exact ⟨⟨toStr_ne_nil r.id, colon_not_mem_toStr r.id⟩, hc.me⟩

/-- A key holds the address. -/
theorem segments_key {m : Message} (h : Plain m.address) : segments (key m) ':' = m.address :=
  segments_getD h.1 h.2

/-- **Requests of different chains** are kept under different keys. -/
theorem key_asked_inj (hc : c.OK d) (h : key (asked c r) = key (asked c r')) : r.id = r'.id := by
  have haddr : (asked c r).address = (asked c r').address := by
    rw [← segments_key (plain_asked hc r), h, segments_key (plain_asked hc r')]
  exact toStr_inj.1 (List.cons.inj haddr).1

/-- **The job types arrive.** -/
theorem typesOf_asked (hc : c.OK d) (hr : r.jobTypes = List.range c.nJobTypes) :
    typesOf (asked c r) = List.range c.nJobTypes := by
  have hne : (List.range c.nJobTypes).map toStr ≠ [] := by
    rw [Ne, List.map_eq_nil_iff, List.range_eq_nil]
    exact Nat.ne_of_gt hc.types.1
  refine typesOf_sorted_eq List.pairwise_lt_range ?_ ?_
  · intro t ht
    exact (List.mem_range.1 ht).trans_le hc.types.2
  · show segments ((joinStr (r.jobTypes.map toStr) [':']).getD []) ':' = _
    rw [hr]
    exact segments_getD hne (fields_toStr _)

/-- A request of the sampler is a request that the delegator accepts, under a new key. -/
theorem requestOK_asked (hc : c.OK d) (hr : r.jobTypes = List.range c.nJobTypes) {del : Delegator}
    (hnew : key (asked c r) ∉ del.requests) : RequestOK del (asked c r) := by
  have hne : List.range c.nJobTypes ≠ [] := by
    rw [Ne, List.range_eq_nil]
    exact Nat.ne_of_gt hc.types.1
  refine ⟨hnew, List.cons_ne_nil _ _, le_rfl, List.range c.nJobTypes, hne, ?_, ?_⟩
  · intro t ht
    exact (List.mem_range.1 ht).trans_le hc.types.2
  · show segments ((joinStr (r.jobTypes.map toStr) [':']).getD []) ':' = _
    rw [hr]
    exact segments_getD (mt List.map_eq_nil_iff.1 hne) (fields_toStr _)

/-! ## At a worker -/

/-- The decimals of doubles are read back. -/
theorem mapM_legible (hc : c.OK d) (xs : List F) :
    (xs.map c.to_string).mapM (fun x => orThrow (c.stod x)) =
      (.ok (xs.map (wire c)) : Except Fault (List F)) := by
  induction xs with
  | nil => rfl
  | cons x xs ih =>
    obtain ⟨y, hy⟩ := Option.isSome_iff_exists.1 (hc.legible x).2.2
    have hwire : wire c x = y := by rw [wire, hy, Option.getD_some]
    rw [List.map_cons, List.mapM_cons, hy, ih, List.map_cons, hwire]
    rfl

/-- The decimals of the sample arrive. -/
theorem segments_asked (hc : c.OK d) (r : SampleRequest (Fin d → F)) :
    segments (dataOf (asked c r)) ':' = (List.ofFn r.data).map c.to_string := by
  refine segments_getD (decimals_ne_nil hc r.data) ?_
  intro v hv
  obtain ⟨x, -, rfl⟩ := List.mem_map.1 hv
  exact ⟨(hc.legible x).1, (hc.legible x).2.1⟩

/-- **The sample arrives**, and its likelihood is answered. -/
theorem likelihood_asked (hc : c.OK d) {t : ℕ} (ht : t < c.nJobTypes) :
    likelihood c t (dataOf (asked c r)) =
      c.to_string (c.lhFn t ((List.ofFn r.data).map (wire c))) := by
  have ht' : t < 2 ^ 31 := ht.trans_le hc.types.2
  have hnext : Relay.nextJob c.stod ⟨[], .job, [toStr t, [], dataOf (asked c r)]⟩ =
      .ok ([], t, (List.ofFn r.data).map (wire c)) := by
    simp only [Relay.nextJob, nth, List.getElem?_cons_succ, List.getElem?_cons_zero, ok_bind]
    rw [segments_asked hc, mapM_legible hc, ok_bind, stoi_toStr ht']
    simp only [orThrow, ok_bind, toUint_natCast (show t < 2 ^ 32 by omega)]
    rfl
  rw [likelihood, Relay.answer, hnext]

/-- **What honest workers reply.** -/
theorem honestReply_asked (hc : c.OK d) (hr : r.jobTypes = List.range c.nJobTypes) :
    honestReply (likelihood c) (asked c r) = { reply c r with address := [toStr r.id, c.me] } := by
  unfold honestReply replyOf reply
  rw [typesOf_asked hc hr]
  congr 1
  refine List.map_congr_left ?_
  intro t ht
  exact likelihood_asked hc (List.mem_range.1 ht)

/-! ## Back at the sampler -/

/-- **What `retrieve` returns**: the chain and the likelihoods of its sample. -/
theorem retrieve_reply (hc : c.OK d) (hid : r.id < c.numChains) :
    retrieve c (reply c r) = .ok (r.id, likelihoods c r.data) := by
  have hid' : r.id < 2 ^ 32 := hid.trans (Nat.mod_lt _ (by norm_num))
  have hdata : (reply c r).data =
      ((List.range c.nJobTypes).map fun t => c.lhFn t ((List.ofFn r.data).map (wire c))).map
        c.to_string := by
    rw [List.map_map]
    rfl
  unfold retrieve
  rw [hdata, mapM_legible hc, List.map_map]
  show (do
    let id ← orThrow (stoul (toStr r.id))
    let results ← Except.ok _
    return (id % 2 ^ 32, results)) = _
  rw [stoul_toStr hid', orThrow, ok_bind, ok_bind, Nat.mod_eq_of_lt hid']
  rfl

end Service

end Stateline
