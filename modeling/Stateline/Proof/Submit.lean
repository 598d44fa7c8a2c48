import Stateline.Comms.Wire
import Stateline.Proof.Requests

/-!
# From `submit` to `receiveRequest`

A requester joins the job types of a request with colons, and the delegator splits them
again: into a set of strings, in lexicographic order, and from there into a set of numbers.

* `Requester.submit_returns_iff`: when a request is sent; `Requester.submit_eq_ok`: what it holds.
* `Delegator.receiveRequest_sorted`: what the delegator makes of increasing job types.
* `wire_inverse`: **joining and splitting are inverse**, and the job types of a request arrive.
-/

namespace Stateline

open Std Lib

/-! ## Sending -/

/-- Only an empty container cannot be joined. -/
theorem joinColon_returns_iff {vs : List Str} : (∃ s, joinColon vs = .ok s) ↔ vs ≠ [] := by
  constructor
  · rintro ⟨s, h⟩ rfl
    cases h
  · intro hne
    unfold joinColon
    rw [joinStr_eq hne]
    exact ⟨_, rfl⟩

/-- What was joined is split again. -/
theorem joinColon_eq_ok {vs : List Str} {s : Str} (hvs : ∀ v ∈ vs, v ≠ [] ∧ ':' ∉ v)
    (h : joinColon vs = .ok s) :
    vs ≠ [] ∧ segments s ':' = vs := by
  have hne : vs ≠ [] := joinColon_returns_iff.1 ⟨s, h⟩
  obtain ⟨s', hs', hsplit⟩ := segments_joinStr hne hvs
  unfold joinColon at h
  rw [hs'] at h
  injection h with h
  exact ⟨hne, h ▸ hsplit⟩

/-- Decimals of job types can be joined. -/
theorem fields_toStr (ts : List ℕ) : ∀ v ∈ ts.map toStr, v ≠ [] ∧ ':' ∉ v := by
  intro v hv
  obtain ⟨t, -, rfl⟩ := List.mem_map.1 hv
  exact ⟨toStr_ne_nil t, colon_not_mem_toStr t⟩

/-- Decimals of samples can be joined. -/
theorem fields_toDecimal (x : List FiniteDouble) :
    ∀ v ∈ x.map fun q => toDecimal q.val, v ≠ [] ∧ ':' ∉ v := by
  intro v hv
  obtain ⟨q, -, rfl⟩ := List.mem_map.1 hv
  exact ⟨toDecimal_ne_nil q.val, colon_not_mem_toDecimal q.val⟩

namespace Requester

variable {id : ℕ} {jobTypes : List ℕ} {data : List FiniteDouble} {m : Message}

/-- **What `submit` sends.** -/
theorem submit_eq_ok (h : submit id jobTypes data = .ok m) : jobTypes ≠ [] ∧ data ≠ [] ∧
    ∃ jtstring joined, m = ⟨[toStr id], .request, [jtstring, joined]⟩ ∧
      segments jtstring ':' = jobTypes.map toStr ∧
      segments joined ':' = data.map fun x => toDecimal x.val := by
  obtain ⟨jtstring, hjt, h⟩ := bind_eq_ok h
  obtain ⟨joined, hjoin, h⟩ := bind_eq_ok h
  cases h
  obtain ⟨htypes, hjt⟩ := joinColon_eq_ok (fields_toStr jobTypes) hjt
  obtain ⟨hdata, hjoin⟩ := joinColon_eq_ok (fields_toDecimal data) hjoin
  rw [Ne, List.map_eq_nil_iff] at htypes hdata
  exact ⟨htypes, hdata, jtstring, joined, rfl, hjt, hjoin⟩

/-- `submit` is undefined without job types or without a sample. -/
theorem submit_returns_iff : (∃ m, submit id jobTypes data = .ok m) ↔ jobTypes ≠ [] ∧ data ≠ [] := by
  constructor
  · rintro ⟨m, h⟩
    obtain ⟨htypes, hdata, -⟩ := submit_eq_ok h
    exact ⟨htypes, hdata⟩
  · rintro ⟨htypes, hdata⟩
    obtain ⟨jtstring, hjt⟩ := joinColon_returns_iff.2
      (mt List.map_eq_nil_iff.1 htypes : jobTypes.map toStr ≠ [])
    obtain ⟨joined, hjoin⟩ := joinColon_returns_iff.2
      (mt List.map_eq_nil_iff.1 hdata : data.map (fun x => toDecimal x.val) ≠ [])
    refine ⟨⟨[toStr id], .request, [jtstring, joined]⟩, ?_⟩
    unfold submit
    rw [hjt, ok_bind]
    dsimp only
    rw [hjoin]
    rfl

end Requester

/-! ## Receiving -/

namespace Delegator

/-- Increasing job types are read as they were written. -/
theorem typesOf_sorted_eq {m : Message} {ts : List ℕ} (hsorted : ts.Pairwise (· < ·))
    (hts : ∀ t ∈ ts, t < 2 ^ 31) (hseg : segments (m.data.headD []) ':' = ts.map toStr) :
    typesOf m = ts :=
  (typesOf_sorted m).eq_of_mem_iff hsorted fun _ => mem_typesOf_iff hts hseg

/-- The jobs of a request carry its id, its types in order, and their places. -/
theorem foldl_pushJob_indexed (id : Str) (ts : List ℕ) (d : Delegator) :
    ∃ js n, (ts.foldl (pushJob id) (d, 0)).1 = { d with jobQueue := d.jobQueue ++ js, nextJobId := n } ∧
      js.map (fun j => (j.type, j.requesterIndex)) = ts.zipIdx ∧ ∀ j ∈ js, j.requesterID = id := by
  cases ts with
  | nil =>
    refine ⟨[], d.nextJobId, ?_, rfl, List.forall_mem_nil _⟩
    rw [List.append_nil]
    rfl
  | cons t ts =>
    have hnext : (pushJob id (d, 0) t).1.nextJobId = (d.nextJobId + (pushJob id (d, 0) t).2) % 2 ^ 32 :=
      rfl
    refine ⟨⟨t, toStr d.nextJobId, id, 0, 0⟩ :: newJobs id d.nextJobId 1 ts,
      (d.nextJobId + 1 + ts.length) % 2 ^ 32, ?_, ?_, ?_⟩
    · rw [List.foldl_cons, foldl_pushJob_eq id ts _ hnext]
      simp only [pushJob, List.append_assoc, List.singleton_append]
    · rw [List.map_cons, List.zipIdx_cons, newJobs, List.map_map]
      exact congrArg _ (List.map_id _)
    · rw [List.forall_mem_cons, newJobs, List.forall_mem_map]
      exact ⟨rfl, fun _ _ => rfl⟩

/-- **`receiveRequest`** of increasing job types: the request has a place for each of them, and the
job in the `k`th place is of the `k`th type. -/
theorem receiveRequest_sorted (d : Delegator) {m : Message} {ts : List ℕ} (haddr : m.address ≠ [])
    (hdata : 2 ≤ m.data.length) (hsorted : ts.Pairwise (· < ·)) (hts : ∀ t ∈ ts, t < 2 ^ 31)
    (hseg : segments (m.data.headD []) ':' = ts.map toStr) :
    ∃ d' r js, d.receiveRequest m = .ok d' ∧ d'.requests = d.requests.insertIfNew (key m) r ∧
      r.jobTypes.toList = ts ∧ r.results = List.replicate r.jobTypes.size [] ∧
      d'.jobQueue = d.jobQueue ++ js ∧ js.map (fun j => (j.type, j.requesterIndex)) = ts.zipIdx ∧
      ∀ j ∈ js, j.requesterID = key m := by
  have htypes := typesOf_sorted_eq hsorted hts hseg
  obtain ⟨js, n, hfold, hjs, hid⟩ := foldl_pushJob_indexed (key m) (typesOf m)
    { d with requests := d.requests.insertIfNew (key m) (requestOf m) }
  refine ⟨_, requestOf m, js, receiveRequest_run haddr hdata hts hseg, ?_, htypes, ?_, ?_, ?_, hid⟩
  · rw [hfold]
  · unfold requestOf typesOf
    rw [ExtTreeSet.length_toList]
  · rw [hfold]
  · rw [hjs, htypes]

end Delegator

/-! ## The wire format -/

/-- **Joining and splitting are inverse**: for segments that are not empty and hold no colon, and for
strings that are not empty and do not end with one. So the delegator reads the job types of every
request that was submitted as they were, with one place for each result, and gives the `k`th place to
the job of the `k`th type. -/
theorem wire_inverse :
    (∀ vs : List Str, vs ≠ [] → (∀ v ∈ vs, v ≠ [] ∧ ':' ∉ v) →
      ∃ s, joinStr vs [':'] = some s ∧ segments s ':' = vs ∧
        ∀ v, v ∈ splitStr (fun out s => out.insert s) (∅ : ExtTreeSet Str) s ':' ↔ v ∈ vs) ∧
    (∀ s : Str, s ≠ [] → s.getLast? ≠ some ':' → joinStr (segments s ':') [':'] = some s) ∧
    ∀ ts : List ℕ, ts.Pairwise (· < ·) → (∀ t ∈ ts, t < 2 ^ 31) →
      ∀ (id : ℕ) (data : List FiniteDouble),
        ((∃ sent, Requester.submit id ts data = .ok sent) ↔ ts ≠ [] ∧ data ≠ []) ∧
        ∀ sent, Requester.submit id ts data = .ok sent → ∀ (d : Delegator) (address : Address),
          let m : Message := { sent with address := sent.address ++ address }
          ∃ d' r js, d.receiveRequest m = .ok d' ∧
            d'.requests = d.requests.insertIfNew (Delegator.key m) r ∧
            r.jobTypes.toList = ts ∧ r.results = List.replicate r.jobTypes.size [] ∧
            d'.jobQueue = d.jobQueue ++ js ∧
            js.map (fun j => (j.type, j.requesterIndex)) = ts.zipIdx ∧
            ∀ j ∈ js, j.requesterID = Delegator.key m := by
  refine ⟨?_, ?_, ?_⟩
  · intro vs hne hvs
    obtain ⟨s, hs, hsplit⟩ := segments_joinStr hne hvs
    refine ⟨s, hs, hsplit, ?_⟩
    intro v
    rw [splitStr_eq, hsplit, mem_foldl_insert]
    simp only [ExtTreeSet.not_mem_empty, false_or]
  · intro s hne hlast
    exact joinStr_segments_iff.2 ⟨hne, hlast⟩
  · intro ts hsorted hts id data
    refine ⟨Requester.submit_returns_iff, ?_⟩
    intro sent hsent d address m
    obtain ⟨-, -, jtstring, joined, rfl, hseg, -⟩ := Requester.submit_eq_ok hsent
    exact d.receiveRequest_sorted (List.cons_ne_nil _ _) (le_rfl : 2 ≤ 2) hsorted hts hseg

/-- The job types 2 and 10, which are in the other order as strings. -/
theorem wire_inverse_two :
    (∃ s, joinStr [['2'], ['1', '0']] [':'] = some s ∧ segments s ':' = [['2'], ['1', '0']]) ∧
    joinStr (segments [':', 'a'] ':') [':'] = some [':', 'a'] ∧
    ∃ sent d' js, ∃ r : Delegator.Request, Requester.submit 7 [2, 10] [⟨0, 0, by norm_num⟩] = .ok sent ∧
      (Delegator.init 1 0).receiveRequest { sent with address := sent.address ++ [['s']] } = .ok d' ∧
      r.jobTypes.toList = [2, 10] ∧ r.results = List.replicate r.jobTypes.size [] ∧
      d'.jobQueue = js ∧ js.map (fun j => (j.type, j.requesterIndex)) = [(2, 0), (10, 1)] := by
  obtain ⟨hsplit, hjoin, hsent⟩ := wire_inverse
  obtain ⟨hreturns, hread⟩ := hsent [2, 10] (by decide) (by decide) 7 [⟨0, 0, by norm_num⟩]
  obtain ⟨sent, hs⟩ := hreturns.2 ⟨List.cons_ne_nil _ _, List.cons_ne_nil _ _⟩
  obtain ⟨d', r, js, hd, -, htypes, hresults, hqueue, hjs, -⟩ := hread sent hs (.init 1 0) [['s']]
  obtain ⟨s, hs', hseg, -⟩ := hsplit [['2'], ['1', '0']] (List.cons_ne_nil _ _) (by decide)
  exact ⟨⟨s, hs', hseg⟩, hjoin [':', 'a'] (List.cons_ne_nil _ _) (by decide), sent, d', js, r, hs, hd,
    htypes, hresults, hqueue, hjs⟩

end Stateline
