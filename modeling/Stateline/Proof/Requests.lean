import Stateline.Proof.Handlers

/-!
# What `receiveRequest` and `receiveResult` do

* `receiveRequest_spec`: a request under a new key becomes pending, with one job
  for each of its types, in numeric order, under fresh ids.
* `receiveResult_spec`: a result for a job in progress ends that job and fills
  its place; the last one is followed by the reply and the end of the request.
-/

namespace Stateline

open Std Lib

namespace Delegator

/-- The key of a request in `requests_`: its joined address. -/
def key (m : Message) : Str := (joinStr m.address [':']).getD []

/-- The job types a request names. -/
def typeSet (m : Message) : ExtTreeSet ℕ :=
  (segments (m.data.headD []) ':').foldl (fun s x => s.insert (toUint ((stoi x).getD 0))) ∅

/-- The job types of a request, in numeric order. -/
def typesOf (m : Message) : List ℕ := (typeSet m).toList

/-- The data frame of a request. -/
def dataOf (m : Message) : Str := m.data.getD 1 []

/-- A request that has an address, under a key that is not pending, naming at least one
job type by decimals below `2 ^ 31`. -/
def RequestOK (d : Delegator) (m : Message) : Prop :=
  key m ∉ d.requests ∧ m.address ≠ [] ∧ 2 ≤ m.data.length ∧
    ∃ ts : List ℕ, ts ≠ [] ∧ (∀ t ∈ ts, t < 2 ^ 31) ∧ segments (m.data.headD []) ':' = ts.map toStr

/-- The pending request that a REQUEST message leaves. -/
def requestOf (m : Message) : Request :=
  ⟨m.address, typeSet m, dataOf m, List.replicate (typesOf m).length [], 0⟩

/-- The tickets of its jobs, with ids from `n` on. -/
def newTickets (n : ℕ) (m : Message) : List Ticket :=
  (typesOf m).zipIdx.map fun p => ⟨p.1, toStr (n + p.2), key m, p.2⟩

/-! ## The job types -/

theorem typeSet_eq {m : Message} {ts : List ℕ} (hts : ∀ t ∈ ts, t < 2 ^ 31)
    (hseg : segments (m.data.headD []) ':' = ts.map toStr) :
    typeSet m = ts.foldl (fun s t => s.insert t) ∅ := by
  have h : ∀ (ts : List ℕ) (s : ExtTreeSet ℕ), (∀ t ∈ ts, t < 2 ^ 31) →
      (ts.map toStr).foldl (fun s x => s.insert (toUint ((stoi x).getD 0))) s =
        ts.foldl (fun s t => s.insert t) s := by
    intro ts
    induction ts with
    | nil => intro s _; rfl
    | cons t ts ih =>
      intro s hts
      have ht : t < 2 ^ 31 := hts t List.mem_cons_self
      simp only [List.map_cons, List.foldl_cons, stoi_toStr ht, Option.getD_some,
        toUint_natCast (show t < 2 ^ 32 by omega)]
      exact ih _ fun x hx => hts x (List.mem_cons_of_mem _ hx)
  unfold typeSet; rw [hseg]; exact h ts ∅ hts

theorem mem_typesOf_iff {m : Message} {ts : List ℕ} (hts : ∀ t ∈ ts, t < 2 ^ 31)
    (hseg : segments (m.data.headD []) ':' = ts.map toStr) {t : ℕ} : t ∈ typesOf m ↔ t ∈ ts := by
  unfold typesOf
  rw [ExtTreeSet.mem_toList, typeSet_eq hts hseg, mem_foldl_insert]
  simp only [ExtTreeSet.not_mem_empty, false_or]

theorem mem_typesOf {d : Delegator} {m : Message} (hm : RequestOK d m) {t : ℕ} :
    t ∈ typesOf m ↔ toStr t ∈ segments (m.data.headD []) ':' := by
  obtain ⟨-, -, -, ts, -, hts, hseg⟩ := hm
  rw [mem_typesOf_iff hts hseg, hseg, List.mem_map]
  simp only [toStr_inj, exists_eq_right]

theorem typesOf_ne_nil {d : Delegator} {m : Message} (hm : RequestOK d m) : typesOf m ≠ [] := by
  obtain ⟨-, -, -, ts, hne, -, hseg⟩ := id hm
  obtain ⟨t, ts, rfl⟩ := List.exists_cons_of_ne_nil hne
  exact List.ne_nil_of_mem ((mem_typesOf hm (t := t)).2 (by rw [hseg]; simp))

/-- The types of a request are strictly increasing. -/
theorem typesOf_sorted (m : Message) : (typesOf m).Pairwise (· < ·) :=
  (ExtTreeSet.ordered_toList (t := typeSet m)).imp fun h => Nat.compare_eq_lt.1 h

/-- Reading back, one by one, what was written. -/
theorem foldlM_map_toStr {f : ExtTreeSet ℕ → Str → Except Fault (ExtTreeSet ℕ)} (us : List ℕ)
    (hf : ∀ u ∈ us, ∀ s, f s (toStr u) = .ok (s.insert u)) (s : ExtTreeSet ℕ) :
    (us.map toStr).foldlM f s = Except.ok (us.foldl (fun s t => s.insert t) s) := by
  induction us generalizing s with
  | nil => rfl
  | cons u us ih =>
    rw [List.map_cons, List.foldlM_cons, hf u List.mem_cons_self]
    exact ih (fun x hx => hf x (List.mem_cons_of_mem _ hx)) _

/-- Reading the types twice, as strings and as numbers, meets no error and counts the same:
distinct numbers have distinct decimals. -/
theorem jobTypes_spec {m : Message} {ts : List ℕ} (hts : ∀ t ∈ ts, t < 2 ^ 31)
    (hseg : segments (m.data.headD []) ':' = ts.map toStr) :
    let jobTypes : ExtTreeSet Str := splitStr (fun out s => out.insert s) ∅ (m.data.headD []) ':'
    jobTypesInt jobTypes = .ok (typeSet m) ∧ jobTypes.size = (typesOf m).length := by
  intro jobTypes
  have hmem : ∀ s, s ∈ jobTypes.toList ↔ s ∈ ts.map toStr := by
    intro s
    rw [ExtTreeSet.mem_toList, show jobTypes = _ from splitStr_eq _ _ _ _, hseg, mem_foldl_insert]
    simp only [ExtTreeSet.not_mem_empty, false_or]
  -- the set of strings is the set of numbers, written out
  obtain ⟨us, hus⟩ : jobTypes.toList ∈ Set.range (List.map toStr) := by
    rw [Set.range_list_map]
    intro s hs
    obtain ⟨t, -, rfl⟩ := List.mem_map.1 ((hmem s).1 hs)
    exact ⟨t, rfl⟩
  rw [eq_comm] at hus
  have husmem : ∀ u, u ∈ us ↔ u ∈ ts := fun u => by
    have := hmem (toStr u); rw [hus] at this; simpa only [List.mem_map, toStr_inj,
        exists_eq_right] using this
  have hnd : us.Nodup := List.Nodup.of_map toStr (hus ▸ nodup_toList_set jobTypes)
  have hset : us.foldl (fun s t => s.insert t) ∅ = typeSet m := by
    rw [typeSet_eq hts hseg]
    apply ExtTreeSet.ext_mem
    intro u
    rw [mem_foldl_insert, mem_foldl_insert, husmem]
  constructor
  -- every string is read as the number it was written for
  · unfold jobTypesInt
    rw [hus, foldlM_map_toStr us (fun u hu s => ?_) ∅, hset]
    simp only [stoi_toStr (hts u ((husmem u).1 hu)),
      toUint_natCast (show u < 2 ^ 32 from (hts u ((husmem u).1 hu)).trans (by decide))]
  · have h1 : jobTypes.size = us.length := by rw [← ExtTreeSet.length_toList, hus, List.length_map]
    have h2 : (typesOf m).length = us.length := by
      unfold typesOf
      rw [ExtTreeSet.length_toList, ← hset, size_foldl_insert hnd (by simp)]
      simp
    rw [h1, h2]

/-- Job types that are read one by one. -/
theorem foldlM_stoi {ss : List Str} {out types : ExtTreeSet ℕ}
    (h : ss.foldlM (fun out x =>
      match stoi x with
      | some v => Except.ok (out.insert (toUint v))
      | none => Except.error Fault.exception) out = .ok types) :
    (∀ s ∈ ss, (stoi s).isSome) ∧ types =
      ss.foldl (fun s x => s.insert (toUint ((stoi x).getD 0))) out := by
  induction ss generalizing out with
  | nil =>
    injection h with h
    exact ⟨List.forall_mem_nil _, h.symm⟩
  | cons s ss ih =>
    rw [List.foldlM_cons] at h
    cases hs : stoi s with
    | none =>
      rw [hs] at h
      cases h
    | some v =>
      rw [hs] at h
      obtain ⟨hall, htypes⟩ := ih h
      refine ⟨?_, ?_⟩
      · rw [List.forall_mem_cons]
        exact ⟨by rw [hs]; rfl, hall⟩
      · rw [htypes, List.foldl_cons, hs]
        rfl

/-- Filling a set through a function. -/
theorem mem_foldl_insert_map {γ : Type*} {f : γ → ℕ} {l : List γ} {s : ExtTreeSet ℕ} {t : ℕ} :
    t ∈ l.foldl (fun s x => s.insert (f x)) s ↔ t ∈ s ∨ ∃ x ∈ l, f x = t := by
  rw [show l.foldl (fun s x => s.insert (f x)) s =
    (l.map f).foldl (fun s u => s.insert u) s from List.foldl_map.symm, mem_foldl_insert, List.mem_map]

/-- **What `receiveRequest` did**, where it returned: it read all job types, and queued a job
for each of them. -/
theorem receiveRequest_eq_ok {d d' : Delegator} {m : Message} (h : d.receiveRequest m = .ok d') :
    (∀ s ∈ segments (m.data.headD []) ':', (stoi s).isSome) ∧
      (∃ frame, nth m.data 0 = .ok frame ∧
        jobTypesInt (splitStr (fun out s => out.insert s) ∅ frame ':') = .ok (typeSet m)) ∧
      ∃ id requests, d' = ((typesOf m).foldl (pushJob id) ({ d with requests }, 0)).1 := by
  unfold receiveRequest at h
  dsimp only at h
  split at h
  case h_2 => cases h
  obtain ⟨id, -, h⟩ := bind_eq_ok h
  obtain ⟨frame, hframe, h⟩ := bind_eq_ok h
  obtain ⟨types, htypes, h⟩ := bind_eq_ok h
  obtain ⟨data, -, h⟩ := bind_eq_ok h
  have hhead : m.data.headD [] = frame := by
    rw [List.headD_eq_head?_getD, head?_of_front hframe]
    rfl
  have hmem : ∀ s, s ∈ (splitStr (fun out s => out.insert s) ∅ frame ':' : ExtTreeSet Str).toList ↔
      s ∈ segments frame ':' := by
    intro s
    rw [ExtTreeSet.mem_toList, splitStr_eq, mem_foldl_insert]
    simp only [ExtTreeSet.not_mem_empty, false_or]
  obtain ⟨hall, hset⟩ := foldlM_stoi htypes
  -- the set of the numbers does not depend on the order in which they are read
  have htypeSet : types = typeSet m := by
    rw [hset]
    unfold typeSet
    apply ExtTreeSet.ext_mem
    intro t
    rw [mem_foldl_insert_map, mem_foldl_insert_map, hhead]
    simp only [hmem]
  subst htypeSet
  injection h with h
  rw [hhead]
  exact ⟨fun s hs => hall s ((hmem s).2 hs), ⟨frame, hframe, htypes⟩, id, _, h.symm⟩

/-! ## Requests -/

/-- The jobs of a request for the types `ts`, of which `k` were created before. The ids go on from
`n + k`, modulo `2 ^ 32`. -/
def newJobs (id : Str) (n k : ℕ) (ts : List ℕ) : List Job :=
  (ts.zipIdx k).map fun p => ⟨p.1, toStr ((n + p.2) % 2 ^ 32), id, p.2, 0⟩

theorem newJobs_cons (id : Str) (n k t : ℕ) (ts : List ℕ) :
    newJobs id n k (t :: ts) = ⟨t, toStr ((n + k) % 2 ^ 32), id, k, 0⟩ :: newJobs id n (k + 1) ts := by
  unfold newJobs
  rw [List.zipIdx_cons, List.map_cons]

theorem newJobs_type (id : Str) (n k : ℕ) (ts : List ℕ) : (newJobs id n k ts).map Job.type = ts := by
  unfold newJobs
  rw [List.map_map]
  exact List.zipIdx_map_fst k ts

theorem newJobs_id (id : Str) (n : ℕ) (ts : List ℕ) :
    (newJobs id n 0 ts).map Job.id = (List.range' n ts.length).map fun k => toStr (k % 2 ^ 32) := by
  have hrange : List.range' n ts.length = (ts.zipIdx 0).map fun p => n + p.2 := by
    rw [← Nat.add_zero n, ← List.map_add_range', ← List.zipIdx_map_snd 0 ts, List.map_map]
    rfl
  unfold newJobs
  rw [hrange, List.map_map, List.map_map]
  rfl

/-- **The loop of `receiveRequest`** queues one job for each type. -/
theorem foldl_pushJob_eq (id : Str) (ts : List ℕ) (st : Delegator × ℕ) {n : ℕ}
    (hn : st.1.nextJobId = (n + st.2) % 2 ^ 32) :
    ts.foldl (pushJob id) st = ({ st.1 with
      jobQueue := st.1.jobQueue ++ newJobs id n st.2 ts
      nextJobId := (n + st.2 + ts.length) % 2 ^ 32 }, st.2 + ts.length) := by
  induction ts generalizing st with
  | nil =>
    simp only [List.foldl_nil, newJobs, List.zipIdx_nil, List.map_nil, List.append_nil,
      List.length_nil, Nat.add_zero, ← hn]
  | cons t ts ih =>
    have hstep : (pushJob id st t).1.nextJobId = (n + (pushJob id st t).2) % 2 ^ 32 := by
      show (st.1.nextJobId + 1) % 2 ^ 32 = (n + (st.2 + 1)) % 2 ^ 32
      rw [hn]
      omega
    have hlen : ∀ k, k + 1 + ts.length = k + (ts.length + 1) := by
      intro k
      omega
    rw [List.foldl_cons, ih _ hstep, newJobs_cons, ← hn, List.length_cons]
    simp only [pushJob, List.append_assoc, List.singleton_append, ← Nat.add_assoc n st.2 1, hlen]

/-- While the ids do not wrap around. -/
theorem foldl_pushJob (id : Str) (ts : List ℕ) (d : Delegator) (hlt : d.nextJobId + ts.length < 2 ^ 32) :
    ts.foldl (pushJob id) (d, 0) = ({ d with
      jobQueue := d.jobQueue ++ ts.zipIdx.map fun p => ⟨p.1, toStr (d.nextJobId + p.2), id, p.2, 0⟩
      nextJobId := d.nextJobId + ts.length }, ts.length) := by
  have hnext : d.nextJobId = (d.nextJobId + 0) % 2 ^ 32 := by omega
  have hjobs : newJobs id d.nextJobId 0 ts =
      ts.zipIdx.map fun p => ⟨p.1, toStr (d.nextJobId + p.2), id, p.2, 0⟩ := by
    unfold newJobs
    refine List.map_congr_left ?_
    intro p hp
    have hlt' : p.2 < ts.length + 0 := List.snd_lt_of_mem_zipIdx hp
    rw [Nat.mod_eq_of_lt (by omega)]
  rw [foldl_pushJob_eq id ts (d, 0) hnext, hjobs]
  simp only [Nat.add_zero, Nat.zero_add, Nat.mod_eq_of_lt hlt]

/-- **What `receiveRequest` queued**, where it returned: the jobs of its types, under the next ids. -/
theorem receiveRequest_queued {d d' : Delegator} {m : Message} {n : ℕ} (h : d.receiveRequest m = .ok d')
    (hn : d.nextJobId = n % 2 ^ 32) :
    d'.workers = d.workers ∧ d'.nJobTypes = d.nJobTypes ∧
      d'.nextJobId = (n + (typesOf m).length) % 2 ^ 32 ∧
      ∃ js : List Job, d'.jobQueue = d.jobQueue ++ js ∧ js.map Job.type = typesOf m ∧
        js.map Job.id = (List.range' n (typesOf m).length).map fun k => toStr (k % 2 ^ 32) := by
  obtain ⟨-, -, id, requests, hd⟩ := receiveRequest_eq_ok h
  rw [foldl_pushJob_eq id (typesOf m) ({ d with requests }, 0) hn] at hd
  subst hd
  exact ⟨rfl, rfl, rfl, _, rfl, newJobs_type .., newJobs_id ..⟩

/-- What is outstanding when jobs were added to the queue. -/
theorem tickets_requested {d d' : Delegator} {js : List Job} (hworkers : d'.workers = d.workers)
    (hqueue : d'.jobQueue = d.jobQueue ++ js) :
    d'.tickets = d.tickets + (js.map Job.ticket : List Ticket) := by
  rw [tickets_eq, tickets_eq, hworkers, hqueue, List.map_append, ← Multiset.coe_add]
  exact add_right_comm _ _ _

/-- **`receiveRequest`**, for a request that has an address and names its job types by decimals. -/
theorem receiveRequest_run {d : Delegator} {m : Message} {ts : List ℕ} (haddr : m.address ≠ [])
    (hdata : 2 ≤ m.data.length) (hts : ∀ t ∈ ts, t < 2 ^ 31)
    (hseg : segments (m.data.headD []) ':' = ts.map toStr) :
    d.receiveRequest m = .ok ((typesOf m).foldl (pushJob (key m))
      ({ d with requests := d.requests.insertIfNew (key m) (requestOf m) }, 0)).1 := by
  have hjoin : joinStr m.address [':'] = some (key m) := by
    unfold key; rw [joinStr_eq haddr]; rfl
  obtain ⟨frame, data, rest, hd⟩ : ∃ frame data rest, m.data = frame :: data :: rest := by
    match hmd : m.data with
    | [] | [_] => rw [hmd] at hdata; simp at hdata
    | a :: b :: c => exact ⟨a, b, c, rfl⟩
  have hframe : m.data.headD [] = frame := by rw [hd]; rfl
  have hdataOf : dataOf m = data := by unfold dataOf; rw [hd]; rfl
  obtain ⟨htypes, hsize⟩ := jobTypes_spec hts hseg
  rw [hframe] at htypes hsize
  unfold receiveRequest
  simp only [hjoin, nth_zero_of_cons hd, nth_one_of_cons hd, ok_bind, htypes, hsize, requestOf, hdataOf]
  rfl

/-- **`receiveRequest`.** -/
theorem receiveRequest_spec {d : Delegator} {m : Message} (hm : RequestOK d m)
    (hlt : d.nextJobId + (typesOf m).length < 2 ^ 32) :
    ∃ d', d.receiveRequest m = .ok d' ∧ d'.workers = d.workers ∧
      d'.requests = d.requests.insert (key m) (requestOf m) ∧
      d'.tickets = d.tickets + (newTickets d.nextJobId m : List Ticket) ∧
      d'.nextJobId = d.nextJobId + (typesOf m).length := by
  obtain ⟨hkey, haddr, hdata, ts, -, hts, hseg⟩ := id hm
  refine ⟨_, receiveRequest_run haddr hdata hts hseg, ?_⟩
  rw [insertIfNew_of_not_mem hkey]
  set d₁ : Delegator := { d with requests := d.requests.insert (key m) (requestOf m) } with hd₁
  rw [foldl_pushJob (key m) (typesOf m) d₁ hlt]
  refine ⟨rfl, rfl, ?_, rfl⟩
  rw [tickets_eq, tickets_eq]
  simp only [hd₁, List.map_append, List.map_map, ← Multiset.coe_add, newTickets]
  exact add_right_comm _ _ _

/-! ## Results -/

/-- **`receiveResult`**, for a job in progress at a connected worker. -/
theorem receiveResult_spec {d : Delegator} (hd : d.WorkersOK) {m : Message} {x i a : Str}
    {tl rest : List Str} {w : Worker} {j : Job} {r : Request} (hx : m.address = x :: tl)
    (hw : d.workers[x]? = some w) (hm : m.data = i :: a :: rest) (hj : w.workInProgress[i]? = some j)
    (hr : d.requests[j.requesterID]? = some r) (hidx : j.requesterIndex < r.results.length)
    (hlt : r.nDone + 1 < 2 ^ 32) (now : ℤ) :
    ∃ d', d.receiveResult m now = .ok (d', if r.nDone + 1 = r.jobTypes.size
        then [⟨.requester, ⟨r.address, .result, r.results.set j.requesterIndex a⟩⟩] else []) ∧
      d'.WorkersOK ∧ d.tickets = j.ticket ::ₘ d'.tickets ∧ d'.nextJobId = d.nextJobId ∧
      d'.requests = if r.nDone + 1 = r.jobTypes.size then d.requests.erase j.requesterID
        else d.requests.insert j.requesterID
          { r with results := r.results.set j.requesterIndex a, nDone := r.nDone + 1 } := by
  have hok := hd x w hw
  have hrange := hok.typed i j hj
  obtain ⟨b, hb⟩ := mem_iff_getElem?.1 ((hok.times j.type).2 hrange)
  set w' : Worker := { w with
    workInProgress := w.workInProgress.erase i
    times := w.times.insert j.type
      (b.pushBack (toUint ((now - max j.startTime w.lastResultTime).tdiv 1000)))
    lastResultTime := now } with hw'
  -- a type is added that the worker supports already
  have hok' : Worker.OK x w' :=
    { front := hok.front
      key := hok.key.erase
      times := fun t => by
        rw [hw', ExtTreeMap.mem_insert, LawfulEqCmp.compare_eq_iff_eq, hok.times t]
        refine ⟨?_, .inr⟩
        rintro (rfl | h)
        · exact hrange
        · exact h
      typed := hok.typed.erase
      load_le := ExtTreeMap.size_erase_le.trans hok.load_le }
  refine ⟨{ d with
    workers := d.workers.insert x w'
    requests := if r.nDone + 1 = r.jobTypes.size then d.requests.erase j.requesterID
      else d.requests.insert j.requesterID
        { r with results := r.results.set j.requesterIndex a, nDone := r.nDone + 1 } }, ?_, ?_⟩
  · unfold receiveResult
    rw [front_of_cons hx, ok_bind]
    simp only [hw, nth_zero_of_cons hm, nth_one_of_cons hm, ok_bind, subscript_of_some hj,
      subscript_of_some hr, hb, Nat.not_le.2 hidx, if_false, Nat.mod_eq_of_lt hlt]
    rfl
  · refine ⟨hd.insert hok', ?_, rfl, rfl⟩
    have hload : w.load = j.ticket ::ₘ w'.load := Worker.load_erase hj
    rw [tickets_eq, tickets_eq, total_erase Worker.load hw]
    simp only
    rw [total_insert, hload, Multiset.cons_add, Multiset.add_cons]

/-- A RESULT of an identity that is not connected is dropped. -/
theorem receiveResult_unknown {d : Delegator} {m : Message} {x : Str} {tl : List Str}
    (hx : m.address = x :: tl) (hw : x ∉ d.workers) (now : ℤ) :
      d.receiveResult m now = .ok (d, []) := by
  unfold receiveResult
  rw [front_of_cons hx, ok_bind, show d.workers[x]? = none by simpa using hw]
  rfl

end Delegator

end Stateline
