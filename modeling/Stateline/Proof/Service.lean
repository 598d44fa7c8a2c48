import Stateline.Infer.Drawn
import Stateline.Proof.Exchange
import Stateline.Proof.SamplerProgram

/-!
# Runs of the service

* `Places`: **where the requests of the sampler are**: each one outstanding is on its way to the
  delegator, or pending there, or on its way back with its likelihoods.
* `Inv`, `inv_step`: every step keeps them there.
* `service_refines`: **the service computes what the sampler computes on its own**, with the
  likelihood called at once.
* `service_conserves`: no request is lost or doubled, and whatever is there to be read is read.
-/

namespace Stateline

open Std Lib Delegator

namespace Service

variable {P F : Type} {d : ℕ} {c : Deployment P F} {w w' : World} {s s' : Service P F d}
    {waiting pending answered : List (SampleRequest (Fin d → F))}

/-- The requests of the sampler that are on their way to the delegator, pending at it, and answered. -/
structure Places (c : Deployment P F) (w : World) (s : Service P F d)
    (waiting pending answered : List (SampleRequest (Fin d → F))) : Prop where
  perm : (waiting ++ pending ++ answered).Perm (SamplerProgram.outstanding c.toSetup s.program)
  toDelegator : s.toDelegator = waiting.map (message c)
  toRequester : s.toRequester = answered.map (reply c)
  atDelegator : ∀ r ∈ pending, key (asked c r) ∈ w.del.requests ∧
    w.asked[w.number (key (asked c r))]? = some (asked c r)
  ours : ∀ k r', w.del.requests[k]? = some r' → r'.address.getLast? = some c.me →
    ∃ r ∈ pending, key (asked c r) = k
  plain : ∀ q ∈ w.asked, Plain q.address

/-! ## The program -/

variable [Double F]

/-- The requests outstanding are for distinct chains and for all job types. -/
theorem Places.requests (h : Places c w s waiting pending answered)
    (hp : SamplerProgram.Inv c.toSetup s.program) :
    ((waiting ++ pending ++ answered).map (·.id)).Nodup ∧ ∀ r ∈ waiting ++ pending ++ answered,
      r.id < c.numChains ∧ r.jobTypes = List.range c.nJobTypes := by
  obtain ⟨hnd, hall⟩ := hp.requests
  exact ⟨((h.perm.map _).nodup_iff).2 hnd, fun r hr => hall r (h.perm.subset hr)⟩

omit [Double F] in
/-- The request of a chain is found among those outstanding. -/
theorem getElem?_findIdx {l : List (SampleRequest (Fin d → F))} (hnd : (l.map (·.id)).Nodup)
    {r : SampleRequest (Fin d → F)} (hr : r ∈ l) : l[l.findIdx fun q => q.id = r.id]? = some r := by
  have hlt : l.findIdx (fun q => q.id = r.id) < l.length :=
    List.findIdx_lt_length_of_exists ⟨r, hr, decide_eq_true rfl⟩
  have hid : (l[l.findIdx fun q => q.id = r.id]).id = r.id :=
    of_decide_eq_true (@List.findIdx_getElem _ (fun q => decide (q.id = r.id)) l hlt)
  rw [List.getElem?_eq_getElem hlt, List.inj_on_of_nodup_map hnd (List.getElem_mem hlt) hr hid]

variable [Inhabited F] [Proposal P (Fin d → F) F]

/-- A step of the program submits its new requests. -/
theorem advance_eq (hc : c.OK d) (hp : SamplerProgram.Inv c.toSetup s.program)
    {a : SamplerProgram.Act (Fin d → F) F} {p : SamplerProgram P (Fin d → F) F}
    (hs : SamplerProgram.step c.toSetup s.program a = some p) (toRequester : List Message) :
    SamplerProgram.Inv c.toSetup p ∧ ∃ sent,
      SamplerProgram.outstanding c.toSetup p = SamplerProgram.left c.toSetup s.program a ++ sent ∧
      s.advance c a toRequester = some { s with
        program := p, toDelegator := s.toDelegator ++ sent.map (message c), toRequester } := by
  have heff := SamplerProgram.step_iff.1 hs
  have hp' := SamplerProgram.inv_step hc.chains hc.interval hp heff
  obtain ⟨sent, hsent⟩ := heff.asks hp
  refine ⟨hp', sent, hsent, ?_⟩
  have htypes : List.range c.nJobTypes ≠ [] := by
    rw [Ne, List.range_eq_nil]
    exact Nat.ne_of_gt hc.types.1
  have hsubmit : ∀ l : List (SampleRequest (Fin d → F)), (∀ r ∈ l, r.jobTypes = List.range c.nJobTypes) →
      l.mapM (submit c) = (.ok (l.map (message c)) : Except Fault (List Message)) := by
    intro l hl
    induction l with
    | nil => rfl
    | cons r l ih =>
      obtain ⟨hr, hl⟩ := List.forall_mem_cons.1 hl
      have hr : r.jobTypes ≠ [] := by rw [hr]; exact htypes
      rw [List.mapM_cons, submit_eq_message hc hr, ih hl]
      rfl
  have hjobs : ∀ r ∈ sent, r.jobTypes = List.range c.nJobTypes := fun r hr =>
    (hp'.requests.2 r (by rw [hsent]; exact List.mem_append_right _ hr)).2
  unfold advance
  rw [hs]
  dsimp only [Option.bind_eq_bind, Option.bind_some]
  rw [hsent, List.drop_left, hsubmit sent hjobs]

omit [Double F] [Inhabited F] [Proposal P (Fin d → F) F] in
/-- What is submitted comes after what waits already. -/
theorem perm_sent {l sent : List (SampleRequest (Fin d → F))}
    (h : (waiting ++ pending ++ answered).Perm l) :
    (waiting ++ sent ++ pending ++ answered).Perm (l ++ sent) := by
  refine List.Perm.trans ?_ (h.append_right sent)
  simp only [List.append_assoc]
  refine List.Perm.append_left _ ?_
  rw [← List.append_assoc pending answered sent]
  exact List.perm_append_comm

omit [Double F] [Inhabited F] [Proposal P (Fin d → F) F] in
/-- A step that retrieves nothing. -/
theorem Places.advance (h : Places c w s waiting pending answered)
    {p : SamplerProgram P (Fin d → F) F} {sent : List (SampleRequest (Fin d → F))}
    (hsent : SamplerProgram.outstanding c.toSetup p =
      SamplerProgram.outstanding c.toSetup s.program ++ sent) :
    Places c w { s with program := p, toDelegator := s.toDelegator ++ sent.map (message c) }
      (waiting ++ sent) pending answered := by
  refine ⟨?_, ?_, h.toRequester, h.atDelegator, h.ours, h.plain⟩
  · show (waiting ++ sent ++ pending ++ answered).Perm (SamplerProgram.outstanding c.toSetup p)
    rw [hsent]
    exact perm_sent h.perm
  · rw [List.map_append, ← h.toDelegator]

omit [Inhabited F] [Proposal P (Fin d → F) F] in
/-- **A result is retrieved**: the oldest one, for a request that is outstanding. -/
theorem Places.retrieve {r : SampleRequest (Fin d → F)} (h : Places c w s waiting pending (r :: answered))
    (hp : SamplerProgram.Inv c.toSetup s.program) {p : SamplerProgram P (Fin d → F) F}
    {sent : List (SampleRequest (Fin d → F))}
    (hsent : SamplerProgram.outstanding c.toSetup p =
      (SamplerProgram.outstanding c.toSetup s.program).eraseIdx
        ((SamplerProgram.outstanding c.toSetup s.program).findIdx fun q => q.id = r.id) ++ sent) :
    Places c w { s with
        program := p
        toDelegator := s.toDelegator ++ sent.map (message c)
        toRequester := answered.map (reply c) }
      (waiting ++ sent) pending answered := by
  have hr := h.perm.subset (List.mem_append_right _ List.mem_cons_self)
  have hget := getElem?_findIdx hp.requests.1 hr
  generalize (SamplerProgram.outstanding c.toSetup s.program).findIdx (fun q => q.id = r.id) = n
    at hget hsent
  obtain ⟨hlt, rfl⟩ := List.getElem?_eq_some_iff.1 hget
  have hrest : (waiting ++ pending ++ answered).Perm
      ((SamplerProgram.outstanding c.toSetup s.program).eraseIdx n) :=
    (List.perm_middle.symm.trans
      (h.perm.trans (List.getElem_cons_eraseIdx_perm hlt).symm)).cons_inv
  refine ⟨?_, ?_, rfl, h.atDelegator, h.ours, h.plain⟩
  · show (waiting ++ sent ++ pending ++ answered).Perm (SamplerProgram.outstanding c.toSetup p)
    rw [hsent]
    exact perm_sent hrest
  · rw [List.map_append, ← h.toDelegator]

/-! ## The delegator -/

omit [Double F] [Inhabited F] [Proposal P (Fin d → F) F] in
/-- The requests of the sampler stay where they are when the delegator keeps its own. -/
theorem Places.keep (h : Places c w s waiting pending answered) (cluster : Cluster F)
    (hkeys : ∀ (k : Str) (r : Request), w'.del.requests[k]? = some r →
      ∃ r₀ : Request, w.del.requests[k]? = some r₀ ∧ r₀.address = r.address)
    (hmem : ∀ r ∈ pending, key (asked c r) ∈ w'.del.requests) (hnumber : w'.number = w.number)
    (hasked : w'.asked = w.asked) :
    Places c w' { s with cluster } waiting pending answered := by
  refine ⟨h.perm, h.toDelegator, h.toRequester, ?_, ?_, by rw [hasked]; exact h.plain⟩
  · intro r hr
    rw [hnumber, hasked]
    exact ⟨hmem r hr, (h.atDelegator r hr).2⟩
  · intro k r hk hme
    obtain ⟨r₀, hr₀, haddr⟩ := hkeys k r hk
    exact h.ours k r₀ hr₀ (by rw [haddr]; exact hme)

omit [Double F] [Inhabited F] [Proposal P (Fin d → F) F] in
/-- The address of a pending request is the one under whose key it is. -/
theorem Places.address (h : Places c w s waiting pending answered) (hinv : Stateline.Inv w) {k : Str}
    {r : Request} (hr : w.del.requests[k]? = some r) : segments k ':' = r.address := by
  obtain ⟨q, hq, rfl, haddr, -⟩ := (hinv.pending k r hr).asked
  rw [haddr]
  exact segments_key (h.plain q (List.mem_of_getElem? hq))

omit [Double F] [Inhabited F] [Proposal P (Fin d → F) F] in
/-- A request arrives, under a new key. -/
theorem Places.ask (h : Places c w s waiting pending answered) {m : Message} {del : Delegator}
    (hm : key m ∉ w.del.requests) (hplain : Plain m.address)
    (hreq : del.requests = w.del.requests.insert (key m) (requestOf m)) :
    (∀ r ∈ pending, key (asked c r) ∈ del.requests ∧
      (w.asked ++ [m])[Function.update w.number (key m) w.asked.length (key (asked c r))]? =
        some (asked c r)) ∧
    (∀ (k : Str) (r : Request), del.requests[k]? = some r → r.address.getLast? = some c.me →
      k ≠ key m → ∃ r ∈ pending, key (asked c r) = k) ∧
    ∀ q ∈ w.asked ++ [m], Plain q.address := by
  refine ⟨?_, ?_, ?_⟩
  · intro r hr
    obtain ⟨hmem, hasked⟩ := h.atDelegator r hr
    have hne : key (asked c r) ≠ key m := fun he => hm (he ▸ hmem)
    rw [hreq, Function.update_of_ne hne, List.getElem?_append_left
      (List.getElem?_eq_some_iff.1 hasked).1]
    exact ⟨ExtTreeMap.mem_insert.2 (.inr hmem), hasked⟩
  · intro k r hk hme hne
    rw [hreq, getElem?_insert_eq, if_neg (Ne.symm hne)] at hk
    exact h.ours k r hk hme
  · intro q hq
    rcases List.mem_append.1 hq with hq | hq
    · exact h.plain q hq
    · rw [List.mem_singleton.1 hq]
      exact hplain

omit [Double F] [Inhabited F] [Proposal P (Fin d → F) F] in
/-- A request of another requester arrives. -/
theorem Places.foreign (h : Places c w s waiting pending answered) (cluster : Cluster F) {m : Message}
    {del : Delegator} (hm : key m ∉ w.del.requests) (hplain : Plain m.address)
    (hother : m.address.getLast? ≠ some c.me)
    (hreq : del.requests = w.del.requests.insert (key m) (requestOf m)) :
    Places c { w with
        del
        asked := w.asked ++ [m]
        number := Function.update w.number (key m) w.asked.length }
      { s with cluster } waiting pending answered := by
  obtain ⟨hpending, hours, hplains⟩ := h.ask hm hplain hreq
  refine ⟨h.perm, h.toDelegator, h.toRequester, hpending, ?_, hplains⟩
  intro k r hk hme
  by_cases he : k = key m
  · -- the request of the other requester is not ours
    subst he
    change del.requests[key m]? = some r at hk
    rw [hreq, getElem?_insert_eq, if_pos rfl] at hk
    cases hk
    exact absurd hme hother
  · exact hours k r hk hme he

omit [Double F] [Inhabited F] [Proposal P (Fin d → F) F] in
/-- The next request is not pending already: the chains of the requests are distinct. -/
theorem Places.key_not_mem {r : SampleRequest (Fin d → F)} (hc : c.OK d)
    (h : Places c w s (r :: waiting) pending answered)
    (hnd : ((r :: waiting ++ pending ++ answered).map (·.id)).Nodup) (hinv : Stateline.Inv w) :
    key (asked c r) ∉ w.del.requests := by
  intro hmem
  obtain ⟨r', hr'⟩ := mem_iff_getElem?.1 hmem
  have haddr : r'.address = (asked c r).address := by
    rw [← h.address hinv hr', segments_key (plain_asked hc r)]
  obtain ⟨q, hq, hkey⟩ := h.ours _ r' hr' (by rw [haddr]; rfl)
  have hid : r.id ∈ (waiting ++ pending ++ answered).map (·.id) := by
    rw [← key_asked_inj hc hkey]
    exact List.mem_map_of_mem (List.mem_append_left _ (List.mem_append_right _ hq))
  exact (List.nodup_cons.1 hnd).1 hid

omit [Double F] [Inhabited F] [Proposal P (Fin d → F) F] in
/-- **The next request of the sampler arrives.** -/
theorem Places.request {r : SampleRequest (Fin d → F)} (hc : c.OK d)
    (h : Places c w s (r :: waiting) pending answered) (cluster : Cluster F) {del : Delegator}
    (hm : key (asked c r) ∉ w.del.requests)
    (hreq : del.requests = w.del.requests.insert (key (asked c r)) (requestOf (asked c r))) :
    Places c { w with
        del
        asked := w.asked ++ [asked c r]
        number := Function.update w.number (key (asked c r)) w.asked.length }
      { s with cluster, toDelegator := waiting.map (message c) } waiting (r :: pending) answered := by
  obtain ⟨hpending, hours, hplains⟩ := h.ask hm (plain_asked hc r) hreq
  refine ⟨?_, rfl, h.toRequester, ?_, ?_, hplains⟩
  · refine List.Perm.trans ?_ h.perm
    simp only [List.cons_append, List.append_assoc]
    exact List.perm_middle
  · rw [List.forall_mem_cons]
    refine ⟨⟨?_, ?_⟩, hpending⟩
    · show key (asked c r) ∈ del.requests
      rw [hreq, ExtTreeMap.mem_insert]
      exact .inl (LawfulEqCmp.compare_eq_iff_eq.2 rfl)
    · show (w.asked ++ [asked c r])[Function.update w.number _ w.asked.length _]? = _
      rw [Function.update_self, List.getElem?_append_right le_rfl, Nat.sub_self]
      rfl
  · intro k r' hk hme
    by_cases he : k = key (asked c r)
    · exact ⟨r, List.mem_cons_self, he.symm⟩
    · obtain ⟨q, hq, hkey⟩ := hours k r' hk hme he
      exact ⟨q, List.mem_cons_of_mem _ hq, hkey⟩

/-! ## Replies -/

omit [Double F] [Inhabited F] [Proposal P (Fin d → F) F] in
/-- A request is replied to: it is one of the sampler, and its likelihoods are sent to it, or it is one
of another requester. -/
theorem Places.replied (hc : c.OK d) (h : Places c w s waiting pending answered) (cluster : Cluster F)
    (hinv : Stateline.Inv w)
    (hnd : ∀ r ∈ pending, r.jobTypes = List.range c.nJobTypes)
    (hids : ((waiting ++ pending ++ answered).map (·.id)).Nodup) {k : Str} {r : Request}
    (hr : w.del.requests[k]? = some r) (hkeys : w'.del.requests = w.del.requests.erase k)
    (hnumber : w'.number = w.number) (hasked : w'.asked = w.asked) {results : List Str}
    (hcontent : ∃ q, w.asked[w.number k]? = some q ∧
      (⟨r.address, .result, results⟩ : Message) = honestReply (likelihood c) q) :
    ∃ pending' answered', Places c w' { s with
        cluster, toRequester := s.toRequester ++ arriving c [⟨r.address, .result, results⟩] }
      waiting pending' answered' := by
  have hold : ∀ (k' : Str) (r' : Request), w'.del.requests[k']? = some r' →
      k' ≠ k ∧ w.del.requests[k']? = some r' := by
    intro k' r' hk'
    rw [hkeys, getElem?_erase_eq] at hk'
    split at hk'
    · cases hk'
    · rename_i hne
      exact ⟨Ne.symm hne, hk'⟩
  have hleft : ∀ k' ∈ w.del.requests, k' ≠ k → k' ∈ w'.del.requests := by
    intro k' hmem hne
    rw [hkeys, ExtTreeMap.mem_erase]
    exact ⟨fun he => hne (LawfulEqCmp.compare_eq_iff_eq.1 he).symm, hmem⟩
  by_cases hme : r.address.getLast? = some c.me
  · -- the reply is for the sampler
    obtain ⟨r₀, hr₀, rfl⟩ := h.ours k r hr hme
    obtain ⟨q, hq, hreply⟩ := hcontent
    obtain rfl : asked c r₀ = q := Option.some.inj ((h.atDelegator r₀ hr₀).2.symm.trans hq)
    rw [honestReply_asked hc (hnd r₀ hr₀)] at hreply
    have harrive : arriving c [⟨r.address, .result, results⟩] = [reply c r₀] := by
      rw [hreply]
      simp [arriving, reply]
    obtain ⟨before, after, rfl⟩ := List.append_of_mem hr₀
    have hperm : (waiting ++ (before ++ r₀ :: after) ++ answered).Perm
        (r₀ :: (waiting ++ (before ++ after) ++ answered)) := by
      simp only [List.append_assoc, List.cons_append]
      rw [← List.append_assoc, ← List.append_assoc waiting before]
      exact List.perm_middle
    have hne : ∀ q ∈ before ++ after, key (asked c q) ≠ key (asked c r₀) := by
      intro q hq he
      have hmem : q.id ∈ (waiting ++ (before ++ after) ++ answered).map (·.id) :=
        List.mem_map_of_mem (List.mem_append_left _ (List.mem_append_right _ hq))
      rw [key_asked_inj hc he] at hmem
      exact (List.nodup_cons.1 ((hperm.map (·.id)).nodup_iff.1 hids)).1 hmem
    refine ⟨before ++ after, answered ++ [r₀], ?_, h.toDelegator, ?_, ?_, ?_,
      by rw [hasked]; exact h.plain⟩
    · refine List.Perm.trans ?_ h.perm
      refine List.Perm.trans ?_ hperm.symm
      rw [← List.append_assoc]
      exact List.perm_append_singleton r₀ _
    · rw [harrive, List.map_append, ← h.toRequester]
      rfl
    · intro q hq
      have hq' : q ∈ before ++ r₀ :: after := by
        rcases List.mem_append.1 hq with hq | hq
        · exact List.mem_append_left _ hq
        · exact List.mem_append_right _ (List.mem_cons_of_mem _ hq)
      obtain ⟨hmem, hat⟩ := h.atDelegator q hq'
      exact ⟨hleft _ hmem (hne q hq), by rw [hnumber, hasked]; exact hat⟩
    · intro k' r' hk' hme'
      obtain ⟨hk, hk'⟩ := hold k' r' hk'
      obtain ⟨q, hq, rfl⟩ := h.ours k' r' hk' hme'
      refine ⟨q, ?_, rfl⟩
      rcases List.mem_append.1 hq with hq | hq
      · exact List.mem_append_left _ hq
      · rcases List.mem_cons.1 hq with rfl | hq
        · exact absurd rfl hk
        · exact List.mem_append_right _ hq
  · -- the reply is for another requester
    have harrive : arriving c [⟨r.address, .result, results⟩] = [] := by
      simp [arriving, hme]
    refine ⟨pending, answered, ?_⟩
    rw [harrive, List.append_nil]
    refine h.keep cluster ?_ ?_ hnumber hasked
    · exact fun k' r' hk' => ⟨r', (hold k' r' hk').2, rfl⟩
    · intro q hq
      refine hleft _ (h.atDelegator q hq).1 ?_
      rintro rfl
      refine hme ?_
      rw [← h.address hinv hr, segments_key (plain_asked hc q)]
      rfl

/-! ## The invariant -/

/-- **The invariant.** -/
structure Inv (c : Deployment P F) (w : World) (s : Service P F d) : Prop where
  program : SamplerProgram.Inv c.toSetup s.program
  cluster : Cluster.Inv c.stod c.to_string c.lhFn c.range s.cluster
  watched : Cluster.Watched c.stod c.to_string c.lhFn (DelegatorSettings.default c.port).nJobTypes
    c.workerCount s.cluster w
  places : ∃ waiting pending answered, Places c w s waiting pending answered

omit [Inhabited F] [Proposal P (Fin d → F) F] in
theorem Inv.init (c : Deployment P F) :
    Inv c (.init (DelegatorSettings.default c.port).nJobTypes c.workerCount)
      (init c : Service P F d) where
  program := Nat.zero_le _
  cluster := .init (DelegatorSettings.default c.port).nJobTypes c.workerCount c.range
  watched := .init c.range
  places := by
    refine ⟨[], [], [], .refl _, rfl, rfl, List.forall_mem_nil _, ?_, List.forall_mem_nil _⟩
    intro k r hk
    simp [World.init, Delegator.init] at hk

omit [Double F] [Inhabited F] [Proposal P (Fin d → F) F] in
/-- What the delegator sends to its requesters. -/
theorem toRequesters_eq {sends out : List Send} (h : w'.sent = w.sent ++ sends)
    (hout : w'.sent = w.sent ++ out) : Cluster.toRequesters sends = Cluster.toRequesters out := by
  rw [List.append_cancel_left (h.symm.trans hout)]

/-- A request of another requester. -/
def Foreign (c : Deployment P F) (m : Message) : Prop :=
  Plain m.address ∧ m.address.getLast? ≠ some c.me

omit [Inhabited F] [Proposal P (Fin d → F) F] in
/-- **An event at the delegator**, other than a request of the sampler, keeps the requests in their
places. -/
theorem places_of_change (hc : c.OK d) (h : Inv c w s) {e : Event} (hstep : w.step e = some w')
    (hchange : Change w e w') (hagreed : Agreed (likelihood c) w') {sends : List Send}
    (hsent : w'.sent = w.sent ++ sends)
    (hforeign : ∀ m now fails, e = .recv .requester m now fails → Foreign c m) (cluster : Cluster F) :
    ∃ waiting pending answered, Places c w' { s with
        cluster, toRequester := s.toRequester ++ arriving c (Cluster.toRequesters sends) }
      waiting pending answered := by
  obtain ⟨waiting, pending, answered, hp⟩ := h.places
  have hinv := h.watched.inv
  cases hchange with
  | @moved del out _ hd hout =>
    have hnone : Cluster.toRequesters sends = [] := by
      rw [toRequesters_eq hsent rfl, Cluster.toRequesters, List.filter_eq_nil_iff.2, List.map_nil]
      intro x hx
      simpa using (hout x hx).1
    refine ⟨waiting, pending, answered, ?_⟩
    rw [hnone, arriving, List.filter_nil, List.map_nil, List.append_nil]
    refine hp.keep cluster ?_ ?_ rfl rfl
    · intro k r hk
      exact ⟨r, hd.requests ▸ hk, rfl⟩
    · intro r hr
      rw [hd.requests]
      exact (hp.atDelegator r hr).1
  | @request m del _ hm _ hreq _ _ =>
    have hnone : Cluster.toRequesters sends = [] := by
      rw [toRequesters_eq hsent (List.append_nil _).symm]
      rfl
    -- the request is the one that the event brings
    have hmsg : Foreign c m := by
      have hasked : [m] = World.requestsOf e := List.append_cancel_left (World.asked_of_step hstep)
      unfold World.requestsOf at hasked
      split at hasked
      · rename_i m' now fails _
        rw [(List.cons.inj hasked).1]
        exact hforeign m' now fails rfl
      · cases hasked
    refine ⟨waiting, pending, answered, ?_⟩
    rw [hnone, arriving, List.filter_nil, List.map_nil, List.append_nil]
    exact hp.foreign cluster hm.1 hmsg.1 hmsg.2 hreq
  | @result j r a del _ hr _ _ _ hreq =>
    by_cases hlast : r.nDone + 1 = r.jobTypes.size
    · rw [if_pos hlast] at hreq hsent
      have hout : Cluster.toRequesters sends =
          [⟨r.address, .result, r.results.set j.requesterIndex a⟩] := by
        rw [← List.append_cancel_left hsent]
        rfl
      obtain ⟨hids, hall⟩ := hp.requests h.program
      have hnd : ∀ q ∈ pending, q.jobTypes = List.range c.nJobTypes := fun q hq =>
        (hall q (List.mem_append_left _ (List.mem_append_right _ hq))).2
      -- the reply is that of honest workers
      obtain ⟨q, hq, hreply, -⟩ := hagreed.content
        (w.number j.requesterID, ⟨r.address, .result, r.results.set j.requesterIndex a⟩) (by
          dsimp only
          rw [if_pos hlast]
          exact List.mem_append_right _ (List.mem_singleton_self _))
      refine ⟨waiting, ?_⟩
      rw [hout]
      refine hp.replied hc cluster hinv hnd hids hr ?_ ?_ ?_ ⟨q, hq, hreply⟩
      · exact hreq
      · rfl
      · rfl
    · rw [if_neg hlast] at hreq
      have hnone : Cluster.toRequesters sends = [] := by
        rw [← List.append_cancel_left hsent, if_neg hlast]
        rfl
      refine ⟨waiting, pending, answered, ?_⟩
      rw [hnone, arriving, List.filter_nil, List.map_nil, List.append_nil]
      refine hp.keep cluster ?_ ?_ rfl rfl
      · intro k r' hk
        change del.requests[k]? = some r' at hk
        rw [hreq, getElem?_insert_eq] at hk
        split at hk
        · rename_i hjk
          cases hk
          exact ⟨r, hjk ▸ hr, rfl⟩
        · exact ⟨r', hk, rfl⟩
      · intro q hq
        show key (asked c q) ∈ del.requests
        rw [hreq, ExtTreeMap.mem_insert]
        exact .inr (hp.atDelegator q hq).1

/-! ## Steps -/

omit [Inhabited F] [Proposal P (Fin d → F) F] in
/-- **The delegator reads anything** but a request of the sampler. -/
theorem inv_event (hc : c.OK d) (h : Inv c w s) {a : Cluster.Act} {e : Event} {c₁ : Cluster F}
    (hr : s.cluster.Reads a e c₁) (hok : s.cluster.Allowed a)
    (hforeign : ∀ m now fails, e = .recv .requester m now fails → Foreign c m)
    (hbound : s.cluster.created + World.growth e < 2 ^ 32) :
    ∃ cluster out w', s.cluster.step c.stod c.to_string c.lhFn a = some (cluster, out) ∧
      Inv c w' { s with cluster, toRequester := s.toRequester ++ arriving c out } := by
  obtain ⟨del, sends, w', hrun, hcreated, hstep, hchange, hsent, hwatched⟩ :=
    Cluster.watched_event h.cluster h.watched hr hc.hello hok hbound
  obtain ⟨es, hreach⟩ := hwatched.run
  have hplaces := places_of_change hc h hstep hchange (agreed_of_reach hreach) hsent hforeign
    { c₁ with del, toWorker := fun x => c₁.toWorker x ++ Net.arriving sends x }
  exact ⟨_, _, w', Cluster.step_of_reads hr hrun, h.program,
    Cluster.inv_event h.cluster hr hrun hcreated.le, hwatched, hplaces⟩

omit [Inhabited F] [Proposal P (Fin d → F) F] in
/-- The oldest message for the delegator is a request that it accepts. -/
theorem Inv.next_request (hc : c.OK d) (h : Inv c w s) {m : Message} {rest : List Message}
    (hm : s.toDelegator = m :: rest) :
    ∃ r waiting pending answered, Places c w s (r :: waiting) pending answered ∧
      { m with address := m.address ++ [c.me] } = asked c r ∧ rest = waiting.map (message c) ∧
      s.cluster.Allowed (.request (asked c r)) ∧
      World.growth (.recv .requester (asked c r) 0 false) = c.nJobTypes := by
  obtain ⟨waiting, pending, answered, hp⟩ := h.places
  obtain ⟨hids, hall⟩ := hp.requests h.program
  cases waiting with
  | nil =>
    rw [hp.toDelegator] at hm
    cases hm
  | cons r waiting =>
    rw [hp.toDelegator] at hm
    obtain ⟨rfl, rfl⟩ := List.cons.inj hm
    have htypes := (hall r List.mem_cons_self).2
    have hnew := hp.key_not_mem hc hids h.watched.inv
    refine ⟨r, waiting, pending, answered, hp, rfl, rfl,
      ⟨rfl, requestOK_asked hc htypes (h.watched.del ▸ hnew)⟩, ?_⟩
    rw [World.growth, typesOf_asked hc htypes, List.length_range]

omit [Inhabited F] [Proposal P (Fin d → F) F] in
/-- **The delegator reads the next request of the sampler**, and accepts it. -/
theorem inv_request (hc : c.OK d) (h : Inv c w s) {m : Message} {rest : List Message}
    (hm : s.toDelegator = m :: rest) (hbound : s.cluster.created + c.nJobTypes < 2 ^ 32) :
    ∃ cluster w', s.cluster.step c.stod c.to_string c.lhFn
        (.request { m with address := m.address ++ [c.me] }) = some (cluster, []) ∧
      Inv c w' { s with cluster, toDelegator := rest } := by
  obtain ⟨r, waiting, pending, answered, hp, hr, rfl, hok, hgrowth⟩ := h.next_request hc hm
  rw [hr]
  obtain ⟨del, sends, w', hrun, hcreated, hstep, hchange, hsent, hwatched⟩ :=
    Cluster.watched_event h.cluster h.watched .request hc.hello hok (by rw [hgrowth]; exact hbound)
  have hcluster := Cluster.inv_event h.cluster .request hrun hcreated.le
  -- nothing is sent to the requesters, and the request is pending
  have hplaces : Cluster.toRequesters sends = [] ∧ ∀ cluster : Cluster F,
      Places c w' { s with cluster, toDelegator := waiting.map (message c) } waiting (r :: pending)
        answered := by
    have hasked := World.asked_of_step hstep
    cases hchange with
    | moved => exact absurd hasked (by simp [World.requestsOf])
    | result => exact absurd hasked (by simp [World.requestsOf])
    | @request q del _ hq _ hreq _ _ =>
      obtain rfl : q = asked c r := (List.cons.inj (List.append_cancel_left hasked)).1
      refine ⟨?_, fun cluster => hp.request hc cluster hq.1 hreq⟩
      rw [toRequesters_eq hsent (List.append_nil _).symm]
      rfl
  have hcl : s.cluster.step c.stod c.to_string c.lhFn (.request (asked c r)) =
    some (_, Cluster.toRequesters sends) := Cluster.step_of_reads .request hrun
  rw [hplaces.1] at hcl
  exact ⟨_, w', hcl, h.program, hcluster, hwatched, waiting, r :: pending, answered, hplaces.2 _⟩

omit [Inhabited F] [Proposal P (Fin d → F) F] in
/-- A worker takes a step. -/
theorem inv_worker (h : Inv c w s) {cluster : Cluster F}
    (hcluster : Cluster.Inv c.stod c.to_string c.lhFn c.range cluster)
    (hwatched : Cluster.Watched c.stod c.to_string c.lhFn (DelegatorSettings.default c.port).nJobTypes
      c.workerCount cluster w) :
    Inv c w { s with cluster } := by
  obtain ⟨waiting, pending, answered, hp⟩ := h.places
  exact ⟨h.program, hcluster, hwatched, waiting, pending, answered,
    hp.perm, hp.toDelegator, hp.toRequester, hp.atDelegator, hp.ours, hp.plain⟩

/-- **A step of the program** that retrieves nothing. -/
theorem inv_advance (hc : c.OK d) (h : Inv c w s) {a : SamplerProgram.Act (Fin d → F) F}
    {p : SamplerProgram P (Fin d → F) F} (hs : SamplerProgram.step c.toSetup s.program a = some p)
    (hleft : SamplerProgram.left c.toSetup s.program a = SamplerProgram.outstanding c.toSetup s.program) :
    ∃ s', s.advance c a s.toRequester = some s' ∧ s'.program = p ∧ s'.cluster = s.cluster ∧ Inv c w s' := by
  obtain ⟨waiting, pending, answered, hp⟩ := h.places
  obtain ⟨hprogram, sent, hsent, hadvance⟩ := advance_eq hc h.program hs s.toRequester
  rw [hleft] at hsent
  exact ⟨_, hadvance, rfl, rfl, hprogram, h.cluster, h.watched, waiting ++ sent, pending, answered,
    hp.advance hsent⟩

/-- **The program retrieves the oldest result**: the likelihoods of the sample of a request. -/
theorem inv_retrieve (hc : c.OK d) (h : Inv c w s) {m : Message} {rest : List Message}
    (hm : s.toRequester = m :: rest) (acceptRand swapRand : F) (now : ℤ)
    (hwaits : SamplerProgram.Waits c.toSetup s.program) :
    ∃ r i s', (SamplerProgram.outstanding c.toSetup s.program)[i.index]? = some r ∧
      i.results = likelihoods c r.data ∧
      SamplerProgram.step c.toSetup s.program (.retrieve i) = some s'.program ∧
      s.step c (.retrieve acceptRand swapRand now) = some s' ∧ s'.cluster = s.cluster ∧ Inv c w s' := by
  obtain ⟨waiting, pending, answered, hp⟩ := h.places
  obtain ⟨r, answered, rfl, rfl, rfl⟩ : ∃ r answered', answered = r :: answered' ∧ m = reply c r ∧
      rest = answered'.map (reply c) := by
    cases answered with
    | nil =>
      rw [hp.toRequester] at hm
      cases hm
    | cons r answered =>
      rw [hp.toRequester] at hm
      obtain ⟨rfl, rfl⟩ := List.cons.inj hm
      exact ⟨r, answered, rfl, rfl, rfl⟩
  have hr := h.program.requests.2 r (hp.perm.subset (List.mem_append_right _ List.mem_cons_self))
  have hget := getElem?_findIdx h.program.requests.1
    (hp.perm.subset (List.mem_append_right _ List.mem_cons_self))
  obtain ⟨hlt, -⟩ := List.getElem?_eq_some_iff.1 hget
  obtain ⟨p, hs⟩ := SamplerProgram.retrieve_ok h.program hwaits
    (i := ⟨_, likelihoods c r.data, acceptRand, swapRand, now⟩) hlt
  obtain ⟨hprogram, sent, hsent, hadvance⟩ := advance_eq hc h.program hs (answered.map (reply c))
  refine ⟨r, _, { s with
      program := p
      toDelegator := s.toDelegator ++ sent.map (message c)
      toRequester := answered.map (reply c) }, hget, rfl, hs, ?_, rfl, hprogram, h.cluster, h.watched,
    waiting ++ sent, pending, answered, hp.retrieve h.program hsent⟩
  simp only [step, hm, retrieve_reply hc hr.1]
  exact hadvance

/-! ## Runs -/

/-- Requests of others are admitted, when they are requests under keys that are not pending. -/
def Allowed (c : Deployment P F) (s : Service P F d) : Act F d → Prop
  | .other (.request m) => s.cluster.Allowed (.request m) ∧ Foreign c m
  | _ => True

/-- A result that is retrieved holds the likelihoods of the sample of its request. -/
def Evaluated (c : Deployment P F) (p : SamplerProgram P (Fin d → F) F) :
    SamplerProgram.Act (Fin d → F) F → Prop
  | .retrieve i => ∃ r, (SamplerProgram.outstanding c.toSetup p)[i.index]? = some r ∧
      i.results = likelihoods c r.data
  | _ => True

/-- The program is where it was, or it took a step with the likelihoods of a sample. -/
def Refines (c : Deployment P F) (p p' : SamplerProgram P (Fin d → F) F) : Prop :=
  p' = p ∨ ∃ b, Evaluated c p b ∧ SamplerProgram.step c.toSetup p b = some p'

/-- The program takes a step when the service does. -/
theorem advance_eq_some {a : SamplerProgram.Act (Fin d → F) F} {toRequester : List Message}
    (h : s.advance c a toRequester = some s') :
    SamplerProgram.step c.toSetup s.program a = some s'.program := by
  unfold advance at h
  obtain ⟨p, hp, h⟩ := Option.bind_eq_some_iff.1 h
  dsimp only at h
  split at h
  · cases h
    exact hp
  · cases h

omit [Double F] [Inhabited F] [Proposal P (Fin d → F) F] in
theorem afterCluster_eq_some {res : Option (Cluster F × List Message)}
    (h : s.afterCluster c res = some s') :
    ∃ cluster out, res = some (cluster, out) ∧
      s' = { s with cluster, toRequester := s.toRequester ++ arriving c out } := by
  unfold afterCluster at h
  split at h
  · rename_i cluster out
    cases h
    exact ⟨cluster, out, rfl, rfl⟩
  · cases h

/-- **Every step keeps the invariant**, and refines the program. -/
theorem inv_step (hc : c.OK d) (h : Inv c w s) {a : Act F d} (hok : Allowed c s a)
    (hs : s.step c a = some s') (hbound : s'.cluster.created < 2 ^ 32) :
    (∃ w', Inv c w' s') ∧ Refines c s.program s'.program := by
  -- a step of the program that waits for nothing
  have hown (b : SamplerProgram.Act (Fin d → F) F) (hev : Evaluated c s.program b)
      (hleft : SamplerProgram.left c.toSetup s.program b =
        SamplerProgram.outstanding c.toSetup s.program)
      (hs : s.advance c b s.toRequester = some s') :
      (∃ w', Inv c w' s') ∧ Refines c s.program s'.program := by
    have hp := advance_eq_some hs
    obtain ⟨s₁, hs₁, -, -, hi⟩ := inv_advance hc h hp hleft
    obtain rfl : s' = s₁ := Option.some.inj (hs.symm.trans hs₁)
    exact ⟨⟨w, hi⟩, .inr ⟨b, hev, hp⟩⟩
  cases a with
  | generate sample => exact hown (.generate sample) trivial rfl hs
  | start => exact hown .start trivial rfl hs
  | stop => exact hown .stop trivial rfl hs
  | finish => exact hown .finish trivial rfl hs
  | retrieve acceptRand swapRand now =>
    cases hm : s.toRequester with
    | nil =>
      simp only [step, hm] at hs
      cases hs
    | cons m rest =>
      have hwaits : SamplerProgram.Waits c.toSetup s.program := by
        simp only [step, hm] at hs
        split at hs
        · exact SamplerProgram.waits_of_retrieve h.program (advance_eq_some hs)
        · cases hs
      obtain ⟨r, i, s₁, hget, hresults, hp, hs₁, -, hi⟩ :=
        inv_retrieve hc h hm acceptRand swapRand now hwaits
      obtain rfl : s' = s₁ := Option.some.inj (hs.symm.trans hs₁)
      exact ⟨⟨w, hi⟩, .inr ⟨.retrieve i, ⟨r, hget, hresults⟩, hp⟩⟩
  | request =>
    cases hm : s.toDelegator with
    | nil =>
      simp only [step, hm] at hs
      cases hs
    | cons m rest =>
      simp only [step, hm] at hs
      obtain ⟨cluster, out, hcl, rfl⟩ := afterCluster_eq_some hs
      obtain ⟨r, -, -, -, -, hr, -, hallowed, hgrowth⟩ := h.next_request hc hm
      -- the jobs of the request are counted
      have hcreated : cluster.created = s.cluster.created + c.nJobTypes := by
        rw [hr] at hcl
        cases Cluster.step_cases hcl with
        | event hreads hrun =>
          cases hreads with
          | request =>
            have hcount := Cluster.created_of_reads .request hallowed hrun
            rw [hgrowth] at hcount
            exact hcount
      obtain ⟨cluster', w', hcl', hi⟩ := inv_request hc h hm (by rw [← hcreated]; exact hbound)
      rw [hcl] at hcl'
      cases hcl'
      refine ⟨⟨w', ?_⟩, .inl rfl⟩
      simpa only [arriving, List.filter_nil, List.map_nil, List.append_nil] using hi
  | other a =>
    obtain ⟨cluster, out, hcl, rfl⟩ := afterCluster_eq_some hs
    refine ⟨?_, .inl rfl⟩
    have hnil : s.toRequester ++ arriving c [] = s.toRequester := List.append_nil _
    cases Cluster.step_cases hcl with
    | take hm hr =>
      rw [hnil]
      exact ⟨w, inv_worker h (Cluster.inv_take h.cluster hm hr).1
        (Cluster.watched_take h.watched hm hr _)⟩
    | work hr =>
      rw [hnil]
      exact ⟨w, inv_worker h (Cluster.inv_work h.cluster hr).1
        (Cluster.watched_work h.cluster h.watched hr)⟩
    | @event _ e _ _ _ hreads hrun =>
      have hallowed : s.cluster.Allowed a := by
        cases a with
        | request m => exact hok.1
        | _ => trivial
      have hforeign : ∀ m now fails, e = Event.recv .requester m now fails → Foreign c m := by
        cases hreads with
        | request =>
          rintro m now fails ⟨⟩
          exact hok.2
        | _ => rintro m now fails ⟨⟩
      have hgrown := Cluster.created_of_reads hreads hallowed hrun
      obtain ⟨cluster', out', w', hcl', hi⟩ :=
        inv_event hc h hreads hallowed hforeign (by rw [← hgrown]; exact hbound)
      rw [hcl] at hcl'
      cases hcl'
      exact ⟨w', hi⟩

theorem created_le {a : Act F d} (hs : s.step c a = some s') :
    s.cluster.created ≤ s'.cluster.created := by
  -- a step of the program is none of the cluster
  have hown {b : SamplerProgram.Act (Fin d → F) F} {toRequester : List Message}
      (hs : s.advance c b toRequester = some s') : s.cluster.created ≤ s'.cluster.created := by
    unfold advance at hs
    obtain ⟨p, -, hs⟩ := Option.bind_eq_some_iff.1 hs
    dsimp only at hs
    split at hs
    · cases hs
      exact le_rfl
    · cases hs
  cases a with
  | generate sample => exact hown hs
  | start => exact hown hs
  | stop => exact hown hs
  | finish => exact hown hs
  | retrieve acceptRand swapRand now =>
    simp only [step] at hs
    split at hs
    · cases hs
    · split at hs
      · exact hown hs
      · cases hs
  | request =>
    simp only [step] at hs
    split at hs
    · cases hs
    · obtain ⟨cluster, out, hcl, rfl⟩ := afterCluster_eq_some hs
      exact Cluster.created_le hcl
  | other a =>
    obtain ⟨cluster, out, hcl, rfl⟩ := afterCluster_eq_some hs
    exact Cluster.created_le hcl

/-- **Every run keeps the invariant**, and is a run of the program. -/
theorem inv_of_reach (hc : c.OK d) {as : List (Act F d)} (h : Reach (step c) (Allowed c) (init c) as s)
    (hbound : s.cluster.created < 2 ^ 32) :
    (∃ w, Inv c w s) ∧
      ∃ bs, Reach (SamplerProgram.step c.toSetup) (Evaluated c) (.starting []) bs s.program := by
  refine (h.bounded (fun _ _ _ hs => created_le hs) hbound).invariant (P := fun _ s => (∃ w, Inv c w s) ∧
    ∃ bs, Reach (SamplerProgram.step c.toSetup) (Evaluated c) (.starting []) bs s.program)
    ⟨⟨_, .init c⟩, [], .start⟩ ?_
  rintro as s a s' - ⟨⟨w, hi⟩, bs, hbs⟩ ⟨hok, hlt⟩ hs
  obtain ⟨hi', hrefines⟩ := inv_step hc hi hok hs (hlt s' hs)
  refine ⟨hi', ?_⟩
  rcases hrefines with hsame | ⟨b, hev, hb⟩
  · rw [hsame]
    exact ⟨bs, hbs⟩
  · exact ⟨bs ++ [b], hbs.next hev hb⟩

/-- **The service computes what the sampler computes on its own**: whatever the order in which the
workers come, go and answer, a run of the service is a run of `runSampler` in which each result that
is retrieved holds the likelihoods of the sample of the request that it answers. -/
theorem service_refines (hc : c.OK d) {as : List (Act F d)}
    (h : Reach (step c) (Allowed c) (init c) as s) (hbound : s.cluster.created < 2 ^ 32) :
    ∃ bs, Reach (SamplerProgram.step c.toSetup) (Evaluated c) (.starting []) bs s.program :=
  (inv_of_reach hc h hbound).2

/-- One chain, one job type, and a likelihood that is zero, of a sample that is. -/
noncomputable def oneChain : Deployment (Drawn ℝ 1) ℝ where
  nstacks := 1
  ntemps := 1
  nJobTypes := 1
  swapInterval := 1
  optimalAcceptRate := 0.5
  optimalSwapRate := 0.5
  nsamples := 1
  proposal := ⟨.init ⟨fun _ => -1, fun _ => 1⟩ 100, fun _ _ => 0, []⟩
  now := 0
  me := "A-B".toList
  range _ := []
  port := 5555
  workerCount := 0
  stod _ := some 0
  to_string _ := "0.000000".toList
  lhFn _ _ := 0

theorem oneChain_ok : oneChain.OK 1 where
  legible _ := ⟨show "0.000000".toList ≠ [] by decide, show ':' ∉ "0.000000".toList by decide, rfl⟩
  dims := Nat.one_pos
  types := ⟨by decide, by decide⟩
  interval := by decide
  chains := by decide
  me := ⟨by decide, by decide⟩
  hello _ := ⟨List.cons_ne_nil _ _, [], [], rfl, .inl rfl⟩

/-- A worker connects and answers the request for the first sample. -/
def toAnswer : List (Act ℝ 1) :=
  [.generate fun _ => 0, .request, .other (.work ['w'] .fromMinion), .other (.deliver ['w'] 0),
    .other (.poll fun _ => 0), .other (.take ['w']), .other (.work ['w'] .nextJob),
    .other (.work ['w'] .submitResult), .other (.work ['w'] .fromMinion), .other (.deliver ['w'] 1)]

set_option maxRecDepth 8000 in
/-- The answer is there, and it is retrieved. -/
theorem toAnswer_run : ∃ s s' : Service (Drawn ℝ 1) ℝ 1,
    Reach (step oneChain) (Allowed oneChain) (init oneChain) toAnswer s ∧
    s.step oneChain (.retrieve 0 0 0) = some s' ∧ s.toRequester ≠ [] ∧ s'.cluster.created = 1 ∧
    s.cluster.created = 1 ∧ ∃ sample energy, s'.program = .starting [(sample, energy)] := by
  have h : Reach (step oneChain) (Allowed oneChain) (init oneChain : Service _ _ 1) [] _ := .start
  have h := h.next' (e := .generate fun _ => 0) (by exact trivial) (by rfl)
  have h := h.next' (e := .request) (by exact trivial) (by decide)
  have h := h.next' (e := .other (.work ['w'] .fromMinion)) (by exact trivial) (by decide)
  have h := h.next' (e := .other (.deliver ['w'] 0)) (by exact trivial) (by decide)
  have h := h.next' (e := .other (.poll fun _ => 0)) (by exact trivial) (by decide)
  have h := h.next' (e := .other (.take ['w'])) (by exact trivial) (by decide)
  have h := h.next' (e := .other (.work ['w'] .nextJob)) (by exact trivial) (by decide)
  have h := h.next' (e := .other (.work ['w'] .submitResult)) (by exact trivial) (by decide)
  have h := h.next' (e := .other (.work ['w'] .fromMinion)) (by exact trivial) (by decide)
  have h := h.next' (e := .other (.deliver ['w'] 1)) (by exact trivial) (by decide)
  exact ⟨_, _, h, (Option.some_get (by decide)).symm, by decide, by decide, by decide, _, _, rfl⟩

/-- The first sample is evaluated. -/
theorem service_refines_run : ∃ s : Service (Drawn ℝ 1) ℝ 1,
    Reach (step oneChain) (Allowed oneChain) (init oneChain) (toAnswer ++ [.retrieve 0 0 0]) s ∧
    (∃ sample energy, s.program = .starting [(sample, energy)]) ∧
    ∃ bs, Reach (SamplerProgram.step oneChain.toSetup) (Evaluated oneChain) (.starting []) bs
      s.program := by
  obtain ⟨s, s', h, hs, -, hcreated, -, hprogram⟩ := toAnswer_run
  have h' := h.next (e := .retrieve 0 0 0) (by exact trivial) hs
  exact ⟨s', h', hprogram, service_refines oneChain_ok h' (by rw [hcreated]; decide)⟩

/-- **No request is lost or doubled, and nothing fails**: each request outstanding is on its way to the
delegator, or pending there, or its likelihoods are on their way back, and what is there to be read
is read. -/
theorem service_conserves (hc : c.OK d) {as : List (Act F d)}
    (h : Reach (step c) (Allowed c) (init c) as s) (hbound : s.cluster.created < 2 ^ 32) :
    (∃ waiting pending answered : List (SampleRequest (Fin d → F)),
      (waiting ++ pending ++ answered).Perm (SamplerProgram.outstanding c.toSetup s.program) ∧
      s.toDelegator = waiting.map (message c) ∧
      (∀ k, (∃ r, s.cluster.del.requests[k]? = some r ∧ r.address.getLast? = some c.me) ↔
        ∃ q ∈ pending, key (asked c q) = k) ∧
      s.toRequester = answered.map (reply c)) ∧
    (s.toDelegator ≠ [] → s.cluster.created + c.nJobTypes < 2 ^ 32 → (s.step c .request).isSome) ∧
    (∀ a e c₁, s.cluster.Reads a e c₁ → Allowed c s (.other a) →
      s.cluster.created + World.growth e < 2 ^ 32 → (s.step c (.other a)).isSome) ∧
    (s.toRequester ≠ [] → SamplerProgram.Waits c.toSetup s.program → ∀ acceptRand swapRand now,
      (s.step c (.retrieve acceptRand swapRand now)).isSome) := by
  obtain ⟨⟨w, hi⟩, -⟩ := inv_of_reach hc h hbound
  refine ⟨?_, ?_, ?_, ?_⟩
  · obtain ⟨waiting, pending, answered, hp⟩ := hi.places
    refine ⟨waiting, pending, answered, hp.perm, hp.toDelegator, ?_, hp.toRequester⟩
    intro k
    rw [← hi.watched.del]
    constructor
    · rintro ⟨r, hr, hme⟩
      exact hp.ours k r hr hme
    · rintro ⟨q, hq, rfl⟩
      obtain ⟨r, hr⟩ := mem_iff_getElem?.1 (hp.atDelegator q hq).1
      refine ⟨r, hr, ?_⟩
      rw [← hp.address hi.watched.inv hr, segments_key (plain_asked hc q)]
      rfl
  · intro hne hlt
    obtain ⟨m, rest, hm⟩ := List.exists_cons_of_ne_nil hne
    obtain ⟨cluster, w', hcl, -⟩ := inv_request hc hi hm hlt
    simp only [step, hm, hcl]
    rfl
  · intro a e c₁ hr hok hlt
    have hallowed : s.cluster.Allowed a := by
      cases a with
      | request m => exact hok.1
      | _ => trivial
    obtain ⟨del, sends, w', hrun, -⟩ :=
      Cluster.watched_event hi.cluster hi.watched hr hc.hello hallowed hlt
    simp only [step, Cluster.step_of_reads hr hrun]
    rfl
  · intro hne hwaits acceptRand swapRand now
    obtain ⟨m, rest, hm⟩ := List.exists_cons_of_ne_nil hne
    obtain ⟨r, i, s', -, -, -, hs, -⟩ := inv_retrieve hc hi hm acceptRand swapRand now hwaits
    rw [hs]
    rfl

/-- The answer to the first request is retrieved. -/
theorem service_conserves_run : ∃ s : Service (Drawn ℝ 1) ℝ 1,
    Reach (step oneChain) (Allowed oneChain) (init oneChain) toAnswer s ∧ s.toRequester ≠ [] ∧
    ∃ answered : List (SampleRequest (Fin 1 → ℝ)),
      answered.Subperm (SamplerProgram.outstanding oneChain.toSetup s.program) ∧
      s.toRequester = answered.map (reply oneChain) := by
  obtain ⟨s, -, h, -, hne, -, hcreated, -⟩ := toAnswer_run
  obtain ⟨⟨waiting, pending, answered, hperm, -, -, hto⟩, -⟩ :=
    service_conserves oneChain_ok h (by rw [hcreated]; decide)
  exact ⟨s, h, hne, answered, (List.sublist_append_right _ _).subperm.trans hperm.subperm, hto⟩

end Service

end Stateline
