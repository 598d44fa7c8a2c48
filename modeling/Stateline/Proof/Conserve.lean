import Stateline.Proof.World

/-!
# Job conservation

* `Inv.change`: the three effects of an admissible event keep the invariant.
* `inv_of_reach`: it holds in every run that creates fewer than `2 ^ 32` jobs.
* `jobs_conserved`: **no job is lost or duplicated.** Every part of a pending
  request is either answered or carried by exactly one outstanding job, which is
  in exactly one place.
-/

namespace Stateline

open Std Lib Delegator

variable {w w' : World} {e : Event}

/-! ## The jobs of a new request -/

theorem newTickets_index (n : ℕ) (m : Message) :
    (newTickets n m).map Ticket.requesterIndex = List.range (typesOf m).length := by
  unfold newTickets
  rw [List.map_map, List.range_eq_range', ← List.zipIdx_map_snd 0 (typesOf m)]
  rfl

theorem mem_newTickets {n : ℕ} {m : Message} {t : Ticket} (h : t ∈ newTickets n m) :
    t.requesterID = key m ∧ (typesOf m)[t.requesterIndex]? = some t.type ∧
      t.id = toStr (n + t.requesterIndex) := by
  unfold newTickets at h
  obtain ⟨p, hp, rfl⟩ := List.mem_map.1 h
  exact ⟨rfl, List.mem_zipIdx_iff_getElem?.1 hp, rfl⟩

theorem newTickets_ids (n : ℕ) (m : Message) :
    (newTickets n m).map Ticket.id = (List.range (typesOf m).length).map fun i => toStr (n + i) := by
  rw [← newTickets_index n m, List.map_map]
  exact List.map_congr_left fun t ht => (mem_newTickets ht).2.2

theorem newTickets_ids_nodup (n : ℕ) (m : Message) : ((newTickets n m).map Ticket.id).Nodup := by
  rw [newTickets_ids]
  exact List.nodup_range.map fun i j h => by simpa only [toStr_inj, Nat.add_left_cancel_iff] using h

/-! ## Keys and numbers -/

/-- Requests pending under different keys have different numbers. -/
theorem number_inj (hinv : Inv w) {k k' : Str} {r r' : Request} (hr : w.del.requests[k]? = some r)
    (hr' : w.del.requests[k']? = some r') (h : w.number k = w.number k') : k = k' := by
  obtain ⟨q, hq, hk, -⟩ := (hinv.pending k r hr).asked
  obtain ⟨q', hq', hk', -⟩ := (hinv.pending k' r' hr').asked
  rw [h, hq'] at hq
  injection hq with hq
  rw [← hk, ← hk', hq]

/-- No job is outstanding for a key that is not pending. -/
theorem ticketsOf_eq_zero (hinv : Inv w) {k : Str} (hk : k ∉ w.del.requests) :
    w.del.ticketsOf k = 0 := by
  refine Multiset.filter_eq_nil.2 fun t ht htk => hk ?_
  obtain ⟨r, hr, -⟩ := hinv.typed t ht
  exact htk ▸ mem_iff_getElem?.2 ⟨r, hr⟩

/-- Answering an open part removes it from the unanswered ones. -/
theorem unanswered_record {n i size : ℕ} {a : Str} (hi : i ∈ w.unanswered n size) :
    i ::ₘ { w with answers := Gather.record w.answers n i a }.unanswered n size =
      w.unanswered n size := by
  have hnd : (w.unanswered n size).Nodup := (Multiset.nodup_range size).filter _
  rw [← Multiset.cons_erase hi]
  congr 1
  refine (Multiset.Nodup.ext ((Multiset.nodup_range size).filter _) (hnd.erase i)).2 ?_
  intro j
  rw [hnd.mem_erase_iff]
  simp only [World.unanswered, Multiset.mem_filter, Multiset.mem_range]
  rcases eq_or_ne j i with rfl | hji
  · simp
  · simp [hji, Gather.record_of_ne_part hji]

/-! ## The invariant is kept -/

theorem Inv.init (nJobTypes workerCount : ℕ) : Inv (.init nJobTypes workerCount) := by
  have ht : (Delegator.init nJobTypes workerCount).tickets = 0 := by
    simp [tickets_eq, Delegator.init]
  refine ⟨All.empty, rfl, ?_, ?_, ?_, All.empty, fun _ _ _ => rfl⟩
  · rw [World.init, ht]; simp
  · rw [World.init, ht]; simp
  · rw [World.init, ht]; simp

/-- Moving jobs around. -/
theorem Inv.moved (hinv : Inv w) {d : Delegator} (hd : Moved w.del d) {out : List Send} :
    Inv { w with del := d, sent := w.sent ++ out } where
  workers := hd.workers
  nextJobId := hd.nextJobId.trans hinv.nextJobId
  ids := by simp only [hd.tickets]; exact hinv.ids
  id_lt := by simp only [hd.tickets]; exact hinv.id_lt
  typed := by simp only [hd.tickets, hd.requests]; exact hinv.typed
  pending k r hr := by
    simp only [hd.requests] at hr
    have h := hinv.pending k r hr
    have ht : d.ticketsOf k = w.del.ticketsOf k := by unfold ticketsOf; rw [hd.tickets]
    exact ⟨h.asked, h.results, by simp only [ht]; exact h.parts, by simp only [ht]; exact h.left,
      by simp only [ht]; exact h.count, h.filled⟩
  unasked := hinv.unasked

/-! ## A new request -/

/-- The delegator `d`, and a request more in the record. -/
def World.ask (w : World) (d : Delegator) (m : Message) : World :=
  { w with del := d, asked := w.asked ++ [m],
           number := Function.update w.number (key m) w.asked.length }

section Ask

variable {m : Message} {d : Delegator} {n : ℕ} {k : Str} {r : Request}

theorem number_ask_self : (w.ask d m).number (key m) = w.asked.length := Function.update_self _ _ _

theorem number_ask_of_ne (hk : k ≠ key m) : (w.ask d m).number k = w.number k :=
  Function.update_of_ne hk _ _

theorem created_ask : (w.ask d m).created = w.created + (typesOf m).length := by
  simp [World.ask, World.created]

/-- The jobs of the new request are the new ones. -/
theorem ticketsOf_ask_self (hinv : Inv w) (hm : RequestOK w.del m)
    (ht : d.tickets = w.del.tickets + (newTickets n m : List Ticket)) :
    d.ticketsOf (key m) = (newTickets n m : List Ticket) := by
  have hnew : ((newTickets n m : List Ticket) : Multiset Ticket).filter (·.requesterID = key m) =
      newTickets n m :=
    Multiset.filter_eq_self.2 fun t htm => (mem_newTickets (Multiset.mem_coe.1 htm)).1
  have hold : w.del.ticketsOf (key m) = 0 := ticketsOf_eq_zero hinv hm.1
  unfold ticketsOf at hold ⊢
  rw [ht, Multiset.filter_add, hold, hnew, zero_add]

/-- Those of another one are as before. -/
theorem ticketsOf_ask_of_ne (ht : d.tickets = w.del.tickets + (newTickets n m : List Ticket))
    (hk : k ≠ key m) :
    d.ticketsOf k = w.del.ticketsOf k := by
  have hnew : ((newTickets n m : List Ticket) : Multiset Ticket).filter (·.requesterID = k) = 0 := by
    rw [Multiset.filter_eq_nil]
    intro t htm he
    exact hk (he.symm.trans (mem_newTickets (Multiset.mem_coe.1 htm)).1)
  unfold ticketsOf
  rw [ht, Multiset.filter_add, hnew, add_zero]

/-- The new request is pending, and none of its parts is answered. -/
theorem pending_ask_self (hinv : Inv w) (hm : RequestOK w.del m)
    (ht : d.tickets = w.del.tickets + (newTickets n m : List Ticket)) :
    Pending (w.ask d m) (key m) (requestOf m) := by
  have hall : (w.ask d m).del.ticketsOf (key m) = (newTickets n m : List Ticket) :=
    ticketsOf_ask_self hinv hm ht
  have hlen : (newTickets n m).length = (typesOf m).length := by
    rw [newTickets, List.length_map, List.length_zipIdx]
  have hsize : (requestOf m).jobTypes.size = (typesOf m).length := size_typeSet m
  have hopen : ∀ i, (w.ask d m).answers ((w.ask d m).number (key m)) i = none := by
    intro i
    rw [number_ask_self]
    exact hinv.unasked _ le_rfl i
  refine ⟨⟨m, ?_, rfl, rfl, rfl, rfl⟩, ?_, ?_, ?_, ?_, ?_⟩
  · rw [number_ask_self, World.ask, List.getElem?_append_right le_rfl, Nat.sub_self]
    rfl
  · rw [hsize, requestOf, List.length_replicate]
  · rw [hall, Multiset.map_coe, newTickets_index, hsize, World.unanswered,
      Multiset.filter_eq_self.2 fun i _ => hopen i]
    rfl
  · rw [hall, ne_eq, Multiset.coe_eq_zero]
    intro h0
    rw [h0, List.length_nil] at hlen
    exact typesOf_ne_nil hm (List.length_eq_zero_iff.1 hlen.symm)
  · rw [hall, Multiset.coe_card, hlen, hsize, requestOf, zero_add]
  · intro i a ha
    rw [hopen i] at ha
    cases ha

/-- A request under another key is still pending. -/
theorem Pending.ask (h : Pending w k r)
    (ht : d.tickets = w.del.tickets + (newTickets n m : List Ticket)) (hk : k ≠ key m) :
      Pending (w.ask d m) k r := by
  obtain ⟨q, hq, hrest⟩ := h.asked
  have hsame : (w.ask d m).del.ticketsOf k = w.del.ticketsOf k := ticketsOf_ask_of_ne ht hk
  have hnum : (w.ask d m).number k = w.number k := number_ask_of_ne hk
  refine ⟨⟨q, ?_, hrest⟩, h.results, ?_, ?_, ?_, ?_⟩
  · rw [hnum, World.ask, List.getElem?_append_left (List.getElem?_eq_some_iff.1 hq).1]
    exact hq
  · rw [hsame, hnum]
    exact h.parts
  · rw [hsame]
    exact h.left
  · rw [hsame]
    exact h.count
  · rw [hnum]
    exact h.filled

theorem Inv.ask (hinv : Inv w) (hm : RequestOK w.del m)
    (hw : d.workers = w.del.workers) (hreq : d.requests = w.del.requests.insert (key m) (requestOf m))
    (ht : d.tickets = w.del.tickets + (newTickets w.del.nextJobId m : List Ticket))
    (hid : d.nextJobId = w.del.nextJobId + (typesOf m).length) : Inv (w.ask d m) := by
  refine ⟨?_, ?_, ?_, ?_, ?_, ?_, ?_⟩
  · show d.WorkersOK
    unfold WorkersOK
    rw [hw]
    exact hinv.workers
  · rw [created_ask, ← hinv.nextJobId]
    exact hid
  · show (d.tickets.map Ticket.id).Nodup
    rw [ht, Multiset.map_add, Multiset.nodup_add, Multiset.map_coe, Multiset.coe_nodup]
    refine ⟨hinv.ids, newTickets_ids_nodup _ m, Multiset.disjoint_left.2 ?_⟩
    -- ids in use are below `nextJobId`
    intro s hs hs'
    obtain ⟨t, htm, rfl⟩ := Multiset.mem_map.1 hs
    obtain ⟨n, hn, hid⟩ := hinv.id_lt t htm
    obtain ⟨t', ht', he⟩ := List.mem_map.1 (Multiset.mem_coe.1 hs')
    rw [(mem_newTickets ht').2.2, hid, toStr_inj, hinv.nextJobId] at he
    omega
  · show ∀ t ∈ d.tickets, _
    intro t htm
    rw [ht, Multiset.mem_add, Multiset.mem_coe] at htm
    rw [created_ask]
    rcases htm with htm | htm
    · obtain ⟨n, hn, hid⟩ := hinv.id_lt t htm
      exact ⟨n, by omega, hid⟩
    · obtain ⟨-, htype, hid⟩ := mem_newTickets htm
      have hlt := (List.getElem?_eq_some_iff.1 htype).1
      exact ⟨_, by rw [hinv.nextJobId]; omega, hid⟩
  · show ∀ t ∈ d.tickets, ∃ r, d.requests[t.requesterID]? = some r ∧ _
    intro t htm
    rw [ht, Multiset.mem_add, Multiset.mem_coe] at htm
    simp only [hreq, getElem?_insert_eq]
    rcases htm with htm | htm
    · obtain ⟨r, hr, htype⟩ := hinv.typed t htm
      -- a pending request has another key
      have hne : key m ≠ t.requesterID := fun h => hm.1 (h ▸ mem_iff_getElem?.2 ⟨r, hr⟩)
      exact ⟨r, by rw [if_neg hne]; exact hr, htype⟩
    · obtain ⟨hk, htype, -⟩ := mem_newTickets htm
      exact ⟨requestOf m, by rw [hk, if_pos rfl], htype⟩
  · intro k r hr
    have hr' : d.requests[k]? = some r := hr
    rw [hreq, getElem?_insert_eq] at hr'
    split at hr'
    · rename_i hk
      injection hr' with hr'
      subst hk hr'
      exact pending_ask_self hinv hm ht
    · rename_i hk
      exact (hinv.pending k r hr').ask ht (Ne.symm hk)
  · intro n hn i
    have hn' : (w.asked ++ [m]).length ≤ n := hn
    rw [List.length_append, List.length_singleton] at hn'
    exact hinv.unasked n (by omega) i

end Ask

/-! ## A result -/

/-- The part of an outstanding job is not answered. -/
theorem mem_unanswered (hinv : Inv w) {t : Ticket} (ht : t ∈ w.del.tickets) {r : Request}
    (hr : w.del.requests[t.requesterID]? = some r) :
    t.requesterIndex ∈ w.unanswered (w.number t.requesterID) r.jobTypes.size := by
  rw [← (hinv.pending _ r hr).parts]
  exact Multiset.mem_map_of_mem _ (Multiset.mem_filter.2 ⟨ht, rfl⟩)

theorem ticketsOf_cons_self {d d' : Delegator} {t : Ticket} (h : d.tickets = t ::ₘ d'.tickets) :
    d.ticketsOf t.requesterID = t ::ₘ d'.ticketsOf t.requesterID := by
  unfold ticketsOf; rw [h]
  exact Multiset.filter_cons_of_pos (p := fun t' : Ticket => t'.requesterID = t.requesterID) _ rfl

theorem ticketsOf_cons_of_ne {d d' : Delegator} {t : Ticket} {k : Str}
    (h : d.tickets = t ::ₘ d'.tickets) (hk : t.requesterID ≠ k) : d.ticketsOf k = d'.ticketsOf k := by
  unfold ticketsOf; rw [h]
  exact Multiset.filter_cons_of_neg (p := fun t' : Ticket => t'.requesterID = k) _ hk

/-- The last outstanding job of a request is the one that completes it. -/
theorem last_iff (hinv : Inv w) {t : Ticket} {d : Delegator}
    (ht : w.del.tickets = t ::ₘ d.tickets) {r : Request}
    (hr : w.del.requests[t.requesterID]? = some r) :
    r.nDone + 1 = r.jobTypes.size ↔ d.ticketsOf t.requesterID = 0 := by
  have h := (hinv.pending _ r hr).count
  rw [ticketsOf_cons_self ht, Multiset.card_cons] at h
  rw [← Multiset.card_eq_zero]
  omega

/-- The delegator `d`, and an answer more in the record. -/
def World.hear (w : World) (d : Delegator) (n i : ℕ) (a : Str) (sent : List Send)
    (replies : List (ℕ × Message)) :
    World :=
  { w with del := d, answers := Gather.record w.answers n i a, sent, replies }

section Hear

variable {j : Job} {k a : Str} {r r' : Request} {d : Delegator} {sent : List Send}
    {replies : List (ℕ × Message)}

/-- The request with the result of one of its jobs. -/
def Delegator.Request.fill (r : Request) (i : ℕ) (a : Str) : Request :=
  { r with results := r.results.set i a, nDone := r.nDone + 1 }

/-- What becomes of the pending requests when the job is done. -/
theorem getElem?_requests
    (hreq : d.requests = if r.nDone + 1 = r.jobTypes.size then w.del.requests.erase j.requesterID
      else w.del.requests.insert j.requesterID (r.fill j.requesterIndex a)) (k : Str) :
    d.requests[k]? = if j.requesterID = k then
      (if r.nDone + 1 = r.jobTypes.size then none else some (r.fill j.requesterIndex a))
        else w.del.requests[k]? := by
  rw [hreq]
  split
  · rw [getElem?_erase_eq]
  · rw [getElem?_insert_eq]

/-- The request of the job, where other jobs of it are outstanding. -/
theorem Pending.hear_self (hinv : Inv w) (hr : w.del.requests[j.requesterID]? = some r)
    (ht : w.del.tickets = j.ticket ::ₘ d.tickets) (hleft : d.ticketsOf j.requesterID ≠ 0) :
    Pending (w.hear d (w.number j.requesterID) j.requesterIndex a sent replies) j.requesterID
      (r.fill j.requesterIndex a) := by
  have hpend := hinv.pending _ r hr
  have hopen : j.requesterIndex ∈ w.unanswered (w.number j.requesterID) r.jobTypes.size :=
    mem_unanswered hinv (ht ▸ Multiset.mem_cons_self _ _) hr
  have hcons : w.del.ticketsOf j.requesterID = j.ticket ::ₘ d.ticketsOf j.requesterID :=
    ticketsOf_cons_self ht
  have hparts := hpend.parts
  rw [hcons, Multiset.map_cons, ← unanswered_record (a := a) hopen] at hparts
  have hcount := hpend.count
  rw [hcons, Multiset.card_cons] at hcount
  refine ⟨hpend.asked, ?_, (Multiset.cons_inj_right _).1 hparts, hleft, ?_, ?_⟩
  · rw [Request.fill, List.length_set]
    exact hpend.results
  · show r.nDone + 1 + (d.ticketsOf j.requesterID).card = r.jobTypes.size
    omega
  · intro i b hb
    have hidx : j.requesterIndex < r.results.length := by
      rw [hpend.results]
      exact Multiset.mem_range.1 (Multiset.mem_filter.1 hopen).1
    have hb' : Gather.record w.answers (w.number j.requesterID) j.requesterIndex a
        (w.number j.requesterID) i = some b := hb
    rw [Request.fill]
    rcases eq_or_ne i j.requesterIndex with rfl | hne
    · rw [Gather.record_self] at hb'
      rw [List.getElem?_set_self hidx]
      exact hb'
    · rw [Gather.record_of_ne_part hne] at hb'
      rw [List.getElem?_set_ne hne.symm]
      exact hpend.filled i b hb'

/-- Another pending request. -/
theorem Pending.hear (hinv : Inv w) (hr : w.del.requests[j.requesterID]? = some r)
    (ht : w.del.tickets = j.ticket ::ₘ d.tickets) (hr' : w.del.requests[k]? = some r')
    (hk : j.requesterID ≠ k) :
    Pending (w.hear d (w.number j.requesterID) j.requesterIndex a sent replies) k r' := by
  have h := hinv.pending k r' hr'
  have hsame : d.ticketsOf k = w.del.ticketsOf k := (ticketsOf_cons_of_ne ht hk).symm
  have hn : w.number k ≠ w.number j.requesterID := fun he => hk (number_inj hinv hr hr' he.symm)
  have hans : ∀ i, (w.hear d (w.number j.requesterID) j.requesterIndex a sent replies).answers
      (w.number k) i =
      w.answers (w.number k) i := fun i => Gather.record_of_ne hn
  refine ⟨h.asked, h.results, ?_, ?_, ?_, ?_⟩
  · have hopen : (w.hear d (w.number j.requesterID) j.requesterIndex a sent replies).unanswered
        (w.number k)
        r'.jobTypes.size = w.unanswered (w.number k) r'.jobTypes.size := by
      simp only [World.unanswered, hans]
    show (d.ticketsOf k).map Ticket.requesterIndex = _
    rw [hsame, h.parts]
    exact hopen.symm
  · show d.ticketsOf k ≠ 0
    rw [hsame]
    exact h.left
  · show r'.nDone + (d.ticketsOf k).card = r'.jobTypes.size
    rw [hsame]
    exact h.count
  · intro i b hb
    exact h.filled i b ((hans i).symm.trans hb)

theorem Inv.hear (hinv : Inv w) (hr : w.del.requests[j.requesterID]? = some r) (hok : d.WorkersOK)
    (ht : w.del.tickets = j.ticket ::ₘ d.tickets) (hid : d.nextJobId = w.del.nextJobId)
    (hreq : d.requests = if r.nDone + 1 = r.jobTypes.size then w.del.requests.erase j.requesterID
      else w.del.requests.insert j.requesterID (r.fill j.requesterIndex a)) :
    Inv (w.hear d (w.number j.requesterID) j.requesterIndex a sent replies) := by
  have hmem : ∀ t ∈ d.tickets, t ∈ w.del.tickets := fun t h => ht ▸ Multiset.mem_cons_of_mem h
  have hlast : r.nDone + 1 = r.jobTypes.size ↔ d.ticketsOf j.requesterID = 0 := last_iff hinv ht hr
  refine ⟨hok, hid.trans hinv.nextJobId, ?_, fun t h => hinv.id_lt t (hmem t h), ?_, ?_, ?_⟩
  · have h := hinv.ids
    rw [ht, Multiset.map_cons, Multiset.nodup_cons] at h
    exact h.2
  · show ∀ t ∈ d.tickets, ∃ r, d.requests[t.requesterID]? = some r ∧ _
    intro t h
    obtain ⟨r', hr', htype⟩ := hinv.typed t (hmem t h)
    rw [getElem?_requests hreq]
    by_cases hk : j.requesterID = t.requesterID
    · -- the request is still pending, as this job of it is outstanding
      have hne : ¬ r.nDone + 1 = r.jobTypes.size := by
        rw [hlast, hk]
        intro h0
        exact Multiset.eq_zero_iff_forall_notMem.1 h0 t (Multiset.mem_filter.2 ⟨h, rfl⟩)
      rw [← hk, hr] at hr'
      injection hr' with hr'
      subst hr'
      exact ⟨r.fill j.requesterIndex a, by rw [if_pos hk, if_neg hne], htype⟩
    · exact ⟨r', by rw [if_neg hk]; exact hr', htype⟩
  · intro k r' hr'
    have hr₁ : d.requests[k]? = some r' := hr'
    rw [getElem?_requests hreq] at hr₁
    by_cases hk : j.requesterID = k
    · rw [if_pos hk] at hr₁
      split at hr₁
      · cases hr₁
      · rename_i hne
        injection hr₁ with hr₁
        subst hr₁ hk
        exact Pending.hear_self hinv hr ht fun h0 => hne (hlast.2 h0)
    · rw [if_neg hk] at hr₁
      exact Pending.hear hinv hr ht hr₁ hk
  · intro n hn i
    obtain ⟨q, hq, -⟩ := (hinv.pending _ r hr).asked
    have hlt := (List.getElem?_eq_some_iff.1 hq).1
    have hn' : w.asked.length ≤ n := hn
    show Gather.record w.answers (w.number j.requesterID) j.requesterIndex a n i = none
    rw [Gather.record_of_ne (by omega)]
    exact hinv.unasked n hn i

end Hear

/-! ## Every event -/

/-- **Every admissible event keeps the invariant.** -/
theorem Inv.change (hinv : Inv w) (h : Change w e w') : Inv w' := by
  cases h with
  | moved _ hd _ => exact hinv.moved hd
  | request _ hm hw hreq ht hid => exact hinv.ask hm hw hreq ht hid
  | result _ hr hok ht hid hreq => exact hinv.hear hr hok ht hid hreq

/-- A step of a run that creates fewer than `2 ^ 32` jobs. -/
theorem change_of_step (hinv : Inv w) (hok : Admissible w e) (hs : w.step e = some w')
    (hc : w'.created < 2 ^ 32) :
    Change w e w' := by
  obtain ⟨w'', hs', h⟩ := step_change hinv hok (World.not_networkGoodbye hs)
    (by rw [← created_step hs]; exact hc)
  rw [hs] at hs'
  injection hs' with hs'
  exact hs' ▸ h

/-- An event of a run that creates fewer than `2 ^ 32` jobs in all. -/
def Bounded (ok : World → Event → Prop) (w : World) (e : Event) : Prop :=
  ok w e ∧ ∀ w', w.step e = some w' → w'.created < 2 ^ 32

theorem bounded_of_reach {ok : World → Event → Prop} {w₀ : World} {es : List Event}
    (h : Reach World.step ok w₀ es w) (hc : w.created < 2 ^ 32) :
      Reach World.step (Bounded ok) w₀ es w :=
  h.bounded (fun _ _ _ hs => by have := created_step hs; omega) hc

/-- **The invariant holds in every run** that creates fewer than `2 ^ 32` jobs. -/
theorem inv_of_reach {nJobTypes workerCount : ℕ} {es : List Event}
    (h : Reach World.step (Bounded Admissible) (.init nJobTypes workerCount) es w) : Inv w :=
  h.invariant (P := fun _ w => Inv w) (.init _ _) fun _ _ _ v' _ ih hok hs =>
    ih.change (change_of_step ih hok.1 hs (hok.2 v' hs))

/-! ## Conservation -/

/-- The job carries part `i` of the request under `k`. -/
def carries (k : Str) (i : ℕ) (j : Job) : Bool := j.requesterID = k ∧ j.requesterIndex = i

/-- The job is one of the request under `k`. -/
def isFor (k : Str) (j : Job) : Bool := j.requesterID = k

/-- One job satisfies `p`, and it is in one place: once in the queue and at no worker, or not
in the queue and once at exactly one worker. -/
def OnePlace (d : Delegator) (p : Job → Bool) : Prop :=
  (d.jobQueue.countP p = 1 ∧
    ∀ (x : Str) (w : Worker), d.workers[x]? = some w → (vals w.workInProgress).countP p = 0) ∨
  (d.jobQueue.countP p = 0 ∧
    ∃ (x : Str) (w : Worker), d.workers[x]? = some w ∧ (vals w.workInProgress).countP p = 1 ∧
      ∀ (x' : Str) (w' : Worker), x' ≠ x → d.workers[x']? = some w' →
        (vals w'.workInProgress).countP p = 0)

/-- No job is lost or duplicated. -/
structure Conserved (w : World) : Prop where
  /-- Every outstanding job is one of a pending request. -/
  refers : ∀ j ∈ w.del.outstanding, j.requesterID ∈ w.del.requests
  /-- A part of a pending request is delivered, and then in its place in the results, or it is
  carried by exactly one job, in one place. -/
  carried : ∀ k r, w.del.requests[k]? = some r → ∀ i < r.jobTypes.size,
    ((∃ a, w.answers (w.number k) i = some a ∧ r.results[i]? = some a) ∧
      w.del.outstanding.countP (carries k i) = 0) ∨
    (w.answers (w.number k) i = none ∧ OnePlace w.del (carries k i))
  /-- The delivered and the outstanding parts make up the request, and one is outstanding. -/
  counted : ∀ k r, w.del.requests[k]? = some r →
    r.nDone + w.del.outstanding.countP (isFor k) = r.jobTypes.size ∧
      0 < w.del.outstanding.countP (isFor k)

theorem countP_outstanding (d : Delegator) (p : Job → Bool) : d.outstanding.countP p =
    d.jobQueue.countP p + total (fun w => (vals w.workInProgress).countP p) d.workers := by
  unfold outstanding total
  rw [List.countP_append, List.countP_flatMap]
  rfl

/-- A job that is outstanding once is in one place. -/
theorem onePlace_of_countP {d : Delegator} {p : Job → Bool} (h : d.outstanding.countP p = 1) :
    OnePlace d p := by
  rw [countP_outstanding] at h
  rcases Nat.eq_zero_or_pos (d.jobQueue.countP p) with h0 | hpos
  · exact Or.inr ⟨h0, exists_unique_of_total_eq_one (by omega)⟩
  · refine Or.inl ⟨by omega, ?_⟩
    intro x w hw
    rw [total_erase _ hw] at h
    omega

theorem countP_isFor (d : Delegator) (k : Str) :
    d.outstanding.countP (isFor k) = (d.ticketsOf k).card := by
  unfold ticketsOf tickets
  rw [Multiset.filter_coe, Multiset.coe_card, ← List.countP_eq_length_filter, List.countP_map]
  rfl

theorem countP_carries (d : Delegator) (k : Str) (i : ℕ) :
    d.outstanding.countP (carries k i) = ((d.ticketsOf k).map Ticket.requesterIndex).count i := by
  unfold ticketsOf tickets
  rw [Multiset.filter_coe, Multiset.map_coe, Multiset.coe_count, List.count, List.countP_map,
    List.countP_filter, List.countP_map]
  refine List.countP_congr ?_
  intro j _
  simp only [carries, Function.comp_apply, beq_iff_eq, Bool.and_eq_true, decide_eq_true_eq]
  exact and_comm

/-- The invariant, read as conservation. -/
theorem Inv.conserved (hinv : Inv w) : Conserved w where
  refers j hj := by
    obtain ⟨r, hr, -⟩ := hinv.typed _ (mem_tickets.2 ⟨j, hj, rfl⟩)
    exact mem_iff_getElem?.2 ⟨r, hr⟩
  carried k r hr i hi := by
    have h := hinv.pending k r hr
    have hcount := countP_carries w.del k i
    rw [h.parts] at hcount
    cases ha : w.answers (w.number k) i with
    | none =>
      have hmem : i ∈ w.unanswered (w.number k) r.jobTypes.size :=
        Multiset.mem_filter.2 ⟨Multiset.mem_range.2 hi, ha⟩
      have hnd : (w.unanswered (w.number k) r.jobTypes.size).Nodup := (Multiset.nodup_range _).filter _
      rw [Multiset.count_eq_one_of_mem hnd hmem] at hcount
      exact .inr ⟨rfl, onePlace_of_countP hcount⟩
    | some a =>
      have hmem : i ∉ w.unanswered (w.number k) r.jobTypes.size := fun hm => by
        rw [(Multiset.mem_filter.1 hm).2] at ha; cases ha
      rw [Multiset.count_eq_zero_of_notMem hmem] at hcount
      exact .inl ⟨⟨a, rfl, h.filled i a ha⟩, hcount⟩
  counted k r hr := by
    have h := hinv.pending k r hr
    rw [countP_isFor]
    exact ⟨h.count, Multiset.card_pos.2 h.left⟩

/-- The next event is handled exactly when it is no GOODBYE from the network, and then the jobs are
conserved. -/
theorem Inv.step_conserved_iff (hinv : Inv w) (hok : Admissible w e)
    (hlt : w.created + World.growth e < 2 ^ 32) :
    (∃ w', w.step e = some w' ∧ Conserved w') ↔ ¬ e.NetworkGoodbye := by
  refine ⟨fun ⟨_, hs, _⟩ => World.not_networkGoodbye hs, fun hbye => ?_⟩
  obtain ⟨w', hs, hchange⟩ := step_change hinv hok hbye hlt
  exact ⟨w', hs, (hinv.change hchange).conserved⟩

/-- **Job conservation**: after any admissible events without a GOODBYE from the network, in any
order, no job is lost or duplicated. The next admissible event is handled, and keeps it so, exactly
when it is no such GOODBYE. -/
theorem jobs_conserved {nJobTypes workerCount : ℕ} {es : List Event}
    (h : Reach World.step (fun w e => Admissible w e ∧ ¬ e.NetworkGoodbye)
      (.init nJobTypes workerCount) es w) (hc : w.created < 2 ^ 32) :
    Conserved w ∧ ∀ e, Admissible w e → w.created + World.growth e < 2 ^ 32 →
      ((∃ w', w.step e = some w' ∧ Conserved w') ↔ ¬ e.NetworkGoodbye) := by
  have hinv := inv_of_reach (bounded_of_reach (h.mono fun _ _ he => he.1) hc)
  exact ⟨hinv.conserved, fun e hok hlt => hinv.step_conserved_iff hok hlt⟩

/-! A run: a worker connects, a request for two jobs arrives and both are sent, the worker is timed out
and connects again, and answers the first one. -/

def helloEvent : Event := .recv .network ⟨[['w']], .hello, [[]]⟩ 0 false
def requestEvent : Event := .recv .requester ⟨[['r']], .request, ["1:0".toList, ['x']]⟩ 0 false
def pollEvent : Event := .poll (fun _ => 1) (fun _ => false)
def timeoutEvent : Event := .recv .heartbeat ⟨[['w']], .goodbye, []⟩ 2 false
def goodbyeEvent : Event := .recv .network ⟨[['w']], .goodbye, []⟩ 2 false
def resultEvent (id a : Str) : Event := .recv .network ⟨[['w']], .result, [id, a]⟩ 3 false

theorem helloEvent_admissible (w : World) : Admissible w helloEvent :=
  ⟨by decide, [], [], rfl, .inl rfl⟩

theorem requestEvent_admissible (h : key ⟨[['r']], .request, ["1:0".toList, ['x']]⟩ ∉ w.del.requests) :
    Admissible w requestEvent :=
  ⟨rfl, h, by decide, by decide, [1, 0], by decide, by decide, by decide⟩

set_option maxRecDepth 8000 in
theorem jobs_conserved_run :
    ∃ es w, es = [helloEvent, requestEvent, pollEvent, timeoutEvent, helloEvent, pollEvent,
      resultEvent ['0'] ['y']] ∧
    Reach World.step (fun w e => Admissible w e ∧ ¬ e.NetworkGoodbye) (.init 2 0) es w ∧
    w.created = 2 ∧ Conserved w := by
  have h : Reach World.step (fun w e => Admissible w e ∧ ¬ e.NetworkGoodbye) (.init 2 0) [] _ := .start
  have h := h.next' (e := helloEvent) ⟨helloEvent_admissible _, by decide⟩ (by decide)
  have h := h.next' (e := requestEvent) ⟨requestEvent_admissible (by decide), by decide⟩ (by decide)
  have h := h.next' (e := pollEvent) ⟨fun _ => rfl, by decide⟩ (by decide)
  have h := h.next' (e := timeoutEvent) ⟨⟨by decide, .inr rfl⟩, by decide⟩ (by decide)
  have h := h.next' (e := helloEvent) ⟨helloEvent_admissible _, by decide⟩ (by decide)
  have h := h.next' (e := pollEvent) ⟨fun _ => rfl, by decide⟩ (by decide)
  have h := h.next' (e := resultEvent ['0'] ['y']) ⟨.inr (by decide), by decide⟩ (by decide)
  exact ⟨_, _, rfl, h, by decide, (jobs_conserved h (by decide)).1⟩

set_option maxRecDepth 8000 in
/-- **A worker with two jobs says GOODBYE**: its callback is undefined, and in no next state are the
jobs back on the queue. -/
theorem goodbye_of_busy : ∃ w wk, Reach World.step Admissible (.init 2 0)
      [helloEvent, requestEvent, pollEvent] w ∧
    w.del.workers[['w']]? = some wk ∧ wk.workInProgress.keys = [['0'], ['1']] ∧
    Admissible w goodbyeEvent ∧ w.created + World.growth goodbyeEvent < 2 ^ 32 ∧
    w.del.handle goodbyeEvent = .error .undefined ∧
    ¬ ∃ w', w.step goodbyeEvent = some w' ∧ Conserved w' := by
  have h : Reach World.step Admissible (.init 2 0) [] _ := .start
  have h := h.next' (e := helloEvent) (helloEvent_admissible _) (by decide)
  have h := h.next' (e := requestEvent) (requestEvent_admissible (by decide)) (by decide)
  have h := h.next' (e := pollEvent) (fun _ => rfl) (by decide)
  refine ⟨_, _, h, (Option.some_get (by decide)).symm, by decide, show _ ≠ _ by decide, by decide,
    handle_networkGoodbye rfl, ?_⟩
  rintro ⟨w', hs, -⟩
  exact World.not_networkGoodbye hs rfl

end Stateline
