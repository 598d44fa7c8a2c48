import Stateline.Proof.Conserve

/-!
# Reply agreement

The delegator refines the ledger of `Lib.Gather`, whose parts are the jobs of a
request: `gather_of_change`. With workers that answer every job by a function `f`
of its type and data (`Honest`), the reply to a request is a function of the
request alone.

* `replies_agree`: **each request is replied to once, when the last of its jobs
  is answered, by `f` of its types in numeric order**, whichever workers ran the
  jobs and in whatever order they answered.
-/

namespace Stateline

open Std Lib Delegator

variable {w w' : World} {e : Event} {f : ℕ → Str → Str}

/-! ## The ledger -/

/-- The number of jobs of a request. -/
def parts (q : Message) : ℕ := (typesOf q).length

/-- The reply to a request whose results are `as`. -/
def replyOf (q : Message) (as : List Str) : Message := ⟨q.address, .result, as⟩

/-- The ledger that the observer keeps. -/
def World.ledger (w : World) : Gather Message Str Message := ⟨w.asked, w.answers, w.replies⟩

/-- The results of a request whose last job is answered are the answers. -/
theorem results_eq_collect (hinv : Inv w) {j : Job} {r : Request} {a : Str} {n : ℕ}
    (hr : w.del.requests[j.requesterID]? = some r) (hn : n = r.jobTypes.size)
    (hidx : j.requesterIndex < r.results.length)
    (hc : Gather.Complete (Gather.record w.answers (w.number j.requesterID) j.requesterIndex a)
      (w.number j.requesterID) n) :
    r.results.set j.requesterIndex a =
      Gather.collect (Gather.record w.answers (w.number j.requesterID) j.requesterIndex a)
        (w.number j.requesterID) n := by
  have h := hinv.pending _ r hr
  apply List.ext_getElem?
  intro i
  by_cases hi : i < n
  · rw [Gather.getElem?_collect hc hi]
    rcases eq_or_ne i j.requesterIndex with rfl | hne
    · rw [Gather.record_self, List.getElem?_set_self hidx]
    · obtain ⟨b, hb⟩ := Option.isSome_iff_exists.1 (hc i hi)
      rw [hb]
      rw [Gather.record_of_ne_part hne] at hb
      rw [List.getElem?_set_ne hne.symm]
      exact h.filled i b hb
  · rw [List.getElem?_eq_none, List.getElem?_eq_none]
    · rw [Gather.length_collect hc]; omega
    · rw [List.length_set, h.results]; omega

/-- **The delegator refines the ledger**: an admissible event is one step of it, or none. -/
theorem gather_of_change (hinv : Inv w) (h : Change w e w') :
    w'.ledger = w.ledger ∨ Gather.Step parts replyOf w.ledger w'.ledger := by
  cases h with
  | moved => exact .inl rfl
  | @request m d _ hm => exact .inr (.ask (List.length_pos_of_ne_nil (typesOf_ne_nil hm)))
  | @result j r a d _ hr _ ht _ _ =>
    right
    have hjt : j.ticket ∈ w.del.tickets := ht ▸ Multiset.mem_cons_self _ _
    have hopen : j.requesterIndex ∈ w.unanswered (w.number j.requesterID) r.jobTypes.size :=
      mem_unanswered hinv hjt hr
    obtain ⟨hlt, hnone⟩ := Multiset.mem_filter.1 hopen
    rw [Multiset.mem_range] at hlt
    have hpend := hinv.pending _ r hr
    obtain ⟨q, hq, -, haddr, htypes, -⟩ := hpend.asked
    have hsize : parts q = r.jobTypes.size := by rw [parts, htypes, size_typeSet]
    have hidx : j.requesterIndex < r.results.length := by rw [hpend.results]; exact hlt
    -- the last job outstanding is the last part unanswered
    have hiff : r.nDone + 1 = r.jobTypes.size ↔
        Gather.Complete (Gather.record w.answers (w.number j.requesterID) j.requesterIndex a)
          (w.number j.requesterID) (parts q) := by
      rw [last_iff hinv ht hr]
      have hcons : w.del.ticketsOf j.requesterID = j.ticket ::ₘ d.ticketsOf j.requesterID :=
        ticketsOf_cons_self ht
      have hparts := hpend.parts
      rw [hcons, Multiset.map_cons, ← unanswered_record (a := a) hopen] at hparts
      have hrest := (Multiset.cons_inj_right _).1 hparts
      rw [← Multiset.map_eq_zero (f := Ticket.requesterIndex)]
      show Multiset.map Ticket.requesterIndex (d.ticketsOf j.requesterID) = 0 ↔ _
      rw [hrest, World.unanswered, Multiset.filter_eq_nil, hsize]
      exact forall_congr' fun i => by rw [Multiset.mem_range, Option.isSome_iff_ne_none]
    by_cases hdone : r.nDone + 1 = r.jobTypes.size
    · have hc := hiff.1 hdone
      have hcol := results_eq_collect hinv hr hsize hidx hc
      have hs : Gather.Step parts replyOf w.ledger _ := .finish hq (hsize ▸ hlt) hnone hc
      simp only [World.ledger, if_pos hdone, hcol, haddr]
      exact hs
    · have hs : Gather.Step parts replyOf w.ledger _ :=
        .answer hq (hsize ▸ hlt) hnone fun hc => hdone (hiff.2 hc)
      simp only [World.ledger, if_neg hdone, List.append_nil]
      exact hs

/-- The record of a run is a sound ledger. -/
theorem ledger_sound {ok : World → Event → Prop} (hok : ∀ w e, ok w e → Admissible w e)
    {nJobTypes workerCount : ℕ} {es : List Event}
    (h : Reach World.step (Bounded ok) (.init nJobTypes workerCount) es w) :
    Inv w ∧ Gather.Sound parts replyOf w.ledger := by
  have h' : Reach World.step (Bounded Admissible) (.init nJobTypes workerCount) es w :=
    h.mono fun w e he => ⟨hok w e he.1, he.2⟩
  refine ⟨inv_of_reach h', Gather.sound (h'.simulates World.ledger ?_)⟩
  intro _ v e v' hv hok hs
  have hinv := inv_of_reach hv
  exact gather_of_change hinv (change_of_step hinv hok.1 hs (hok.2 v' hs))

/-! ## What was sent -/

/-- A RESULT of a connected worker carries `f` of a JOB that was sent under its id. -/
def Honest (f : ℕ → Str → Str) (w : World) (e : Event) : Prop :=
  ∀ j a, Names w e j a → ∃ addr t d, ⟨.network, ⟨addr, .job, [toStr t, j.id, d]⟩⟩ ∈ w.sent ∧ a = f t d

/-- Every JOB that was sent agrees with the outstanding job of its id, if there is one. -/
def SentOK (w : World) : Prop :=
  ∀ s ∈ w.sent, s.msg.subject = .job → ∃ t n d, n < w.created ∧ s.msg.data = [toStr t, toStr n, d] ∧
    ∀ tk ∈ w.del.tickets, tk.id = toStr n →
      tk.type = t ∧ ∃ r, w.del.requests[tk.requesterID]? = some r ∧ r.data = d

/-- A job ended leaves its request as it was, apart from the results. -/
theorem data_of_result {d d' : Delegator} {k : Str} {r : Request} {results : List Str}
    {n : ℕ} {p : Prop} [Decidable p] (hr : d.requests[k]? = some r)
    (hreq : d'.requests = if p then d.requests.erase k else
      d.requests.insert k { r with results := results, nDone := n }) {k' : Str} {r' : Request}
    (hr' : d'.requests[k']? = some r') : ∃ r₀, d.requests[k']? = some r₀ ∧ r'.data = r₀.data := by
  rw [hreq] at hr'
  by_cases hk : k = k'
  · subst hk
    split at hr'
    · rw [getElem?_erase_eq, if_pos rfl] at hr'; cases hr'
    · rw [getElem?_insert_eq, if_pos rfl] at hr'
      injection hr' with hr'
      exact ⟨r, hr, by rw [← hr']⟩
  · split at hr'
    · rw [getElem?_erase_eq, if_neg hk] at hr'; exact ⟨r', hr', rfl⟩
    · rw [getElem?_insert_eq, if_neg hk] at hr'; exact ⟨r', hr', rfl⟩

theorem SentOK.change (hinv : Inv w) (hs : SentOK w) (h : Change w e w') : SentOK w' := by
  have hinv' := hinv.change h
  cases h with
  | @moved d out _ hd hout =>
    intro s hmem hsub
    rcases List.mem_append.1 hmem with hmem | hmem
    · obtain ⟨t, n, dat, hn, hdata, htk⟩ := hs s hmem hsub
      refine ⟨t, n, dat, hn, hdata, ?_⟩
      simp only [hd.tickets, hd.requests]
      exact htk
    · obtain ⟨t, ht, r, hr, hdata⟩ := (hout s hmem).2 hsub
      obtain ⟨n, hn, hid⟩ := hinv.id_lt t ht
      refine ⟨t.type, n, r.data, hn, by rw [hdata, hid], ?_⟩
      intro tk htk he
      simp only [hd.tickets] at htk
      -- ids are distinct
      obtain rfl := Multiset.inj_on_of_nodup_map hinv.ids tk htk t ht (he.trans hid.symm)
      exact ⟨rfl, r, by simp only [hd.requests]; exact hr, rfl⟩
  | @request m d _ hm _ hreq ht _ =>
    intro s hmem hsub
    obtain ⟨t, n, dat, hn, hdata, htk⟩ := hs s hmem hsub
    refine ⟨t, n, dat, by simp only [World.created, List.map_append,
      List.sum_append] at hn ⊢; omega, hdata, ?_⟩
    intro tk htm hid
    simp only [ht, Multiset.mem_add, Multiset.mem_coe] at htm
    rcases htm with htm | htm
    · obtain ⟨htype, r, hr, hd⟩ := htk tk htm hid
      have hne : key m ≠ tk.requesterID := fun h => hm.1 (h ▸ mem_iff_getElem?.2 ⟨r, hr⟩)
      exact ⟨htype, r, by simp only [hreq, getElem?_insert_eq, if_neg hne]; exact hr, hd⟩
    · -- a new job has a new id
      rw [(mem_newTickets htm).2.2, toStr_inj, hinv.nextJobId] at hid
      omega
  | @result j r a d _ hr _ ht _ hreq =>
    intro s hmem hsub
    rcases List.mem_append.1 hmem with hmem | hmem
    · obtain ⟨t, n, dat, hn, hdata, htk⟩ := hs s hmem hsub
      refine ⟨t, n, dat, hn, hdata, ?_⟩
      intro tk htm hid
      obtain ⟨htype, r₀, hr₀, hd⟩ := htk tk (ht ▸ Multiset.mem_cons_of_mem htm) hid
      obtain ⟨r', hr', -⟩ := hinv'.typed tk htm
      obtain ⟨r₁, hr₁, hd₁⟩ := data_of_result hr hreq hr'
      rw [hr₀] at hr₁
      injection hr₁ with hr₁
      exact ⟨htype, r', hr', by rw [hd₁, ← hr₁, hd]⟩
    · split at hmem
      · rw [List.mem_singleton] at hmem; subst hmem; cases hsub
      · cases hmem

/-- Every answer is `f` of the type and the data of its part. -/
def AnswersOK (f : ℕ → Str → Str) (w : World) : Prop :=
  ∀ n i a, w.answers n i = some a → ∃ q t, w.asked[n]? = some q ∧ (typesOf q)[i]? = some t ∧
    a = f t (dataOf q)

theorem AnswersOK.change (hinv : Inv w) (hs : SentOK w) (hf : Honest f w e) (ha : AnswersOK f w)
    (h : Change w e w') : AnswersOK f w' := by
  cases h with
  | moved => exact ha
  | request =>
    intro n i a h
    obtain ⟨q, t, hq, ht, hfa⟩ := ha n i a h
    exact ⟨q, t, by rw [List.getElem?_append_left (List.getElem?_eq_some_iff.1 hq).1]; exact hq,
      ht, hfa⟩
  | @result j r a d hnames hr _ ht _ _ =>
    intro n i b h
    simp only [Gather.record] at h
    split at h
    · rename_i hni
      obtain ⟨rfl, rfl⟩ := hni
      injection h with h
      subst h
      have hjt : j.ticket ∈ w.del.tickets := ht ▸ Multiset.mem_cons_self _ _
      obtain ⟨addr, t, dat, hsent, rfl⟩ := hf j a hnames
      obtain ⟨t', n, dat', -, hdata, htk⟩ := hs _ hsent rfl
      obtain ⟨htt, hid, hdd⟩ : toStr t = toStr t' ∧ j.id = toStr n ∧ dat = dat' := by simpa using hdata
      rw [toStr_inj] at htt
      obtain ⟨htype, r', hr', hd⟩ := htk _ hjt hid
      obtain ⟨r'', hr'', hidx⟩ := hinv.typed _ hjt
      rw [show j.ticket.requesterID = j.requesterID from rfl, hr] at hr' hr''
      injection hr' with hr'
      injection hr'' with hr''
      subst hr' hr''
      obtain ⟨q, hq, -, -, htypes, hdq⟩ := (hinv.pending _ r hr).asked
      rw [htypes] at hidx
      exact ⟨q, t, hq, by rw [htt, ← htype]; exact hidx, by rw [hdd, ← hd, hdq]⟩
    · exact ha n i b h

/-- What goes to requesters is what the observer records as replies. -/
def RepliesOK (w : World) : Prop :=
  (w.sent.filter fun s => s.sock = .requester) = w.replies.map fun p => ⟨.requester, p.2⟩

theorem RepliesOK.change (hr : RepliesOK w) (h : Change w e w') : RepliesOK w' := by
  unfold RepliesOK at hr ⊢
  cases h with
  | @moved d out _ _ hout =>
    simp only [List.filter_append, hr]
    rw [List.filter_eq_nil_iff.2 fun s hs => by simpa using (hout s hs).1, List.append_nil]
  | request => exact hr
  | result =>
    simp only [List.filter_append, List.map_append, hr]
    congr 1
    split <;> rfl

/-- A request whose types were read: they are the numbers of its frame, in order. -/
def TypesOK (q : Message) : Prop :=
  (typesOf q).Pairwise (· < ·) ∧ ∀ t, t ∈ typesOf q ↔ toStr t ∈ segments (q.data.headD []) ':'

theorem types_of_change (ha : ∀ q ∈ w.asked, TypesOK q) (h : Change w e w') :
    ∀ q ∈ w'.asked, TypesOK q := by
  cases h with
  | moved => exact ha
  | @request m _ _ hm =>
    intro q hq
    rcases List.mem_append.1 hq with hq | hq
    · exact ha q hq
    · rw [List.mem_singleton] at hq
      subst hq
      exact ⟨typesOf_sorted q, fun t => mem_typesOf hm⟩
  | result => exact ha

/-! ## Agreement -/

/-- The reply to a request from workers that answer by `f`. -/
def honestReply (f : ℕ → Str → Str) (q : Message) : Message :=
  replyOf q ((typesOf q).map fun t => f t (dataOf q))

/-- The event is the result of the only outstanding job of the request under `k`. -/
def LastResult (w : World) (e : Event) (k : Str) : Prop :=
  ∃ j a, Names w e j a ∧ j.requesterID = k ∧ w.del.outstanding.countP (isFor k) = 1

/-- What the requesters have been sent, when the workers answer by `f`. -/
structure Agreed (f : ℕ → Str → Str) (w : World) : Prop where
  /-- Requesters are sent replies, and nothing else. -/
  sent : (w.sent.filter fun s => s.sock = .requester) = w.replies.map fun p => ⟨.requester, p.2⟩
  /-- A request is replied to at most once. -/
  once : (w.replies.map Prod.fst).Nodup
  /-- A reply is a function of its request. -/
  content : ∀ p ∈ w.replies, ∃ q, w.asked[p.1]? = some q ∧ p.2 = honestReply f q ∧ TypesOK q
  /-- A request is replied to as soon as all its jobs are answered. -/
  complete : ∀ n q, w.asked[n]? = some q →
    (n ∈ w.replies.map Prod.fst ↔ ∀ i < (typesOf q).length, (w.answers n i).isSome)

/-- A complete collection of honest answers. -/
theorem collect_eq (hans : AnswersOK f w) {n : ℕ} {q : Message} (hq : w.asked[n]? = some q)
    (hc : Gather.Complete w.answers n (parts q)) :
    Gather.collect w.answers n (parts q) = (typesOf q).map fun t => f t (dataOf q) := by
  apply List.ext_getElem?
  intro i
  by_cases hi : i < parts q
  · obtain ⟨a, ha⟩ := Option.isSome_iff_exists.1 (hc i hi)
    obtain ⟨q', t, hq', ht, rfl⟩ := hans n i a ha
    rw [hq] at hq'
    injection hq' with hq'
    subst hq'
    rw [Gather.getElem?_collect hc hi, ha, List.getElem?_map, ht, Option.map_some]
  · have h1 : (Gather.collect w.answers n (parts q)).length ≤ i := by
      rw [Gather.length_collect hc]; omega
    have h2 : ((typesOf q).map fun t => f t (dataOf q)).length ≤ i := by
      rw [List.length_map]; exact Nat.le_of_not_lt hi
    rw [List.getElem?_eq_none h1, List.getElem?_eq_none h2]

/-- Admissible events whose results are honest. -/
def HonestEvent (f : ℕ → Str → Str) (w : World) (e : Event) : Prop := Admissible w e ∧ Honest f w e

theorem honest_invariant {nJobTypes workerCount : ℕ} {es : List Event}
    (h : Reach World.step (Bounded (HonestEvent f)) (.init nJobTypes workerCount) es w) :
    SentOK w ∧ AnswersOK f w ∧ RepliesOK w ∧ ∀ q ∈ w.asked, TypesOK q := by
  refine h.invariant
    (P := fun _ w => SentOK w ∧ AnswersOK f w ∧ RepliesOK w ∧ ∀ q ∈ w.asked, TypesOK q) ?_ ?_
  · exact ⟨fun s hs => by simp [World.init] at hs, fun n i a ha => by simp [World.init] at ha, rfl,
      fun q hq => by simp [World.init] at hq⟩
  · rintro _ v e v' hv ⟨hsent, hans, hrep, htypes⟩ hok hs
    have hinv : Inv v := (ledger_sound (fun _ _ he => he.1) hv).1
    have hch := change_of_step hinv hok.1.1 hs (hok.2 v' hs)
    exact ⟨hsent.change hinv hch, hans.change hinv hsent hok.1.2 hch, hrep.change hch,
      types_of_change htypes hch⟩

theorem agreed_of_reach {nJobTypes workerCount : ℕ} {es : List Event}
    (h : Reach World.step (Bounded (HonestEvent f)) (.init nJobTypes workerCount) es w) :
      Agreed f w := by
  obtain ⟨-, hsound⟩ := ledger_sound (fun _ _ he => he.1) h
  obtain ⟨-, hans, hrep, htypes⟩ := honest_invariant h
  refine ⟨hrep, hsound.nodup, ?_, fun n q hq => ⟨?_, hsound.complete n q hq⟩⟩
  · intro p hp
    obtain ⟨q, hq, hc, hreply⟩ := hsound.replied p hp
    exact ⟨q, hq, by rw [hreply, honestReply, ← collect_eq hans hq hc]; rfl,
      htypes q (List.mem_of_getElem? hq)⟩
  · intro hn
    obtain ⟨p, hp, rfl⟩ := List.mem_map.1 hn
    obtain ⟨q', hq', hc, -⟩ := hsound.replied p hp
    obtain rfl : q = q' := Option.some.inj (hq.symm.trans hq')
    exact hc

/-! ## When replies are sent -/

theorem answered_of_names {j : Job} {a : Str} (h : Names w e j a) :
    w.answered e = some (w.number j.requesterID, j.requesterIndex, a) := by
  obtain ⟨m, now, fails, x, wk, rest, rfl, hsub, hx, hwk, hj, hdata⟩ := h
  simp [World.answered, hsub, hx, hwk, hj, hdata]

/-- An event is the result of one job. -/
theorem names_unique {j j' : Job} {a a' : Str} (h : Names w e j a) (h' : Names w e j' a') : j = j' := by
  obtain ⟨m, now, fails, x, wk, rest, rfl, -, hx, hwk, hj, hdata⟩ := h
  obtain ⟨m', now', fails', x', wk', rest', he, -, hx', hwk', hj', hdata'⟩ := h'
  injection he with _ hm _ _
  subst hm
  obtain rfl : x = x' := Option.some.inj (hx.symm.trans hx')
  obtain rfl : wk = wk' := Option.some.inj (hwk.symm.trans hwk')
  have hid : j.id = j'.id := (List.cons.inj (hdata.symm.trans hdata')).1
  rw [← hid] at hj'
  exact Option.some.inj (hj.symm.trans hj')

/-- **Reply agreement**, in every run without a GOODBYE from the network: what requesters are sent,
and when: the reply to a pending request with the result of its last job, and nothing with any
other event. The next event is handled exactly when it is no such GOODBYE. -/
theorem replies_agree {nJobTypes workerCount : ℕ} {es : List Event}
    (h : Reach World.step (fun w e => HonestEvent f w e ∧ ¬ e.NetworkGoodbye)
      (.init nJobTypes workerCount) es w) (hc : w.created < 2 ^ 32) :
    Agreed f w ∧
    (∀ e w', HonestEvent f w e → w.step e = some w' → w'.created < 2 ^ 32 →
      (w'.replies = w.replies ∧ ∀ k, ¬ LastResult w e k) ∨
      ∃ k q, LastResult w e k ∧ k ∈ w.del.requests ∧ w.asked[w.number k]? = some q ∧ key q = k ∧
        w'.replies = w.replies ++ [(w.number k, honestReply f q)]) ∧
    ∀ e, HonestEvent f w e → w.created + World.growth e < 2 ^ 32 →
      ((∃ w', w.step e = some w' ∧ Agreed f w') ↔ ¬ e.NetworkGoodbye) := by
  have h : Reach World.step (HonestEvent f) (.init nJobTypes workerCount) es w :=
    h.mono fun _ _ he => he.1
  have hb := bounded_of_reach h hc
  refine ⟨agreed_of_reach hb, ?_, ?_⟩
  case refine_2 =>
    intro e hok hlt
    refine ⟨fun ⟨_, hs, _⟩ => World.not_networkGoodbye hs, fun hbye => ?_⟩
    have hinv : Inv w := (ledger_sound (fun _ _ he => he.1) hb).1
    obtain ⟨w', hs, -⟩ := step_change hinv hok.1 hbye hlt
    have hc' : w'.created < 2 ^ 32 := by rw [created_step hs]; exact hlt
    exact ⟨w', hs, agreed_of_reach (bounded_of_reach (h.next hok hs) hc')⟩
  intro e w' hok hs hc'
  have hinv : Inv w := (ledger_sound (fun _ _ he => he.1) hb).1
  have hagreed : Agreed f w' := agreed_of_reach (bounded_of_reach (h.next hok hs) hc')
  have silent : w.answered e = none → ∀ k, ¬ LastResult w e k := by
    rintro hnone k ⟨j, a, hnames, -, -⟩
    rw [answered_of_names hnames] at hnone
    cases hnone
  cases change_of_step hinv hok.1 hs hc' with
  | moved ha => exact .inl ⟨rfl, silent ha⟩
  | request ha => exact .inl ⟨rfl, silent ha⟩
  | @result j r a d hnames hr _ ht _ _ =>
    have hpend := hinv.pending _ r hr
    have hcount := hpend.count
    by_cases hdone : r.nDone + 1 = r.jobTypes.size
    · obtain ⟨q, hq, hk, -⟩ := hpend.asked
      have hlast : LastResult w e j.requesterID := ⟨j, a, hnames, rfl, by rw [countP_isFor]; omega⟩
      refine .inr ⟨j.requesterID, q, hlast, mem_iff_getElem?.2 ⟨r, hr⟩, hq, hk, ?_⟩
      obtain ⟨q', hq', hreply, -⟩ := hagreed.content
        (w.number j.requesterID, ⟨r.address, .result, r.results.set j.requesterIndex a⟩)
          (by simp [hdone])
      obtain rfl : q = q' := Option.some.inj (hq.symm.trans hq')
      simp only [if_pos hdone, ← hreply]
    · refine .inl ⟨by simp [hdone], ?_⟩
      rintro k ⟨j', a', hnames', rfl, hone⟩
      obtain rfl := names_unique hnames hnames'
      rw [countP_isFor] at hone
      omega

/-- An event that answers nothing is honest. -/
theorem Honest.of_answered_none (h : w.answered e = none) : Honest f w e := by
  intro j a hnames
  rw [answered_of_names hnames] at h
  cases h

/-- A result is honest if it is `f` of a JOB that was sent. -/
theorem Honest.of_sent {id a : Str} (addr : Address) {t : ℕ} {d : Str}
    (h : ⟨.network, ⟨addr, .job, [toStr t, id, d]⟩⟩ ∈ w.sent) (ha : a = f t d) :
    Honest f w (resultEvent id a) := by
  rintro j a' ⟨m, now, fails, x, wk, rest, he, -, -, -, -, hdata⟩
  injection he with _ hm _ _
  subst hm
  obtain ⟨rfl, rfl, -⟩ : id = j.id ∧ a = a' ∧ rest = [] := by simpa using hdata
  exact ⟨addr, t, d, h, ha⟩

set_option maxRecDepth 8000 in
/-- The second job is answered first; the reply is in the order of the types. -/
theorem replies_agree_run :
    ∃ es w, es = [helloEvent, requestEvent, pollEvent, resultEvent ['1'] "x1".toList,
      resultEvent ['0'] "x0".toList] ∧
    Reach World.step (fun w e => HonestEvent (fun t d => d ++ toStr t) w e ∧ ¬ e.NetworkGoodbye)
      (.init 2 0) es w ∧
    w.replies = [(0, ⟨[['r']], .result, ["x0".toList, "x1".toList]⟩)] ∧
    Agreed (fun t d => d ++ toStr t) w := by
  have h : Reach World.step (fun w e => HonestEvent (fun t d => d ++ toStr t) w e ∧ ¬ e.NetworkGoodbye)
    (.init 2 0) [] _ := .start
  have h := h.next'
    (e := helloEvent) ⟨⟨helloEvent_admissible _, .of_answered_none (by decide)⟩, by decide⟩ (by decide)
  have h := h.next' (e := requestEvent)
    ⟨⟨requestEvent_admissible (by decide), .of_answered_none (by decide)⟩, by decide⟩ (by decide)
  have h := h.next'
    (e := pollEvent) ⟨⟨fun _ => rfl, .of_answered_none (by decide)⟩, by decide⟩ (by decide)
  have h := h.next' (e := resultEvent ['1'] "x1".toList) ⟨⟨.inr (by decide),
    .of_sent [['w']] (t := 1) (d := ['x']) (by decide) (by decide)⟩, by decide⟩ (by decide)
  have h := h.next' (e := resultEvent ['0'] "x0".toList) ⟨⟨.inr (by decide),
    .of_sent [['w']] (t := 0) (d := ['x']) (by decide) (by decide)⟩, by decide⟩ (by decide)
  exact ⟨_, _, rfl, h, by decide, (replies_agree h (by decide)).1⟩

set_option maxRecDepth 8000 in
/-- **A worker answers one of two jobs and says GOODBYE**: its callback is undefined, and there is no
next state from which the request could be answered. -/
theorem goodbye_unanswered : ∃ w, Reach World.step (HonestEvent fun t d => d ++ toStr t) (.init 2 0)
      [helloEvent, requestEvent, pollEvent, resultEvent ['1'] "x1".toList] w ∧
    w.replies = [] ∧ w.del.requests.keys = [['r']] ∧
    HonestEvent (fun t d => d ++ toStr t) w goodbyeEvent ∧
    w.created + World.growth goodbyeEvent < 2 ^ 32 ∧
    w.del.handle goodbyeEvent = .error .undefined ∧
    ¬ ∃ w', w.step goodbyeEvent = some w' ∧ Agreed (fun t d => d ++ toStr t) w' := by
  have h : Reach World.step (HonestEvent fun t d => d ++ toStr t) (.init 2 0) [] _ := .start
  have h := h.next'
    (e := helloEvent) ⟨helloEvent_admissible _, .of_answered_none (by decide)⟩ (by decide)
  have h := h.next' (e := requestEvent)
    ⟨requestEvent_admissible (by decide), .of_answered_none (by decide)⟩ (by decide)
  have h := h.next' (e := pollEvent) ⟨fun _ => rfl, .of_answered_none (by decide)⟩ (by decide)
  have h := h.next' (e := resultEvent ['1'] "x1".toList)
    ⟨.inr (by decide), .of_sent [['w']] (t := 1) (d := ['x']) (by decide) (by decide)⟩ (by decide)
  refine ⟨_, h, by decide, by decide, ⟨show _ ≠ _ by decide, .of_answered_none (by decide)⟩,
    by decide, handle_networkGoodbye rfl, ?_⟩
  rintro ⟨w', hs, -⟩
  exact World.not_networkGoodbye hs rfl

end Stateline
