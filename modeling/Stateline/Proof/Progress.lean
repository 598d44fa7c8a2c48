import Stateline.Proof.Quiet
import Stateline.Proof.Service

/-!
# Every request is answered

From any state that the service can be in, the delegator and its workers get all requests of the
sampler answered on their own, if they are left to it.

* `Internal`: the steps that they take. `weight_step`: **each one leaves less work**, so they come to
  an end.
* `Quiet.pending`: **in the end nothing is pending**, if each job type has a worker.
* `service_answers`: every answer is there to be retrieved, whatever the order of the steps.
-/

namespace Stateline

open Std Lib Delegator

namespace Service

variable {P F : Type} {d : ℕ} {c : Deployment P F} {w : World} {s s' : Service P F d} {A : Finset Str}

/-! ## Requests of others -/

/-- The data of the requests of others are numbers. -/
def Admitted (c : Deployment P F) (s : Service P F d) (a : Act F d) : Prop :=
  Allowed c s a ∧ ∀ m, a = .other (.request m) → ∀ x ∈ segments (dataOf m) ':', (c.stod x).isSome

/-- Whatever is not a request of another is admitted. -/
theorem Admitted.of_ne {a : Act F d} (h : ∀ m, a ≠ .other (.request m)) : Admitted c s a := by
  refine ⟨?_, fun m hm => absurd hm (h m)⟩
  cases a with
  | other b =>
    cases b with
    | request m => exact absurd rfl (h m)
    | _ => trivial
  | _ => trivial

/-- What the delegator is asked can be read. -/
def Legible (c : Deployment P F) (s : Service P F d) (b : Cluster.Act) : Prop :=
  s.cluster.Allowed b ∧ ∀ m, b = .request m → ∀ x ∈ segments (dataOf m) ':', (c.stod x).isSome

variable [Double F] [Inhabited F] [Proposal P (Fin d → F) F]

/-- A step of the program is none of the cluster. -/
theorem cluster_of_advance {a : SamplerProgram.Act (Fin d → F) F} {toRequester : List Message}
    (h : s.advance c a toRequester = some s') : s'.cluster = s.cluster := by
  unfold advance at h
  obtain ⟨p, -, h⟩ := Option.bind_eq_some_iff.1 h
  dsimp only at h
  split at h
  · cases h
    rfl
  · cases h

/-- **A step of the service** is one of the cluster, or it leaves the cluster as it is. -/
theorem cluster_of_step (hc : c.OK d) (h : Inv c w s) {a : Act F d} (hok : Admitted c s a)
    (hs : s.step c a = some s') :
    s'.cluster = s.cluster ∨ ∃ b out, Legible c s b ∧
      s.cluster.step c.stod c.to_string c.lhFn b = some (s'.cluster, out) := by
  cases a with
  | generate sample => exact .inl (cluster_of_advance hs)
  | start => exact .inl (cluster_of_advance hs)
  | stop => exact .inl (cluster_of_advance hs)
  | finish => exact .inl (cluster_of_advance hs)
  | retrieve acceptRand swapRand now =>
    simp only [step] at hs
    split at hs
    · cases hs
    · split at hs
      · exact .inl (cluster_of_advance hs)
      · cases hs
  | request =>
    cases hm : s.toDelegator with
    | nil =>
      simp only [step, hm] at hs
      cases hs
    | cons m rest =>
      simp only [step, hm] at hs
      obtain ⟨cluster, out, hcl, rfl⟩ := afterCluster_eq_some hs
      obtain ⟨r, -, -, -, -, hr, -, hallowed, -⟩ := h.next_request hc hm
      refine .inr ⟨_, out, ⟨hr ▸ hallowed, ?_⟩, hcl⟩
      rintro m' ⟨⟩ x hx
      -- the data of the sampler are numbers
      rw [hr, segments_asked hc, List.mem_map] at hx
      obtain ⟨y, -, rfl⟩ := hx
      exact (hc.legible y).2.2
  | other a =>
    obtain ⟨cluster, out, hcl, rfl⟩ := afterCluster_eq_some hs
    refine .inr ⟨a, out, ⟨?_, fun m hm => hok.2 m (congrArg Act.other hm)⟩, hcl⟩
    cases a with
    | request m => exact hok.1.1
    | _ => trivial

/-- The invariant of runs that come to an end. -/
structure Driven (c : Deployment P F) (s : Service P F d) : Prop where
  inv : ∃ w, Inv c w s
  legible : s.cluster.Legible c.stod
  finiteCost : s.cluster.FiniteCost

omit [Inhabited F] [Proposal P (Fin d → F) F] in
theorem Driven.init (c : Deployment P F) : Driven c (init c : Service P F d) where
  inv := ⟨_, .init c⟩
  legible := .init (DelegatorSettings.default c.port).nJobTypes c.workerCount c.range
  finiteCost := .init (DelegatorSettings.default c.port).nJobTypes c.workerCount c.range

theorem driven_step (hc : c.OK d) (h : Driven c s) {a : Act F d} (hok : Admitted c s a)
    (hs : s.step c a = some s') (hbound : s'.cluster.created < 2 ^ 32) : Driven c s' := by
  obtain ⟨w, hi⟩ := h.inv
  have hcluster : s'.cluster.Legible c.stod ∧ s'.cluster.FiniteCost := by
    rcases cluster_of_step hc hi hok hs with hsame | ⟨b, out, hb, hcl⟩
    · rw [hsame]
      exact ⟨h.legible, h.finiteCost⟩
    · exact ⟨Cluster.legible_step hi.cluster hi.watched h.legible hc.hello hb.1 hb.2 hcl hbound,
        Cluster.finiteCost_step h.finiteCost hcl⟩
  exact ⟨(inv_step hc hi hok.1 hs hbound).1, hcluster.1, hcluster.2⟩

theorem driven_of_reach (hc : c.OK d) {as : List (Act F d)}
    (h : Reach (step c) (Admitted c) (init c) as s) (hbound : s.cluster.created < 2 ^ 32) :
    Driven c s := by
  refine (h.bounded (fun _ _ _ hs => created_le hs) hbound).invariant (P := fun _ s => Driven c s)
    (.init c) ?_
  rintro as s a s' - hd ⟨hok, hlt⟩ hs
  exact driven_step hc hd hok hs (hlt s' hs)

/-! ## The work that is left -/

/-- The steps of the delegator and its workers that get the requests answered. -/
def Internal (s : Service P F d) : Act F d → Prop
  | .request => True
  | .other a => Cluster.Internal s.cluster a
  | _ => False

omit [Double F] [Inhabited F] [Proposal P (Fin d → F) F] in
theorem Internal.admitted {a : Act F d} (h : Internal s a) : Admitted c s a := by
  refine .of_ne ?_
  rintro m rfl
  cases h

/-- The steps that are left. A request has its jobs to be done, and is one step itself. -/
def weight (c : Deployment P F) (A : Finset Str) (s : Service P F d) : ℕ :=
  (6 * c.nJobTypes + 1) * s.toDelegator.length + s.cluster.weight A

/-- The jobs that are created when all requests were read. -/
def promised (c : Deployment P F) (s : Service P F d) : ℕ :=
  s.cluster.created + c.nJobTypes * s.toDelegator.length

/-- **Each internal step leaves less work**, and nothing else is changed. -/
theorem weight_step (hc : c.OK d) (h : Inv c w s) (hA : Cluster.Within A s.cluster)
    (hbound : promised c s < 2 ^ 32) {a : Act F d} (ha : Internal s a) (hs : s.step c a = some s') :
    Cluster.Within A s'.cluster ∧ weight c A s' < weight c A s ∧ s'.program = s.program ∧
      promised c s' = promised c s := by
  cases a with
  | request =>
    cases hm : s.toDelegator with
    | nil =>
      simp only [step, hm] at hs
      cases hs
    | cons m rest =>
      simp only [step, hm] at hs
      obtain ⟨cluster, out, hcl, rfl⟩ := afterCluster_eq_some hs
      obtain ⟨r, -, -, -, -, hr, -, hallowed, hgrowth⟩ := h.next_request hc hm
      have hjobs : (typesOf (asked c r)).length = c.nJobTypes := hgrowth
      rw [hr] at hcl
      unfold weight promised
      rw [hm, List.length_cons]
      cases Cluster.step_cases hcl with
      | event hreads hrun =>
        cases hreads with
        | request =>
          have hcount := Cluster.created_of_reads .request hallowed hrun
          rw [hgrowth] at hcount
          have hn : s.cluster.del.nextJobId = s.cluster.created % 2 ^ 32 := by
            rw [← h.watched.del, h.watched.inv.nextJobId, h.watched.created, Nat.mod_eq_of_lt]
            exact (Nat.le_add_right _ _).trans_lt hbound
          obtain ⟨hA', hweight⟩ := Cluster.weight_request hA rfl hrun hn
            (s.cluster.created + Net.jobsOf (asked c r))
          refine ⟨hA', ?_, rfl, ?_⟩
          · show (6 * c.nJobTypes + 1) * rest.length + Cluster.weight A _ < _
            rw [hweight, hjobs, Nat.mul_add (6 * c.nJobTypes + 1), Nat.mul_one]
            omega
          · rw [hcount, Nat.mul_add, Nat.mul_one, Nat.add_assoc, Nat.add_comm c.nJobTypes]
  | other a =>
    obtain ⟨cluster, out, hcl, rfl⟩ := afterCluster_eq_some hs
    obtain ⟨hA', hlt⟩ := Cluster.weight_lt h.cluster hA ha hcl
    exact ⟨hA', Nat.add_lt_add_left hlt _, rfl, congrArg (· + _) (ha.created hcl)⟩
  | _ => exact ha.elim

/-- What the internal steps keep. -/
structure Left (c : Deployment P F) (A : Finset Str) (s₀ s : Service P F d) : Prop where
  driven : Driven c s
  within : Cluster.Within A s.cluster
  program : s.program = s₀.program
  promised : promised c s = promised c s₀

theorem left_step {s₀ : Service P F d} (hc : c.OK d) (hbound : promised c s₀ < 2 ^ 32)
    (h : Left c A s₀ s) {a : Act F d} (ha : Internal s a) (hs : s.step c a = some s') :
    Left c A s₀ s' ∧ weight c A s' < weight c A s := by
  obtain ⟨w, hi⟩ := h.driven.inv
  obtain ⟨hA, hlt, hprogram, hpromised⟩ :=
    weight_step hc hi h.within (by rw [h.promised]; exact hbound) ha hs
  have hcreated : s'.cluster.created < 2 ^ 32 := by
    calc s'.cluster.created ≤ Service.promised c s' := Nat.le_add_right _ _
      _ = Service.promised c s₀ := hpromised.trans h.promised
      _ < 2 ^ 32 := hbound
  exact ⟨⟨driven_step hc h.driven ha.admitted hs hcreated, hA, hprogram.trans h.program,
    hpromised.trans h.promised⟩, hlt⟩

/-! ## Quiet states -/

/-- No internal step can be taken. -/
def Quiet (c : Deployment P F) (s : Service P F d) : Prop := ∀ a, Internal s a → s.step c a = none

/-- No step can be taken when no work is left. -/
theorem Left.quiet {s₀ : Service P F d} (h : Left c A s₀ s) (hc : c.OK d)
    (hbound : Service.promised c s₀ < 2 ^ 32) (hdone : weight c A s = 0) : Quiet c s := by
  intro a ha
  rw [Option.eq_none_iff_forall_ne_some]
  intro s' hs
  have hlt := (left_step hc hbound h ha hs).2
  omega

/-- The delegator has read all requests of the sampler. -/
theorem Quiet.toDelegator (hq : Quiet c s) (hc : c.OK d) (h : Inv c w s)
    (hbound : promised c s < 2 ^ 32) : s.toDelegator = [] := by
  by_contra hne
  obtain ⟨m, rest, hm⟩ := List.exists_cons_of_ne_nil hne
  have hlt : s.cluster.created + c.nJobTypes < 2 ^ 32 := by
    rw [promised, hm, List.length_cons, Nat.mul_add, Nat.mul_one] at hbound
    omega
  obtain ⟨cluster, w', hcl, -⟩ := inv_request hc h hm hlt
  have hnone := hq .request trivial
  simp only [step, hm, hcl] at hnone
  cases hnone

/-- The cluster is quiet. -/
theorem Quiet.cluster (hq : Quiet c s) : Cluster.Quiet c.stod c.to_string c.lhFn s.cluster := by
  intro a ha
  have hnone : s.afterCluster c (s.cluster.step c.stod c.to_string c.lhFn a) = none := hq (.other a) ha
  cases hcl : s.cluster.step c.stod c.to_string c.lhFn a with
  | none => rfl
  | some res =>
    rw [hcl] at hnone
    cases hnone

/-- Each job type of the sampler has a connected worker that is in its range, and whose estimate is
not the sentinel of `bestWorker`. -/
def Manned (c : Deployment P F) (del : Delegator) : Prop :=
  ∀ t < c.nJobTypes, ∃ (x : Str) (wk : Worker), del.workers[x]? = some wk ∧
    wk.jobTypesRange.1 ≤ t ∧ t < wk.jobTypesRange.2 ∧ usTillDone wk t ≠ .ok (2 ^ 32 - 1)

/-- **Nothing is pending** when nothing is left to do. -/
theorem Quiet.pending {waiting pending answered : List (SampleRequest (Fin d → F))} (hq : Quiet c s)
    (hc : c.OK d) (h : Inv c w s) (hl : s.cluster.Legible c.stod) (hbound : s.cluster.created < 2 ^ 32)
    (hmanned : Manned c s.cluster.del) (hp : Places c w s waiting pending answered) : pending = [] := by
  obtain ⟨hids, hqueue⟩ :=
    Cluster.idle_of_quiet h.cluster h.watched hl hc.hello hq.cluster hbound
  rw [← h.watched.del] at hids hqueue hmanned
  have hinv := h.watched.inv
  have hidle : ∀ (x : Str) (wk : Worker), w.del.workers[x]? = some wk → vals wk.workInProgress = [] :=
    fun x wk hwk => List.map_eq_nil_iff.1 (Multiset.coe_eq_zero _ |>.1 (hids x wk hwk))
  rw [List.eq_nil_iff_forall_not_mem]
  intro r hr
  obtain ⟨hmem, hat⟩ := hp.atDelegator r hr
  obtain ⟨r', hr'⟩ := mem_iff_getElem?.1 hmem
  have hpending := hinv.pending _ r' hr'
  -- the request has a job that is outstanding, so it is in the queue
  obtain ⟨t, ht⟩ := Multiset.exists_mem_of_ne_zero hpending.left
  obtain ⟨ht, hkey⟩ := Multiset.mem_filter.1 ht
  obtain ⟨j, hj, rfl⟩ := mem_tickets.1 ht
  have hjqueue : j ∈ w.del.jobQueue := by
    rcases mem_outstanding.1 hj with hj | ⟨x, wk, i, hwk, hi⟩
    · exact hj
    · have hmem := mem_vals.2 ⟨i, hi⟩
      rw [hidle x wk hwk] at hmem
      cases hmem
  have htype : j.type < c.nJobTypes := by
    obtain ⟨r₁, hr₁, hindex⟩ := hinv.typed _ (mem_tickets.2 ⟨j, hj, rfl⟩)
    rw [hkey, hr'] at hr₁
    cases hr₁
    obtain ⟨q, hq, -, -, htypes, -⟩ := hpending.asked
    rw [hat] at hq
    cases hq
    have hlist : r'.jobTypes.toList = List.range c.nJobTypes := by
      rw [htypes]
      exact typesOf_asked hc
        ((hp.requests h.program).2 r (List.mem_append_left _ (List.mem_append_right _ hr))).2
    rw [hlist] at hindex
    exact List.mem_range.1 (List.mem_of_getElem? hindex)
  obtain ⟨x, wk, hwk, hlo, hhi, hne⟩ := hmanned j.type htype
  exact hne (hqueue j hjqueue x wk hwk ⟨hlo, hhi, by
    rw [← length_vals, hidle x wk hwk]
    decide⟩)

/-! ## Runs -/

/-- **Every request is answered.** Left to itself, the service comes to an end after finitely many steps
of the delegator and its workers, in whatever order these are. Then all requests of the sampler that
were outstanding have their answers on the way back, if each job type has a worker that is connected. -/
theorem service_answers (hc : c.OK d) {as : List (Act F d)}
    (h : Reach (step c) (Admitted c) (init c) as s)
    (hbound : s.cluster.created + c.nJobTypes * s.toDelegator.length < 2 ^ 32) :
    (∃ n, ∀ bs s', Reach (step c) Internal s bs s' → bs.length ≤ n) ∧
    (∃ bs s', Reach (step c) Internal s bs s' ∧ Quiet c s') ∧
    ∀ bs s', Reach (step c) Internal s bs s' → Quiet c s' → Manned c s'.cluster.del →
      s'.program = s.program ∧ s'.toDelegator = [] ∧
      s'.toRequester.Perm ((SamplerProgram.outstanding c.toSetup s.program).map (reply c)) := by
  have hd := driven_of_reach hc h ((Nat.le_add_right _ _).trans_lt hbound)
  obtain ⟨A, hA⟩ := hd.finiteCost.within
  have hleft : Left c A s s := ⟨hd, hA, rfl, rfl⟩
  have hstep : ∀ t a t', Left c A s t → Internal t a → t.step c a = some t' →
      Left c A s t' ∧ weight c A t' < weight c A t :=
    fun _ _ _ ht ha hs => left_step hc hbound ht ha hs
  refine ⟨⟨weight c A s, ?_⟩, Reach.exists_end hleft hstep, ?_⟩
  · intro bs s' hr
    have hlen := (hr.length_le hleft hstep).2
    omega
  · intro bs s' hr hq hmanned
    obtain ⟨hdriven, -, hprogram, hpromised⟩ := (hr.length_le hleft hstep).1
    obtain ⟨w, hi⟩ := hdriven.inv
    have hlt : promised c s' < 2 ^ 32 := hpromised ▸ hbound
    obtain ⟨waiting, pending, answered, hp⟩ := hi.places
    have hnil := hq.toDelegator hc hi hlt
    have hwaiting : waiting = [] := List.map_eq_nil_iff.1 (hp.toDelegator.symm.trans hnil)
    have hpending : pending = [] :=
      hq.pending hc hi hdriven.legible ((Nat.le_add_right _ _).trans_lt hlt) hmanned hp
    refine ⟨hprogram, hnil, ?_⟩
    rw [hp.toRequester, ← hprogram]
    have hperm := hp.perm
    rw [hwaiting, hpending] at hperm
    exact hperm.map (reply c)

/-- A worker connects, when the first request is read. -/
def toRead : List (Act ℝ 1) :=
  [.generate fun _ => 0, .request, .other (.work ['w'] .fromMinion), .other (.deliver ['w'] 0)]

/-- Its job is handed to the worker, and the result arrives. -/
def answering : List (Act ℝ 1) :=
  [.other (.poll fun _ => 0), .other (.take ['w']), .other (.work ['w'] .nextJob),
    .other (.work ['w'] .submitResult), .other (.work ['w'] .fromMinion), .other (.deliver ['w'] 1)]

set_option maxRecDepth 8000 in
/-- The first request is answered, and the worker is connected then. -/
theorem answering_run : ∃ s s' : Service (Drawn ℝ 1) ℝ 1,
    Reach (step oneChain) (Admitted oneChain) (init oneChain) toRead s ∧
    Reach (step oneChain) Internal s answering s' ∧ promised oneChain s = 1 ∧
    (SamplerProgram.outstanding oneChain.toSetup s.program).length = 1 ∧
    Cluster.Within {['w']} s.cluster ∧ weight oneChain {['w']} s = 6 ∧
    Manned oneChain s'.cluster.del := by
  have h : Reach (step oneChain) (Admitted oneChain) (init oneChain : Service _ _ 1) [] _ := .start
  have h := h.next' (e := .generate fun _ => 0) (.of_ne (by simp)) (by rfl)
  have h := h.next' (e := .request) (.of_ne (by simp)) (by decide)
  have h := h.next' (e := .other (.work ['w'] .fromMinion)) (.of_ne (by simp)) (by decide)
  have h := h.next' (e := .other (.deliver ['w'] 0)) (.of_ne (by simp)) (by decide)
  have hstart {as : List (Act ℝ 1)} {s : Service (Drawn ℝ 1) ℝ 1}
      (_ : Reach (step oneChain) (Admitted oneChain) (init oneChain) as s) :
      Reach (step oneChain) Internal s [] s := .start
  have hr := hstart h
  have hr := hr.next' (e := .other (.poll fun _ => 0)) (by exact .poll rfl (by decide)) (by decide)
  have hr := hr.next' (e := .other (.take ['w'])) (by exact .take) (by decide)
  have hr := hr.next' (e := .other (.work ['w'] .nextJob)) (by exact .nextJob) (by decide)
  have hr := hr.next' (e := .other (.work ['w'] .submitResult)) (by exact .submitResult) (by decide)
  have hr := hr.next' (e := .other (.work ['w'] .fromMinion)) (by exact .fromMinion rfl (by decide))
    (by decide)
  have hr := hr.next' (e := .other (.deliver ['w'] 1)) (by exact .deliver) (by decide)
  refine ⟨_, _, h, hr, by decide, by decide, Cluster.within_of_alone rfl rfl rfl (by decide),
    by decide, ?_⟩
  intro t ht
  rw [Nat.lt_one_iff.1 ht]
  exact ⟨['w'], _, (Option.some_get (by decide)).symm, by decide, by decide, by decide⟩

/-- **The answer is there** when the worker has returned its result, and nothing is left to do. -/
theorem service_answers_run : ∃ s s' : Service (Drawn ℝ 1) ℝ 1,
    Reach (step oneChain) (Admitted oneChain) (init oneChain) toRead s ∧
    (SamplerProgram.outstanding oneChain.toSetup s.program).length = 1 ∧
    Reach (step oneChain) Internal s answering s' ∧ Quiet oneChain s' ∧
    Manned oneChain s'.cluster.del ∧ s'.toRequester.Perm
      ((SamplerProgram.outstanding oneChain.toSetup s.program).map (reply oneChain)) := by
  obtain ⟨s, s', h, hr, hpromised, hlen, hA, hweight, hmanned⟩ := answering_run
  have hbound : promised oneChain s < 2 ^ 32 := by
    rw [hpromised]
    decide
  have hd := driven_of_reach oneChain_ok h ((Nat.le_add_right _ _).trans_lt hbound)
  -- each of the six steps leaves less work
  obtain ⟨hleft, hdone⟩ := hr.length_le (P := Left oneChain {['w']} s) ⟨hd, hA, rfl, rfl⟩
    fun _ _ _ ht ha hs => left_step oneChain_ok hbound ht ha hs
  have hq : Quiet oneChain s' := by
    refine hleft.quiet oneChain_ok hbound ?_
    rw [hweight] at hdone
    exact Nat.le_zero.1 (Nat.add_le_add_iff_left.1 hdone : _ ≤ 0)
  exact ⟨s, s', h, hlen, hr, hq, hmanned,
    ((service_answers oneChain_ok h hbound).2.2 answering s' hr hq hmanned).2.2⟩

end Service

end Stateline
