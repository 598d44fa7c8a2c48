import Stateline.Proof.Rows

/-!
# Reading the files

What `vis.py` reads of the file of a stack, while the sampler runs and after it.

* `Csv.reader_append`: **the rows that are read** are the states that were written, field by field.
* `Csv.reader_prefix`: of a file that is just being written, all rows but the last are right.
* `Csv.file_round_trip`: in every run of the chains, the file and the cache hold all that was recorded,
  and what was in the file stays.
* `Service.service_output`: **the rows that a run of the service leaves.**
-/

namespace Stateline

open Lib
open ChainArray (Op)

namespace Csv

variable {F : Type} {d : ℕ} {fmt : F → Str}

/-- The fields of a row. -/
def fields (fmt : F → Str) (s : State (Fin d → F) F) : List Str :=
  (List.ofFn s.sample).map fmt ++
    [fmt s.energy, fmt s.sigma, fmt s.beta, toStr s.accepted.toNat, toStr s.swapType.code]

/-- A field without anything that `csv.reader` treats specially. -/
def PlainField (v : Str) : Prop := ',' ∉ v ∧ '\n' ∉ v ∧ '\r' ∉ v ∧ '"' ∉ v

/-- What the stream makes of a `double` is plain. -/
def Plain (fmt : F → Str) : Prop := ∀ x, PlainField (fmt x)

theorem flatMap_append_intercalate (xs : List Str) {ys : List Str} (hy : ys ≠ []) :
    xs.flatMap (· ++ [',']) ++ [','].intercalate ys = [','].intercalate (xs ++ ys) := by
  induction xs with
  | nil => rfl
  | cons x xs ih =>
    obtain ⟨z, zs, hz⟩ := List.exists_cons_of_ne_nil (List.append_ne_nil_of_right_ne_nil xs hy)
    rw [List.flatMap_cons, List.append_assoc, ih, List.cons_append, hz, List.intercalate_cons_cons]

/-- A row holds its fields, with commas between them. -/
theorem row_eq (s : State (Fin d → F) F) : row fmt s = [','].intercalate (fields fmt s) := by
  rw [fields, ← flatMap_append_intercalate _ (List.cons_ne_nil _ _), List.flatMap_map, row]
  simp [List.intercalate_cons_cons]

theorem not_mem_toStr {n : ℕ} {c : Char} (hc : c.isDigit = false) : c ∉ toStr n := by
  intro h
  rw [isDigit_of_mem_toStr h] at hc
  cases hc

theorem plainField_toStr (n : ℕ) : PlainField (toStr n) :=
  ⟨not_mem_toStr rfl, not_mem_toStr rfl, not_mem_toStr rfl, not_mem_toStr rfl⟩

theorem fields_plain (hfmt : Plain fmt) (s : State (Fin d → F) F) :
    ∀ v ∈ fields fmt s, PlainField v := by
  intro v hv
  rcases List.mem_append.1 hv with hv | hv
  · obtain ⟨x, -, rfl⟩ := List.mem_map.1 hv
    exact hfmt x
  · simp only [List.mem_cons, List.not_mem_nil, or_false] at hv
    rcases hv with rfl | rfl | rfl | rfl | rfl
    · exact hfmt _
    · exact hfmt _
    · exact hfmt _
    · exact plainField_toStr _
    · exact plainField_toStr _

theorem fields_ne_nil (fmt : F → Str) (s : State (Fin d → F) F) : fields fmt s ≠ [] :=
  List.append_ne_nil_of_right_ne_nil _ (List.cons_ne_nil _ _)

/-- **A row is read back.** -/
theorem splitOn_row (hfmt : Plain fmt) (s : State (Fin d → F) F) :
    (row fmt s).splitOn ',' = fields fmt s := by
  rw [row_eq]
  exact List.splitOn_intercalate ',' (fun v hv => (fields_plain hfmt s v hv).1) (fields_ne_nil fmt s)

theorem row_ne_nil (s : State (Fin d → F) F) : row fmt s ≠ [] := by simp [row]

theorem newline_not_mem_intercalate {vs : List Str} (h : ∀ v ∈ vs, '\n' ∉ v) :
    '\n' ∉ [','].intercalate vs := by
  induction vs with
  | nil => exact List.not_mem_nil
  | cons v vs ih =>
    rw [List.forall_mem_cons] at h
    cases vs with
    | nil => simpa using h.1
    | cons u us =>
      rw [List.intercalate_cons_cons, List.mem_append, List.mem_append]
      rintro ((hv | hcomma) | hus)
      · exact h.1 hv
      · exact absurd hcomma (by decide)
      · exact ih h.2 hus

/-- A row is one line. -/
theorem newline_not_mem_row (hfmt : Plain fmt) (s : State (Fin d → F) F) : '\n' ∉ row fmt s := by
  rw [row_eq]
  exact newline_not_mem_intercalate fun v hv => (fields_plain hfmt s v hv).2.1

/-! ## Files -/

theorem append_eq (file : Str) (states : List (State (Fin d → F) F)) :
    append fmt file states = file ++ unlines '\n' (states.map (row fmt)) := by
  induction states generalizing file with
  | nil => exact (List.append_nil file).symm
  | cons s states ih =>
    rw [append, List.foldl_cons]
    refine (ih _).trans ?_
    rw [List.map_cons, unlines_cons, List.append_assoc, List.append_assoc]
    rfl

theorem text_eq (c : ChainArray (Fin d → F) F) (k : ℕ) :
    text fmt c k = unlines '\n' ((c.chainFiles k).map (row fmt)) := append_eq [] _

theorem lines_plain (hfmt : Plain fmt) (states : List (State (Fin d → F) F)) :
    ∀ l ∈ states.map (row fmt), '\n' ∉ l := by
  intro l hl
  obtain ⟨s, -, rfl⟩ := List.mem_map.1 hl
  exact newline_not_mem_row hfmt s

/-- **What is written is read**, row by row and field by field. -/
theorem reader_text (hfmt : Plain fmt) (c : ChainArray (Fin d → F) F) (k : ℕ) :
    reader (text fmt c k) = (c.chainFiles k).map (fields fmt) := by
  rw [reader, text_eq, lines_unlines (lines_plain hfmt _), List.map_map]
  refine List.map_congr_left ?_
  intro s _
  rw [Function.comp_apply, if_neg (row_ne_nil s), splitOn_row hfmt]

/-- **What is read of a text that is being written** is right, up to the last row. -/
theorem reader_prefix (hfmt : Plain fmt) {c : ChainArray (Fin d → F) F} {k : ℕ} {p : Str}
    (hp : p <+: text fmt c k) : (reader p).dropLast <+: reader (text fmt c k) := by
  rw [text_eq] at hp
  have hlines := lines_prefix (lines_plain hfmt _) hp
  rw [reader, reader, text_eq, lines_unlines (lines_plain hfmt _), ← List.map_dropLast]
  exact hlines.map _

/-- The samples are all but the last five fields. -/
theorem samples_text (hfmt : Plain fmt) (c : ChainArray (Fin d → F) F) (k : ℕ) :
    samples (text fmt c k) = (c.chainFiles k).map fun s => (List.ofFn s.sample).map fmt := by
  rw [samples, reader_text hfmt, List.map_map]
  refine List.map_congr_left ?_
  intro s _
  rw [Function.comp_apply, fields, List.length_append]
  exact List.take_left

theorem ndims_text (hfmt : Plain fmt) (c : ChainArray (Fin d → F) F) (k : ℕ) :
    ndims (text fmt c k) = if c.chainFiles k = [] then none else some d := by
  rw [ndims, samples_text hfmt]
  cases c.chainFiles k with
  | nil => rfl
  | cons s states => simp

/-- **A file that grows** keeps what is in it. -/
theorem text_prefix {c c' : ChainArray (Fin d → F) F} {k : ℕ} (h : c.chainFiles k <+: c'.chainFiles k) :
    text fmt c k <+: text fmt c' k := by
  rw [text_eq, text_eq]
  exact unlines_prefix (h.map _)

variable [Double F]

/-- **The file of a stack**, in every run of the chains. What is read of it and what is in the cache are
all that the coldest chain recorded; `vis.py` reads the samples, and their dimension from the first
row; a reader that comes while the file is written reads right all rows but the last, and what is in
the file stays there. -/
theorem file_round_trip (hfmt : Plain fmt) {nStacks nTemps : ℕ} (hT : 0 < nTemps) {now : ℤ}
    {ops : List (Op (Fin d → F) F)} {c : ChainArray (Fin d → F) F} {a : Chains (Fin d → F) F}
    (hc : ops.foldlM ChainArray.apply (.init nStacks nTemps now) = .ok c)
    (ha : ops.foldlM Chains.apply (Chains.init nStacks nTemps) = .ok a) (k : ℕ) :
    reader (text fmt c k) ++ (c.cache (k * nTemps)).map (fields fmt) =
      (a.states (k * nTemps)).map (fields fmt) ∧
    samples (text fmt c k) = (c.chainFiles k).map (fun s => (List.ofFn s.sample).map fmt) ∧
    ndims (text fmt c k) = (if c.chainFiles k = [] then none else some d) ∧
    (∀ p, p <+: text fmt c k → (reader p).dropLast <+: reader (text fmt c k)) ∧
    ∀ (ops' : List (Op (Fin d → F) F)) (c' : ChainArray (Fin d → F) F),
      ops'.foldlM ChainArray.apply c = .ok c' → text fmt c k <+: text fmt c' k := by
  have hrefines := foldlM_sim (fun _ _ op h => ChainArray.refines_apply h op) ops
    (ChainArray.refines_init (V := Fin d → F) (F := F) nStacks nTemps now)
  rw [hc, ha] at hrefines
  have hn : c.ntemps = nTemps := hrefines.ntemps.trans (Chains.size_run ha).2
  have hcold : c.isColdestInStack (k * nTemps) := decide_eq_true (by
    rw [ChainArray.chainIndex, ChainArray.numTemps_eq, hn, Nat.mul_mod_left])
  have hrecord := ChainArray.record_eq hrefines hcold
  rw [ChainArray.record, ChainArray.stackIndex, ChainArray.numTemps_eq, hn, Nat.mul_div_cancel k hT]
    at hrecord
  refine ⟨?_, samples_text hfmt c k, ndims_text hfmt c k, fun p hp => reader_prefix hfmt hp, ?_⟩
  · rw [reader_text hfmt, ← List.map_append, hrecord]
  · exact fun ops' c' hops => text_prefix (ChainArray.files_run hops k)

/-- A chain gets a second state, and the first one is written. -/
noncomputable def oneRow : List (Op (Fin 1 → ℝ) ℝ) :=
  [.initialise 0 (fun _ => 1) 1 1 1, .append 0 (fun _ => 1) 1 0 0, .flushToDisk 0]

/-- With a stream that writes every number as a one. -/
theorem file_round_trip_oneRow : ∃ (c : ChainArray (Fin 1 → ℝ) ℝ) (a : Chains (Fin 1 → ℝ) ℝ),
    oneRow.foldlM ChainArray.apply (.init 1 1 0) = .ok c ∧
    oneRow.foldlM Chains.apply (Chains.init 1 1) = .ok a ∧ (a.states 0).length = 2 ∧
    reader (text (fun _ => ['1']) c 0) ++ (c.cache 0).map (fields fun _ => ['1']) =
      (a.states 0).map (fields fun _ => ['1']) := by
  obtain ⟨c, hc⟩ : ∃ c, oneRow.foldlM ChainArray.apply (.init 1 1 0) = .ok c := ⟨_, rfl⟩
  obtain ⟨a, ha, hlen⟩ : ∃ a, oneRow.foldlM Chains.apply (Chains.init 1 1) = .ok a ∧
    (a.states 0).length = 2 := ⟨_, rfl, rfl⟩
  have hone : Plain fun _ : ℝ => ['1'] := fun _ => plainField_toStr 1
  exact ⟨c, a, hc, ha, hlen, (file_round_trip hone Nat.one_pos hc ha 0).1⟩

end Csv

/-! ## The output of a run -/

namespace Service

variable {P F : Type} {d : ℕ} {c : Deployment P F} {s : Service P F d} {fmt : F → Str}
variable [Double F] [Inhabited F] [Proposal P (Fin d → F) F]

/-- **The output of a run.** When `runSampler` has returned, the files of all stacks together have one row
for each sample that was counted and one for each stack, and the energy of each row is what the
workers make of its sample, whatever the order in which they came, went and answered. -/
theorem service_output (hc : c.OK d) (hT : 0 < c.ntemps) (hrows : c.nsamples + 2 * c.nstacks < 2 ^ 32)
    {as : List (Act F d)} (h : Reach (step c) (Allowed c) (init c) as s)
    (hbound : s.cluster.created < 2 ^ 32) (hfmt : Csv.Plain fmt) {sampler : Sampler P (Fin d → F) F}
    {nsamples : ℕ} (hp : s.program = .finished sampler nsamples) :
    ∑ k ∈ Finset.range c.nstacks, (Csv.reader (Csv.text fmt sampler.chains k)).length =
      nsamples + c.nstacks ∧
    ∀ k, ∀ row ∈ Csv.reader (Csv.text fmt sampler.chains k), ∃ state : State (Fin d → F) F,
      row = Csv.fields fmt state ∧ state.energy = Sampler.energyOf (likelihoods c state.sample) := by
  obtain ⟨-, bs, hbs⟩ := inv_of_reach hc h hbound
  obtain ⟨hinv, hholds, hcounted⟩ := recorded_of_reach hc.chains hc.interval hbs
  have hcounted := hcounted hT hrows
  rw [hp] at hinv hholds hcounted
  obtain ⟨a, ha, hall⟩ := hholds
  have henergies := (ChainArray.all_of_refines ha (by rw [hinv.2]; exact hT) hall).2
  refine ⟨?_, ?_⟩
  · simp only [Csv.reader_text hfmt, List.length_map]
    exact hcounted.2
  · intro k row hrow
    rw [Csv.reader_text hfmt] at hrow
    obtain ⟨state, hstate, rfl⟩ := List.mem_map.1 hrow
    exact ⟨state, rfl, henergies k state hstate⟩

/-- There is one row. -/
theorem service_output_run : ∃ (s : Service (Drawn ℝ 1) ℝ 1) (sampler : Sampler (Drawn ℝ 1) (Fin 1 → ℝ) ℝ),
    Reach (step oneChain) (Allowed oneChain) (init oneChain)
      (toAnswer ++ [.retrieve 0 0 0, .start, .stop] ++ again ++ [.finish]) s ∧
    s.program = .finished sampler 0 ∧
    ∑ k ∈ Finset.range 1, (Csv.reader (Csv.text (fun _ => ['0']) sampler.chains k)).length = 0 + 1 := by
  obtain ⟨s, sampler, h, hcreated, hp⟩ := toEnd_run
  have hzero : Csv.Plain fun _ : ℝ => ['0'] := fun _ => Csv.plainField_toStr 0
  exact ⟨s, sampler, h, hp, (service_output oneChain_ok Nat.one_pos (by decide) h
    (by rw [hcreated]; decide) hzero hp).1⟩

end Service

end Stateline
