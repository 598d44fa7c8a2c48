import Mathlib

/-!
# Lines of text

Lines that each end in a newline, and what can be read of a text that is still being written.
`lines_unlines`: whole lines are read back. `lines_prefix`: of a text that was not written to its
end, all lines that are read but the last are lines of the whole.
-/

namespace Stateline.Lib

variable {α : Type*} {nl : α} {ls : List (List α)} {l p : List α}

/-- Each line with its end. -/
def unlines (nl : α) (ls : List (List α)) : List α := ls.flatMap fun l => l ++ [nl]

theorem unlines_cons (nl : α) (l : List α) (ls : List (List α)) :
    unlines nl (l :: ls) = l ++ nl :: unlines nl ls := by
  rw [unlines, List.flatMap_cons, List.append_assoc]
  rfl

theorem unlines_prefix {ls' : List (List α)} (h : ls <+: ls') : unlines nl ls <+: unlines nl ls' := by
  obtain ⟨rest, rfl⟩ := h
  rw [unlines, unlines, List.flatMap_append]
  exact List.prefix_append _ _

variable [DecidableEq α]

/-- The lines of a text. The last one may lack its end, and then it is not empty. -/
def lines (nl : α) (t : List α) : List (List α) :=
  if (t.splitOn nl).getLast? = some [] then (t.splitOn nl).dropLast else t.splitOn nl

theorem splitOn_line (hl : nl ∉ l) (t : List α) :
    (l ++ nl :: t).splitOn nl = l :: t.splitOn nl := by
  refine List.splitOnP_append_cons_of_forall_mem (p := (· == nl)) ?_ nl (beq_self_eq_true nl) t
  intro x hx
  exact beq_eq_false_iff_ne.2 fun he => hl (he ▸ hx)

theorem splitOn_unlines (h : ∀ l ∈ ls, nl ∉ l) : (unlines nl ls).splitOn nl = ls ++ [[]] := by
  induction ls with
  | nil => exact List.splitOn_nil nl
  | cons l ls ih =>
    rw [List.forall_mem_cons] at h
    rw [unlines_cons, splitOn_line h.1, ih h.2, List.cons_append]

/-- **Whole lines** are read back. -/
theorem lines_unlines (h : ∀ l ∈ ls, nl ∉ l) : lines nl (unlines nl ls) = ls := by
  rw [lines, splitOn_unlines h, List.getLast?_concat, if_pos rfl, List.dropLast_concat]

/-- What is before the last newline of the beginning of a text. -/
theorem splitOn_prefix (h : ∀ l ∈ ls, nl ∉ l) (hp : p <+: unlines nl ls) :
    (p.splitOn nl).dropLast <+: ls := by
  induction ls generalizing p with
  | nil =>
    obtain rfl : p = [] := List.prefix_nil.1 hp
    rw [List.splitOn_nil]
    exact List.prefix_rfl
  | cons l ls ih =>
    rw [List.forall_mem_cons] at h
    rw [unlines_cons, ← List.singleton_append, ← List.append_assoc] at hp
    by_cases hline : p <+: l
    · -- not even the first line is complete
      have hnl : nl ∉ p := fun hmem => h.1 (hline.subset hmem)
      rw [List.splitOn_eq_singleton hnl]
      exact List.nil_prefix
    · have hwhole : l ++ [nl] <+: p := by
        rcases List.prefix_or_prefix_of_prefix hp (List.prefix_append (l ++ [nl]) _) with hle | hle
        · rcases List.prefix_concat_iff.1 hle with rfl | hle
          · exact List.prefix_rfl
          · exact absurd hle hline
        · exact hle
      obtain ⟨q, rfl⟩ := hwhole
      rw [List.prefix_append_right_inj] at hp
      rw [List.append_assoc, List.singleton_append, splitOn_line h.1,
        List.dropLast_cons_of_ne_nil (List.splitOn_ne_nil nl q), List.cons_prefix_cons]
      exact ⟨rfl, ih h.2 hp⟩

/-- **A text that is being written**: all lines but the last are right. -/
theorem lines_prefix (h : ∀ l ∈ ls, nl ∉ l) (hp : p <+: unlines nl ls) :
    (lines nl p).dropLast <+: ls := by
  have hpre := splitOn_prefix h hp
  unfold lines
  split
  · exact (List.dropLast_prefix _).trans hpre
  · exact hpre

end Stateline.Lib
