import Stateline.Infer.Drawn
import Stateline.Proof.Bounce

/-!
# What can be folded

`bouncyBounds` for any bounds, also where they are equal or in the wrong order: it divides by their
distance and converts the quotient to an `int`.

* `foldBounds_returns_iff`: **a point is folded** when each of its components is `Foldable`.
-/

namespace Stateline

variable {v lo hi : ℝ} {d : ℕ} {val min max : Fin d → ℝ}

/-- A component is between its bounds, or they differ and it is fewer widths beyond a bound than an
`int` can count. -/
def Foldable (v lo hi : ℝ) : Prop :=
  (hi < v → hi ≠ lo ∧ -2 ^ 31 - 1 < (v - hi) / (hi - lo) ∧ (v - hi) / (hi - lo) < 2 ^ 31) ∧
    (v < lo → hi ≠ lo ∧ -2 ^ 31 - 1 < (lo - v) / (hi - lo) ∧ (lo - v) / (hi - lo) < 2 ^ 31)

theorem isZero_iff : isZero v = true ↔ v = 0 := by
  simp only [isZero, Double.lt, Double.zero_eq, Bool.and_eq_true, Bool.not_eq_true',
    decide_eq_false_iff_not, not_lt]
  constructor
  · rintro ⟨h₁, h₂⟩
    exact le_antisymm h₂ h₁
  · rintro rfl
    exact ⟨le_rfl, le_rfl⟩

/-- The numbers that are converted to an `int`. -/
theorem toInt_returns_iff : (∃ z, toInt v = .ok z) ↔ -2 ^ 31 - 1 < v ∧ v < 2 ^ 31 := by
  have hrange : (-2 ^ 31 ≤ CMath.trunc v ∧ CMath.trunc v < 2 ^ 31) ↔ -2 ^ 31 - 1 < v ∧ v < 2 ^ 31 := by
    rcases le_or_gt 0 v with hv | hv
    · have htrunc : CMath.trunc v = ⌊v⌋ := if_pos hv
      have hfloor : 0 ≤ ⌊v⌋ := Int.floor_nonneg.2 hv
      rw [htrunc, Int.floor_lt]
      refine and_congr (iff_of_true ?_ ?_) (by norm_num)
      · omega
      · linarith
    · have htrunc : CMath.trunc v = ⌈v⌉ := if_neg hv.not_ge
      have hceil : ⌈v⌉ ≤ 0 := Int.ceil_le.2 (by simpa using hv.le)
      rw [htrunc, Int.le_ceil_iff]
      refine and_congr (by norm_num) (iff_of_true ?_ ?_)
      · omega
      · linarith
  unfold toInt
  dsimp only
  rw [← hrange]
  split
  · rename_i h
    exact iff_of_true ⟨_, rfl⟩ h
  · rename_i h
    exact iff_of_false (fun ⟨_, hz⟩ => by cases hz) h

/-- A computation goes on with the result of another, whatever that is. -/
theorem bind_returns_iff {α β : Type} {x : Except Fault α} {f : α → Except Fault β} {p : Prop}
    (hf : ∀ a, (∃ b, f a = .ok b) ↔ p) : (∃ b, (x >>= f) = .ok b) ↔ (∃ a, x = .ok a) ∧ p := by
  constructor
  · rintro ⟨b, h⟩
    obtain ⟨a, ha, h⟩ := bind_eq_ok h
    exact ⟨⟨a, ha⟩, (hf a).1 ⟨b, h⟩⟩
  · rintro ⟨⟨a, rfl⟩, h⟩
    exact (hf a).2 h

/-- A branch that may fail. -/
theorem ite_returns_iff {α β : Type} {c : Prop} [Decidable c] {x : Except Fault α} {f : α → β} {b : β} :
    (∃ r, (if c then do return f (← x) else .ok b) = .ok r) ↔ (c → ∃ a, x = .ok a) := by
  split
  · rename_i hc
    have hbind : (∃ r, (do return f (← x) : Except Fault β) = .ok r) ↔ (∃ a, x = .ok a) ∧ True :=
      bind_returns_iff fun a => iff_of_true ⟨_, rfl⟩ trivial
    rw [hbind, and_true]
    exact ⟨fun h _ => h, fun h => h hc⟩
  · rename_i hc
    exact iff_of_true ⟨_, rfl⟩ fun h => absurd h hc

/-- **A component is folded** where both conversions are. -/
theorem bounce_returns_iff : (∃ r, bounce v lo hi = .ok r) ↔
    (hi < v → ∃ z, toInt ((v - hi) / (hi - lo)) = .ok z) ∧
      (v < lo → ∃ z, toInt ((lo - v) / (hi - lo)) = .ok z) := by
  unfold bounce
  simp only [Double.lt, decide_eq_true_eq]
  rw [bind_returns_iff fun _ => ite_returns_iff, ite_returns_iff]

/-- **The points that are folded** are those all of whose components can be. -/
theorem foldBounds_returns_iff :
    (∃ r, foldBounds val min max = .ok r) ↔ ∀ i, Foldable (val i) (min i) (max i) := by
  have hzero : (List.finRange d).any (fun i => dividesByZero (val i) (min i) (max i)) = true ↔
      ∃ i, (max i < val i ∨ val i < min i) ∧ max i = min i := by
    simp only [List.any_eq_true, List.mem_finRange, true_and, dividesByZero, Bool.and_eq_true,
      Bool.or_eq_true, Double.lt, decide_eq_true_eq, isZero_iff, sub_eq_zero]
  unfold foldBounds
  by_cases hdiv : ∃ i, (max i < val i ∨ val i < min i) ∧ max i = min i
  · rw [if_pos (hzero.2 hdiv)]
    refine iff_of_false (fun ⟨_, hr⟩ => by cases hr) ?_
    intro hfold
    obtain ⟨i, hout, hwidth⟩ := hdiv
    rcases hout with hbig | hsmall
    · exact ((hfold i).1 hbig).1 hwidth
    · exact ((hfold i).2 hsmall).1 hwidth
  · rw [if_neg fun h => hdiv (hzero.1 h)]
    have hentries : (∃ r, bouncyBounds val min max = .ok r) ↔
        ∀ i, ∃ r, bounce (val i) (min i) (max i) = .ok r := by
      simp only [bouncyBounds_eq_ok_iff]
      exact (Classical.skolem (p := fun i r => bounce (val i) (min i) (max i) = .ok r)).symm
    rw [hentries]
    refine forall_congr' fun i => ?_
    rw [bounce_returns_iff, toInt_returns_iff, toInt_returns_iff]
    have hbig : max i < val i → max i ≠ min i := fun h he => hdiv ⟨i, .inl h, he⟩
    have hsmall : val i < min i → max i ≠ min i := fun h he => hdiv ⟨i, .inr h, he⟩
    exact and_congr (forall_congr' fun h => (and_iff_right (hbig h)).symm)
      (forall_congr' fun h => (and_iff_right (hsmall h)).symm)

/-- Between different bounds, a component that is in range. -/
theorem foldable_of_inRange (hlt : lo < hi) (h : InRange v lo hi) : Foldable v lo hi := by
  have hpos : ∀ q : ℝ, 0 ≤ q → -2 ^ 31 - 1 < q / (hi - lo) := fun q hq =>
    lt_of_lt_of_le (by norm_num) (div_nonneg hq (sub_nonneg.2 hlt.le))
  exact ⟨fun hv => ⟨hlt.ne', hpos _ (sub_nonneg.2 hv.le), h.1⟩,
    fun hv => ⟨hlt.ne', hpos _ (sub_nonneg.2 hv.le), h.2⟩⟩

/-- A step of fewer than `2 ^ 31` widths from inside the bounds. -/
theorem foldable_of_step {δ : ℝ} (hlt : lo < hi) (hv : v ∈ Set.Icc lo hi)
    (hδ : |δ| < 2 ^ 31 * (hi - lo)) : Foldable (v + δ) lo hi := by
  obtain ⟨h₁, h₂⟩ := abs_lt.1 hδ
  have hw : 0 < hi - lo := sub_pos.2 hlt
  refine foldable_of_inRange hlt ⟨?_, ?_⟩
  · rw [div_lt_iff₀ hw]
    linarith [hv.2]
  · rw [div_lt_iff₀ hw]
    linarith [hv.1]

/-- What was folded between bounds is there. -/
theorem mem_of_foldBounds {r : Fin d → ℝ} (hlt : ∀ k, min k < max k)
    (h : foldBounds val min max = .ok r) (k : Fin d) : r k ∈ Set.Icc (min k) (max k) := by
  unfold foldBounds at h
  split at h
  · cases h
  · exact ((bounce_eq_ok_iff (hlt k)).1 (bouncyBounds_eq_ok_iff.1 h k)).2.1

end Stateline
