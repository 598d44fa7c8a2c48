import Stateline.Infer.GaussianProposal
import Stateline.Lib.Reflection
import Stateline.Lib.Run

/-!
# Bouncing off the bounds

`bouncyBounds` in exact arithmetic, where the number of widths that a component is
beyond a bound is an `int`.

* `bounce_eq_ok_iff`: a component is folded between its bounds.
* `bouncyBounds_reflects`: **`bouncyBounds` is reflection at both walls**: the result is in the
  box, is the argument there, and is the same for all images of a component.
-/

namespace Stateline

open Lib Reflection

variable {v w r lo hi : ℝ}

/-- The number of widths that `v` is beyond a bound is an `int`. -/
def InRange (v lo hi : ℝ) : Prop := (v - hi) / (hi - lo) < 2 ^ 31 ∧ (lo - v) / (hi - lo) < 2 ^ 31

/-- The conversion of a number that is not negative. -/
theorem toInt_eq (hv : 0 ≤ v) : toInt v = if v < 2 ^ 31 then .ok ⌊v⌋ else .error .undefined := by
  have htrunc : CMath.trunc v = ⌊v⌋ := if_pos hv
  have hfloor : 0 ≤ ⌊v⌋ := Int.floor_nonneg.2 hv
  have hlt : ⌊v⌋ < 2 ^ 31 ↔ v < 2 ^ 31 := by
    rw [Int.floor_lt]
    norm_num
  unfold toInt
  simp only [htrunc, hlt]
  by_cases h : v < 2 ^ 31
  · rw [if_pos h, if_pos ⟨by omega, h⟩]
  · rw [if_neg h, if_neg fun h' => h h'.2]

theorem even_of_tmod {n : ℤ} (hn : 0 ≤ n) : n.tmod 2 = 0 ↔ Even n := by
  rw [Int.tmod_eq_emod_of_nonneg hn, Int.even_iff]

/-- What is left of the way beyond a wall after whole widths. -/
theorem rest_mem {δ q : ℝ} (hδ : 0 < δ) : 0 ≤ q - ⌊q / δ⌋ * δ ∧ q - ⌊q / δ⌋ * δ < δ := by
  have h₁ := Int.floor_le (q / δ)
  have h₂ := Int.lt_floor_add_one (q / δ)
  rw [le_div_iff₀ hδ] at h₁
  rw [div_lt_iff₀ hδ] at h₂
  constructor <;> linarith

/-! ## One component -/

theorem bounce_inside (hv : v ∈ Set.Icc lo hi) : bounce v lo hi = .ok v := by
  have hbig : Double.lt hi v = false := decide_eq_false (not_lt.2 hv.2)
  have hsmall : Double.lt v lo = false := decide_eq_false (not_lt.2 hv.1)
  unfold bounce
  simp only [hbig, hsmall, Bool.false_eq_true, if_false, ok_bind]

/-- A component above the upper bound. -/
theorem bounce_big (hlt : lo < hi) (hv : hi < v) : bounce v lo hi =
    if (v - hi) / (hi - lo) < 2 ^ 31 then
      .ok (if Even ⌊(v - hi) / (hi - lo)⌋ then hi - (v - hi - ⌊(v - hi) / (hi - lo)⌋ * (hi - lo))
        else lo + (v - hi - ⌊(v - hi) / (hi - lo)⌋ * (hi - lo)))
    else .error .undefined := by
  have hq : 0 ≤ (v - hi) / (hi - lo) := div_nonneg (by linarith) (by linarith)
  have hbig : Double.lt hi v = true := decide_eq_true hv
  have hsmall : Double.lt v lo = false := decide_eq_false (by linarith)
  unfold bounce
  simp only [hbig, hsmall, Bool.false_eq_true, if_false, if_true, toInt_eq hq]
  split
  · simp only [ok_bind, even_of_tmod (Int.floor_nonneg.2 hq)]
    rfl
  · rfl

/-- A component below the lower bound. -/
theorem bounce_small (hlt : lo < hi) (hv : v < lo) : bounce v lo hi =
    if (lo - v) / (hi - lo) < 2 ^ 31 then
      .ok (if Even ⌊(lo - v) / (hi - lo)⌋ then lo + (lo - v - ⌊(lo - v) / (hi - lo)⌋ * (hi - lo))
        else hi - (lo - v - ⌊(lo - v) / (hi - lo)⌋ * (hi - lo)))
    else .error .undefined := by
  have hq : 0 ≤ (lo - v) / (hi - lo) := div_nonneg (by linarith) (by linarith)
  have hbig : Double.lt hi v = false := decide_eq_false (by linarith)
  have hsmall : Double.lt v lo = true := decide_eq_true hv
  unfold bounce
  simp only [hbig, hsmall, Bool.false_eq_true, if_false, if_true, ok_bind, toInt_eq hq]
  split
  · simp only [ok_bind, even_of_tmod (Int.floor_nonneg.2 hq)]
    rfl
  · rfl

/-- A component that is in range is folded between its bounds. -/
theorem bounce_ok (hlt : lo < hi) (hv : InRange v lo hi) :
    ∃ r, bounce v lo hi = .ok r ∧ r ∈ Set.Icc lo hi ∧ Image lo hi v r := by
  have hδ : 0 < hi - lo := sub_pos.2 hlt
  rcases lt_or_ge hi v with hbig | hle
  · rw [bounce_big hlt hbig, if_pos hv.1]
    obtain ⟨h₁, h₂⟩ := rest_mem (q := v - hi) hδ
    by_cases heven : Even ⌊(v - hi) / (hi - lo)⌋
    · rw [if_pos heven]
      exact ⟨_, rfl, ⟨by linarith, by linarith⟩, (image_of_even v heven).1⟩
    · rw [if_neg heven]
      exact ⟨_, rfl, ⟨by linarith, by linarith⟩, (image_of_odd v (Int.not_even_iff_odd.1 heven)).1⟩
  · rcases lt_or_ge v lo with hsmall | hge
    · rw [bounce_small hlt hsmall, if_pos hv.2]
      obtain ⟨h₁, h₂⟩ := rest_mem (q := lo - v) hδ
      by_cases heven : Even ⌊(lo - v) / (hi - lo)⌋
      · rw [if_pos heven]
        exact ⟨_, rfl, ⟨by linarith, by linarith⟩, (image_of_even v heven).2⟩
      · rw [if_neg heven]
        exact ⟨_, rfl, ⟨by linarith, by linarith⟩, (image_of_odd v (Int.not_even_iff_odd.1 heven)).2⟩
    · exact ⟨v, bounce_inside ⟨hge, hle⟩, ⟨hge, hle⟩, .refl lo hi v⟩

/-- A component that returned was in range. -/
theorem inRange_of_bounce (hlt : lo < hi) (h : bounce v lo hi = .ok r) : InRange v lo hi := by
  have hδ : 0 < hi - lo := sub_pos.2 hlt
  have hneg : ∀ {q : ℝ}, q ≤ 0 → q / (hi - lo) < 2 ^ 31 := fun hq =>
    (div_nonpos_of_nonpos_of_nonneg hq hδ.le).trans_lt (by norm_num)
  rcases lt_or_ge hi v with hbig | hle
  · rw [bounce_big hlt hbig] at h
    split at h
    · rename_i hq
      exact ⟨hq, hneg (by linarith)⟩
    · cases h
  · rcases lt_or_ge v lo with hsmall | hge
    · rw [bounce_small hlt hsmall] at h
      split at h
      · rename_i hq
        exact ⟨hneg (by linarith), hq⟩
      · cases h
    · exact ⟨hneg (by linarith), hneg (by linarith)⟩

/-- **A component is folded between its bounds**, when it is in range. -/
theorem bounce_eq_ok_iff (hlt : lo < hi) :
    bounce v lo hi = .ok r ↔ InRange v lo hi ∧ r ∈ Set.Icc lo hi ∧ Image lo hi v r := by
  constructor
  · intro h
    have hv := inRange_of_bounce hlt h
    obtain ⟨r', h', hmem, himage⟩ := bounce_ok hlt hv
    rw [h] at h'
    injection h' with h'
    exact h' ▸ ⟨hv, hmem, himage⟩
  · rintro ⟨hv, hmem, himage⟩
    obtain ⟨r', h', hmem', himage'⟩ := bounce_ok hlt hv
    rw [h', himage.symm.trans himage' |>.unique hlt hmem hmem']

/-! ## All components -/

variable {d : ℕ} {val min max result : Fin d → ℝ}

theorem bouncyBounds_eq_ok_iff : bouncyBounds val min max = .ok result ↔
    ∀ i, bounce (val i) (min i) (max i) = .ok (result i) := by
  unfold bouncyBounds
  rw [foldlM_update_eq_ok (List.nodup_finRange d)]
  simp

/-- **`bouncyBounds` is reflection at both walls**, as long as no component is `2 ^ 31` widths
beyond one. The result is in the box; a component that is inside stays, and any other is folded
by reflections. So the function is idempotent, and a component of the result is the same for a
component of the argument that is shifted by two widths or mirrored at either wall, whatever
the other components are. -/
theorem bouncyBounds_reflects (hlt : ∀ i, min i < max i) (hval : ∀ i, InRange (val i) (min i) (max i)) :
    ∃ result, bouncyBounds val min max = .ok result ∧
      (∀ i, min i ≤ result i ∧ result i ≤ max i) ∧
      (∀ i, min i ≤ val i → val i ≤ max i → result i = val i) ∧
      (∀ i, ∃ k : ℤ, result i = val i + 2 * k * (max i - min i) ∨
        result i = 2 * max i - val i + 2 * k * (max i - min i)) ∧
      bouncyBounds result min max = .ok result ∧
      ∀ val' : Fin d → ℝ, (∀ i, InRange (val' i) (min i) (max i)) →
        ∃ result', bouncyBounds val' min max = .ok result' ∧ ∀ i,
          val' i = val i ∨ val' i = val i + 2 * (max i - min i) ∨ val' i = val i - 2 * (max i - min i) ∨
            val' i = 2 * max i - val i ∨ val' i = 2 * min i - val i → result' i = result i := by
  choose result hrun hmem himage using fun i => bounce_ok (hlt i) (hval i)
  refine ⟨result, bouncyBounds_eq_ok_iff.2 hrun, hmem, ?_, himage, ?_, ?_⟩
  · intro i h₁ h₂
    exact (himage i).unique (hlt i) ⟨h₁, h₂⟩ (hmem i)
  · exact bouncyBounds_eq_ok_iff.2 fun i => bounce_inside (hmem i)
  · intro val' hval'
    choose result' hrun' hmem' himage' using fun i => bounce_ok (hlt i) (hval' i)
    refine ⟨result', bouncyBounds_eq_ok_iff.2 hrun', ?_⟩
    intro i hrel
    have hsame : Image (min i) (max i) (val i) (val' i) := by
      rcases hrel with h | h | h | h | h
      · rw [h]
        exact .refl _ _ _
      · rw [h]
        simpa using Image.shift (min i) (max i) (val i) 1
      · rw [h]
        simpa [sub_eq_add_neg] using Image.shift (min i) (max i) (val i) (-1)
      · rw [h]
        exact .mirror_hi _ _ _
      · rw [h]
        exact .mirror_lo _ _ _
    exact ((himage i).symm.trans (hsame.trans (himage' i))).unique (hlt i) (hmem i) (hmem' i)

theorem bouncyBounds_reflects_square : ∃ result : Fin 2 → ℝ,
    bouncyBounds ![9 / 4, 1 / 2] (fun _ => 0) (fun _ => 1) = .ok result ∧ result 1 = 1 / 2 := by
  obtain ⟨result, hrun, -, hinside, -⟩ :=
    @bouncyBounds_reflects 2 ![9 / 4, 1 / 2] (fun _ => 0) (fun _ => 1)
    (fun _ => one_pos) (by
      intro i
      fin_cases i
      · constructor <;> norm_num
      · constructor <;> norm_num)
  exact ⟨result, hrun, hinside 1 (by norm_num) (by norm_num)⟩

end Stateline
