import Mathlib

/-!
# Reflections at two walls

The points that the reflections at two walls carry to each other (`Image`). Every
point has one image between the walls, its fold.

* `Image` is an equivalence; shifts by twice the distance of the walls and reflections at
  either of them stay within a class.
* `Image.unique`: two images of each other between the walls are equal.
* `image_of_even`, `image_of_odd`: what is left of the way to a point beyond a wall, after whole
  distances, is measured from that wall or from the other one.
-/

namespace Stateline.Lib

/-! The side conditions of the numerals are constants, so that a definition is the same term in every
module that shares one. -/

instance atLeastTwo_two : Nat.AtLeastTwo 2 := inferInstance

instance atLeastTwo_four : Nat.AtLeastTwo 4 := inferInstance

namespace Reflection

variable {K : Type*} [Field K] {lo hi u v w : K}

/-- Reflections at `lo` and `hi` carry `v` to `w`. -/
def Image (lo hi v w : K) : Prop :=
  ∃ k : ℤ, w = v + 2 * k * (hi - lo) ∨ w = 2 * hi - v + 2 * k * (hi - lo)

theorem Image.refl (lo hi v : K) : Image lo hi v v := ⟨0, .inl (by simp)⟩

theorem Image.symm (h : Image lo hi v w) : Image lo hi w v := by
  obtain ⟨k, rfl | rfl⟩ := h
  · refine ⟨-k, .inl ?_⟩
    push_cast
    ring
  · refine ⟨k, .inr ?_⟩
    ring

theorem Image.trans (h : Image lo hi u v) (h' : Image lo hi v w) : Image lo hi u w := by
  obtain ⟨k, rfl | rfl⟩ := h
  · obtain ⟨l, rfl | rfl⟩ := h'
    · refine ⟨k + l, .inl ?_⟩
      push_cast
      ring
    · refine ⟨l - k, .inr ?_⟩
      push_cast
      ring
  · obtain ⟨l, rfl | rfl⟩ := h'
    · refine ⟨k + l, .inr ?_⟩
      push_cast
      ring
    · refine ⟨l - k, .inl ?_⟩
      push_cast
      ring

/-- A shift by twice the distance of the walls. -/
theorem Image.shift (lo hi v : K) (k : ℤ) : Image lo hi v (v + 2 * k * (hi - lo)) := ⟨k, .inl rfl⟩

/-- A reflection at the upper wall. -/
theorem Image.mirror_hi (lo hi v : K) : Image lo hi v (2 * hi - v) := ⟨0, .inr (by simp)⟩

/-- A reflection at the lower wall. -/
theorem Image.mirror_lo (lo hi v : K) : Image lo hi v (2 * lo - v) := by
  refine ⟨-1, .inr ?_⟩
  push_cast
  ring

/-- After an even number of distances what is left is measured from the wall that was passed. -/
theorem image_of_even (v : K) {n : ℤ} (hn : Even n) :
    Image lo hi v (hi - (v - hi - n * (hi - lo))) ∧ Image lo hi v (lo + (lo - v - n * (hi - lo))) := by
  obtain ⟨m, rfl⟩ := hn
  refine ⟨⟨m, .inr ?_⟩, ⟨-m - 1, .inr ?_⟩⟩
  · push_cast
    ring
  · push_cast
    ring

/-- After an odd number it is measured from the other wall. -/
theorem image_of_odd (v : K) {n : ℤ} (hn : Odd n) :
    Image lo hi v (lo + (v - hi - n * (hi - lo))) ∧ Image lo hi v (hi - (lo - v - n * (hi - lo))) := by
  obtain ⟨m, rfl⟩ := hn
  refine ⟨⟨-m - 1, .inl ?_⟩, ⟨m + 1, .inl ?_⟩⟩
  · push_cast
    ring
  · push_cast
    ring

variable [LinearOrder K] [IsStrictOrderedRing K]

/-- An even number of distances that is less than two of them is none. -/
theorem eq_zero_of_abs_lt {δ : K} (hδ : 0 < δ) {k : ℤ} (h : |2 * k * δ| < 2 * δ) : k = 0 := by
  rw [abs_mul, abs_of_pos hδ, mul_lt_mul_iff_of_pos_right hδ, abs_mul, abs_two] at h
  have hk : |(k : K)| < 1 := by linarith
  rw [← Int.cast_abs] at hk
  have : |k| < 1 := by exact_mod_cast hk
  exact Int.abs_lt_one_iff.1 this

/-- **Two images of each other between the walls are equal.** -/
theorem Image.unique (hlt : lo < hi) (hv : v ∈ Set.Icc lo hi) (hw : w ∈ Set.Icc lo hi)
    (h : Image lo hi v w) : w = v := by
  have hδ : 0 < hi - lo := sub_pos.2 hlt
  obtain ⟨hv₁, hv₂⟩ := hv
  obtain ⟨hw₁, hw₂⟩ := hw
  obtain ⟨k, hk | hk⟩ := h
  · have habs : |2 * k * (hi - lo)| < 2 * (hi - lo) := by
      rw [abs_lt]
      constructor <;> linarith
    rw [hk, eq_zero_of_abs_lt hδ habs]
    simp
  · -- the sum of the two is that of one wall with itself
    rcases lt_trichotomy k 0 with hneg | rfl | hpos
    · have hk1 : (k : K) ≤ -1 := by exact_mod_cast (by omega : k ≤ -1)
      have hmul : k * (hi - lo) ≤ -1 * (hi - lo) := mul_le_mul_of_nonneg_right hk1 hδ.le
      linarith
    · simp only [Int.cast_zero, mul_zero, zero_mul, add_zero] at hk
      linarith
    · have hk1 : (1 : K) ≤ k := by exact_mod_cast (by omega : 1 ≤ k)
      have hmul : 1 * (hi - lo) ≤ k * (hi - lo) := mul_le_mul_of_nonneg_right hk1 hδ.le
      linarith

end Reflection

end Stateline.Lib
