import Stateline.Proof.Regression
import Stateline.Lib.Window

/-!
# The reported rates

`RegressionAdapter::update` divides the sum of the window by the size that the window had before
its oldest outcome was dropped. The window keeps `nWindow - 1` outcomes, and the size divided by
goes up to `nWindow`.

* `Windowed.call`: what a report does to the window and the rate of a chain; `windowed_run`: a run.
* `windowed_rate_iff`: **when a rate is that of a window**, of either length.
-/

namespace Stateline.RegressionAdapter

open Lib

namespace Call

def acc : Call → Bool
  | .update _ _ _ acc => acc
  | .betaUpdate _ _ _ acc => acc

end Call

/-- The outcomes that the chain `i` reported. -/
def outcomes (i : ℕ) (calls : List Call) : List Bool := (calls.filter (·.chainID = i)).map (·.acc)

/-- The rate of the accepted outcomes among the last `W`, or among all when there are fewer. -/
noncomputable def windowedRate (W : ℕ) (os : List Bool) : ℝ :=
  (os.rtake W).count true / (min os.length W : ℕ)

/-- An outcome as an int. -/
def outcome (acc : Bool) : ℤ := if acc then 1 else 0

theorem sum_outcome (os : List Bool) : (os.map outcome).sum = os.count true := by
  induction os with
  | nil => rfl
  | cons acc os ih =>
    rw [List.map_cons, List.sum_cons, ih, List.count_cons]
    cases acc
    · simp [outcome]
    · simp [outcome, add_comm]

/-! ## The window -/

/-- **The window of the chain `i`** after the outcomes `os`. -/
structure Windowed (a : RegressionAdapter ℝ) (i : ℕ) (os : List Bool) : Prop where
  window : a.window i = (os.rtake (nWindow - 1)).map outcome
  sum : a.windowSum i = (a.window i).sum
  rate : a.rates i = (os.rtake (nWindow - 1)).count true / (min os.length nWindow : ℕ)

variable {a : RegressionAdapter ℝ} {i : ℕ} {os : List Bool}

theorem windowed_init (nStacks nTemps : ℕ) (optimalRate minCap maxCap : ℝ) (i : ℕ) :
    Windowed (init nStacks nTemps optimalRate minCap maxCap) i [] := by
  refine ⟨rfl, rfl, ?_⟩
  show (0.0 : ℝ) = (0 : ℕ) / (0 : ℕ)
  norm_num

/-- The window after an outcome. -/
theorem update_window (a : RegressionAdapter ℝ) (i : ℕ) (logval sideData : ℝ) (acc : Bool) :
    (a.update i logval sideData acc).window i = push (nWindow - 1) (a.window i) (outcome acc) := by
  simp only [RegressionAdapter.update, Function.update_self]
  rfl

/-- The sum and the rate after an outcome, from the window. -/
theorem update_rate (hs : a.windowSum i = (a.window i).sum) (logval sideData : ℝ) (acc : Bool) :
    (a.update i logval sideData acc).windowSum i = ((a.update i logval sideData acc).window i).sum ∧
      (a.update i logval sideData acc).rates i =
        ((a.update i logval sideData acc).window i).sum /
          ((a.window i ++ [outcome acc]).length : ℤ) := by
  have hsum : ∀ w : List ℤ, a.windowSum i = w.sum →
      (if nWindow ≤ (w ++ [outcome acc]).length then
        a.windowSum i + outcome acc - (w ++ [outcome acc]).headD 0 else a.windowSum i + outcome acc) =
      (push (nWindow - 1) w (outcome acc)).sum := by
    intro w hw
    have happ : a.windowSum i + outcome acc = (w ++ [outcome acc]).sum := by
      rw [List.sum_append, List.sum_singleton, hw]
    have hfull : nWindow - 1 < (w ++ [outcome acc]).length ↔ nWindow ≤ (w ++ [outcome acc]).length := by
      rw [nWindow]
      omega
    unfold push
    simp only [hfull, happ]
    split
    · exact (sum_tail (List.append_ne_nil_of_right_ne_nil _ (List.cons_ne_nil _ _))).symm
    · rfl
  rw [update_window, ← hsum _ hs]
  constructor
  · simp only [RegressionAdapter.update, Function.update_self]
    rfl
  · simp only [RegressionAdapter.update, Function.update_self]
    rfl

/-- **An outcome of the chain.** -/
theorem Windowed.update (h : Windowed a i os) (logval sideData : ℝ) (acc : Bool) :
    Windowed (a.update i logval sideData acc) i (os ++ [acc]) := by
  have hwindow : (a.update i logval sideData acc).window i =
      ((os ++ [acc]).rtake (nWindow - 1)).map outcome := by
    rw [update_window, h.window, map_rtake, push_rtake, map_rtake, List.map_append, List.map_singleton]
  obtain ⟨hsum, hrate⟩ := update_rate h.sum logval sideData acc
  refine ⟨hwindow, hsum, ?_⟩
  have hsize : (a.window i ++ [outcome acc]).length = min (os ++ [acc]).length nWindow := by
    rw [h.window, List.length_append, List.length_map, length_rtake, List.length_append,
      List.length_singleton, List.length_singleton, nWindow]
    omega
  rw [hrate, hwindow, sum_outcome, hsize, Int.cast_natCast, Int.cast_natCast]

/-- An outcome of another chain. -/
theorem call_other (c : Call) (hc : c.chainID ≠ i) : (a.call c).rates i = a.rates i ∧
    (a.call c).window i = a.window i ∧ (a.call c).windowSum i = a.windowSum i := by
  cases c with
  | update chainID logval sideData acc =>
    have hne : i ≠ chainID := fun h => hc h.symm
    simp only [call, RegressionAdapter.update, Function.update_of_ne hne, and_self]
  | betaUpdate chainID bl bh acc =>
    have hne : i ≠ chainID := fun h => hc h.symm
    simp only [call, betaUpdate, RegressionAdapter.update, Function.update_of_ne hne, and_self]

theorem Windowed.call (h : Windowed a i os) (c : Call) :
    Windowed (a.call c) i (os ++ outcomes i [c]) := by
  unfold outcomes
  by_cases hc : c.chainID = i
  · rw [List.filter_singleton, decide_eq_true hc, cond_true, List.map_singleton]
    subst hc
    cases c with
    | update chainID logval sideData acc => exact h.update logval sideData acc
    | betaUpdate chainID bl bh acc => exact h.update (Real.log bl - Real.log bh) (Real.log bl) acc
  · rw [List.filter_singleton, decide_eq_false hc, cond_false, List.map_nil, List.append_nil]
    obtain ⟨hrates, hwindow, hsum⟩ := call_other (a := a) c hc
    refine ⟨hwindow.trans h.window, ?_, hrates.trans h.rate⟩
    rw [hsum, hwindow]
    exact h.sum

/-- **After any run**, the window of a chain is that of its outcomes. -/
theorem windowed_run (h : Windowed a i os) (calls : List Call) :
    Windowed (calls.foldl RegressionAdapter.call a) i (os ++ outcomes i calls) := by
  induction calls generalizing a os with
  | nil => simpa [outcomes] using h
  | cons c calls ih =>
    have hsplit : outcomes i (c :: calls) = outcomes i [c] ++ outcomes i calls := by
      unfold outcomes
      rw [← List.map_append, ← List.filter_append, List.singleton_append]
    rw [hsplit, ← List.append_assoc]
    exact ih (h.call c)

/-! ## The rate -/

/-- With fewer than `nWindow` outcomes, none was dropped. -/
theorem Windowed.rate_short (h : Windowed a i os) (hn : os.length < nWindow) :
    a.rates i = os.count true / os.length := by
  rw [h.rate, rtake_of_length_le (Nat.le_sub_one_of_lt hn), min_eq_left hn.le]

theorem windowedRate_short {W : ℕ} (hn : os.length ≤ W) :
    windowedRate W os = os.count true / os.length := by
  unfold windowedRate
  rw [rtake_of_length_le hn, min_eq_left hn]

/-- The rate is that of the last `nWindow` outcomes, unless the oldest of them was accepted. -/
theorem Windowed.rate_iff (h : Windowed a i os) : a.rates i = windowedRate nWindow os ↔
    os.length < nWindow ∨ os[os.length - nWindow]? = some false := by
  rcases lt_or_ge os.length nWindow with hn | hn
  · rw [h.rate_short hn, windowedRate_short hn.le]
    exact iff_of_true rfl (.inl hn)
  · have hlt : os.length - nWindow < os.length := by
      have hpos : 0 < nWindow := by decide
      omega
    have hlast : os.rtake nWindow = os[os.length - nWindow] :: os.rtake (nWindow - 1) := rtake_succ hn
    have hpos : ((min os.length nWindow : ℕ) : ℝ) ≠ 0 := by
      rw [min_eq_right hn]
      norm_num [nWindow]
    rw [h.rate, windowedRate, div_left_inj' hpos, Nat.cast_inj, hlast, List.count_cons,
      List.getElem?_eq_getElem hlt, or_iff_right (Nat.not_lt.2 hn), Option.some_inj]
    cases os[os.length - nWindow] <;> simp

/-- The rate is that of the outcomes in the window, unless one of them was accepted. -/
theorem Windowed.rate_iff_kept (h : Windowed a i os) : a.rates i = windowedRate (nWindow - 1) os ↔
    os.length < nWindow ∨ true ∉ os.rtake (nWindow - 1) := by
  rcases lt_or_ge os.length nWindow with hn | hn
  · rw [h.rate_short hn, windowedRate_short (Nat.le_sub_one_of_lt hn)]
    exact iff_of_true rfl (.inl hn)
  · -- the same sum, divided by 1000 and by 999
    have hzero : ∀ k : ℝ, k / (1000 : ℕ) = k / (999 : ℕ) ↔ k = 0 := by
      intro k
      rw [div_eq_div_iff (by norm_num) (by norm_num)]
      constructor
      · intro heq
        norm_num at heq
        linarith
      · rintro rfl
        norm_num
    rw [h.rate, windowedRate, min_eq_right hn, min_eq_right ((Nat.sub_le _ _).trans hn),
      or_iff_right (Nat.not_lt.2 hn), ← List.count_eq_zero, ← Nat.cast_eq_zero (R := ℝ)]
    exact hzero _

/-- **When a rate is that of a window**: the sum is always that of the window, and other chains do
not matter, but the rate is exact up to the first `nWindow - 1` outcomes only, and afterwards by
accident. -/
theorem windowed_rate_iff (nStacks nTemps : ℕ) (optimalRate minCap maxCap : ℝ) (calls : List Call)
    (i : ℕ) :
    let a := calls.foldl RegressionAdapter.call (init nStacks nTemps optimalRate minCap maxCap)
    let os := outcomes i calls
    a.windowSum i = (a.window i).sum ∧
      (∀ c, c.chainID ≠ i → (a.call c).rates i = a.rates i ∧ (a.call c).window i = a.window i) ∧
      (a.rates i = windowedRate nWindow os ↔
        os.length < nWindow ∨ os[os.length - nWindow]? = some false) ∧
      (a.rates i = windowedRate (nWindow - 1) os ↔
        os.length < nWindow ∨ true ∉ os.rtake (nWindow - 1)) := by
  intro a os
  have h : Windowed a i os :=
    windowed_run (windowed_init nStacks nTemps optimalRate minCap maxCap i) calls
  refine ⟨h.sum, ?_, h.rate_iff, h.rate_iff_kept⟩
  intro c hc
  exact ⟨(call_other c hc).1, (call_other c hc).2.1⟩

/-- **A chain whose every step is accepted** does not read 1 from its 1000th outcome on, whatever
the length of the window is taken to be. -/
theorem accepted_rate_low :
    let calls := List.replicate 1000 (Call.update 0 0 0 true)
    (calls.foldl RegressionAdapter.call (init 1 1 (1 / 2) 0 1)).rates 0 = 999 / 1000 ∧
      ∀ W, 1 ≤ W → windowedRate W (outcomes 0 calls) = 1 := by
  have hos : outcomes 0 (List.replicate 1000 (Call.update 0 0 0 true)) = List.replicate 1000 true := by
    unfold outcomes
    rw [List.filter_replicate_of_pos (by rfl), List.map_replicate]
    rfl
  have h := windowed_run (windowed_init 1 1 (1 / 2) 0 1 0) (List.replicate 1000 (.update 0 0 0 true))
  have hlast : ∀ W, (List.replicate 1000 true).rtake W = List.replicate (min 1000 W) true := by
    intro W
    rw [List.rtake, List.drop_replicate, List.length_replicate]
    congr 1
    omega
  constructor
  · rw [h.rate, List.nil_append, hos, hlast, List.count_replicate_self, List.length_replicate]
    norm_num [nWindow]
  · intro W hW
    unfold windowedRate
    rw [hos, hlast, List.count_replicate_self, List.length_replicate]
    refine div_self ?_
    rw [Nat.cast_ne_zero]
    omega

end Stateline.RegressionAdapter
