import Stateline.Proof.Density

/-!
# The weights that the sampler leaves invariant

A step of one chain in exact arithmetic, from the sample `x`: the bounded proposal is
accepted with a draw below `exp (-β ΔE)`, without a correction. When the proposals have a
symmetric density the step leaves `exp (-β E)` on the box invariant
(`invariant_of_symmetric`).
-/

namespace Stateline

open Lib Reflection Matrix MeasureTheory

variable {d : ℕ}

/-- The state of a chain with the sample `x`. -/
def stateAt (energy : (Fin d → ℝ) → ℝ) (sigma beta : ℝ) (x : Fin d → ℝ) : State (Fin d → ℝ) ℝ :=
  ⟨x, energy x, sigma, beta, false, .noAttempt⟩

theorem acceptProposal_eq (energy : (Fin d → ℝ) → ℝ) (sigma beta : ℝ) (x y : Fin d → ℝ) (rand : ℝ) :
    acceptProposal (stateAt energy sigma beta y) (stateAt energy sigma beta x) beta rand =
      decide (rand < Real.exp (-beta * energy y - -beta * energy x)) := by
  have hone : -(1.0 : ℝ) * beta * (energy y - energy x) = -beta * energy y - -beta * energy x := by
    norm_num [mul_sub]
  simp only [acceptProposal, stateAt, Double.isInf, Double.lt, Double.exp, Bool.false_eq_true,
    if_false, hone]

namespace GaussianProposal

variable (p : GaussianProposal ℝ d) (id : ℕ) (sigma beta : ℝ) (energy : (Fin d → ℝ) → ℝ)

/-- The sample after a step from `x`, which stays when the proposal is undefined. -/
noncomputable def nextSample (x randn : Fin d → ℝ) (rand : ℝ) : Fin d → ℝ :=
  match p.boundedPropose id x sigma randn with
  | .ok y =>
    let newState := stateAt energy sigma beta y
    let last := stateAt energy sigma beta x
    (recorded newState last (acceptProposal newState last beta rand)).sample
  | .error _ => x

/-- The probability that a step from `x` ends in `A`. -/
noncomputable def stepProb (x : Fin d → ℝ) (A : Set (Fin d → ℝ)) : ENNReal :=
  ∫⁻ randn, ENNReal.ofReal (drawProb {rand | p.nextSample id sigma beta energy x randn rand ∈ A})
    ∂normals (Fin d)

/-- The probability that `y` is accepted. -/
noncomputable def acceptProb (x y : Fin d → ℝ) : ENNReal :=
  .ofReal (min 1 (Real.exp (-beta * energy y - -beta * energy x)))

/-- **`exp (-β E)` on the box is invariant.** -/
def Invariant : Prop := ∀ (energy : (Fin d → ℝ) → ℝ), Measurable energy →
    ∀ (beta : ℝ) (A : Set (Fin d → ℝ)), MeasurableSet A →
  ∫⁻ x in Set.Icc p.bounds.min p.bounds.max,
    ENNReal.ofReal (Real.exp (-beta * energy x)) * p.stepProb id sigma beta energy x A =
    ∫⁻ x in Set.Icc p.bounds.min p.bounds.max ∩ A, ENNReal.ofReal (Real.exp (-beta * energy x))

variable {p id sigma beta energy}

theorem measurable_acceptProb (henergy : Measurable energy) :
    Measurable (Function.uncurry (acceptProb beta energy)) := by
  unfold acceptProb Function.uncurry
  fun_prop

theorem acceptProb_le_one (x y : Fin d → ℝ) : acceptProb beta energy x y ≤ 1 :=
  ENNReal.ofReal_le_one.2 (min_le_left _ _)

/-- The weights are in detailed balance with the acceptance. -/
theorem acceptProb_balance (x y : Fin d → ℝ) :
    ENNReal.ofReal (Real.exp (-beta * energy x)) * acceptProb beta energy x y =
      ENNReal.ofReal (Real.exp (-beta * energy y)) * acceptProb beta energy y x := by
  unfold acceptProb
  rw [← ENNReal.ofReal_mul (Real.exp_pos _).le, ← ENNReal.ofReal_mul (Real.exp_pos _).le, exp_mul_min]

theorem stepProb_eq (hlt : ∀ i, p.bounds.min i < p.bounds.max i)
    (hdet : 0 < (of (p.proposalShape.Ns id)).det) (hs : 0 < sigma) (henergy : Measurable energy)
    (x : Fin d → ℝ) {A : Set (Fin d → ℝ)} (hA : MeasurableSet A) :
    p.stepProb id sigma beta energy x A =
      (∫⁻ y in box p.bounds.min p.bounds.max, density p.bounds (p.proposalShape.Ns id) sigma x y *
        (acceptProb beta energy x y * A.indicator 1 y +
          (1 - acceptProb beta energy x y) * A.indicator 1 x)) +
        p.undefinedProb id sigma x * A.indicator 1 x := by
  have haccept : Measurable (acceptProb beta energy x) :=
    (measurable_acceptProb henergy).of_uncurry_left
  have hchoice : Measurable fun y =>
      acceptProb beta energy x y * A.indicator 1 y +
        (1 - acceptProb beta energy x y) * A.indicator 1 x :=
    (haccept.mul (measurable_one.indicator hA)).add
      ((measurable_const.sub haccept).mul measurable_const)
  rw [← p.lintegral_boundedPropose hlt hdet hs x hchoice]
  refine lintegral_congr fun z => ?_
  unfold nextSample
  match p.boundedPropose id x sigma z with
  | .ok y =>
    have hset : {rand | (recorded (stateAt energy sigma beta y) (stateAt energy sigma beta x)
        (acceptProposal (stateAt energy sigma beta y)
          (stateAt energy sigma beta x) beta rand)).sample ∈ A} =
        {rand | (if rand < Real.exp (-beta * energy y - -beta * energy x) then y else x) ∈ A} := by
      ext rand
      simp only [Set.mem_ofPred_eq, acceptProposal_eq]
      by_cases h : rand < Real.exp (-beta * energy y - -beta * energy x)
      · rw [if_pos h, decide_eq_true h]
        rfl
      · rw [if_neg h, decide_eq_false h]
        rfl
    exact (congrArg (fun s => ENNReal.ofReal (drawProb s)) hset).trans (drawProb_choice _ x y A)
  | .error _ =>
    by_cases hx : x ∈ A
    · simp [hx, drawProb_univ]
    · simp [hx, drawProb_empty]

/-- **Symmetric proposals leave the weights invariant.** -/
theorem invariant_of_symmetric (hlt : ∀ i, p.bounds.min i < p.bounds.max i)
    (hdet : 0 < (of (p.proposalShape.Ns id)).det) (hs : 0 < sigma)
    (hsymm : ∀ x ∈ box p.bounds.min p.bounds.max, ∀ y ∈ box p.bounds.min p.bounds.max,
      density p.bounds (p.proposalShape.Ns id) sigma x y =
        density p.bounds (p.proposalShape.Ns id) sigma y x) :
    p.Invariant id sigma := by
  intro energy henergy beta A hA
  set near : (Fin d → ℝ) → (Fin d → ℝ) → ENNReal := fun x =>
    folded Near p.bounds.min p.bounds.max fun v => stepDensity (p.proposalShape.Ns id) sigma (v - x)
  have hnear : ∀ x, ∀ y ∈ box p.bounds.min p.bounds.max,
      density p.bounds (p.proposalShape.Ns id) sigma x y = near x y := fun x y hy => density_eq hlt x hy
  have hmeas : Measurable (Function.uncurry near) :=
    measurable_folded Near _ _ ((measurable_stepDensity _ sigma).comp
      (measurable_snd.sub measurable_fst))
  have hweight : Measurable fun x => ENNReal.ofReal (Real.exp (-beta * energy x)) := by fun_prop
  have hstep := lintegral_step (μ := volume.restrict (box p.bounds.min p.bounds.max))
    (r := p.undefinedProb id sigma)
    hmeas (measurable_acceptProb henergy) hweight hA
    (ae_restrict_of_forall_mem (measurableSet_box _ _) fun x hx =>
      ae_restrict_of_forall_mem (measurableSet_box _ _) fun y hy => by
        rw [← hnear x y hy, ← hnear y x hx, hsymm x hx y hy])
    acceptProb_balance acceptProb_le_one
    (ae_of_all _ fun x => by
      rw [← p.density_add_undefined hlt hdet hs x]
      congr 1
      exact setLIntegral_congr_fun (measurableSet_box _ _) fun y hy => (hnear x y hy).symm)
  -- the walls have no volume
  have hwalls : Set.Icc p.bounds.min p.bounds.max =ᵐ[volume] box p.bounds.min p.bounds.max :=
    (Measure.univ_pi_Ioo_ae_eq_Icc (μ := fun _ => volume)).symm
  rw [setLIntegral_congr hwalls, setLIntegral_congr (hwalls.inter (ae_eq_refl A))]
  calc ∫⁻ x in box p.bounds.min p.bounds.max, ENNReal.ofReal (Real.exp (-beta * energy x)) *
          p.stepProb id sigma beta energy x A
      = ∫⁻ x in box p.bounds.min p.bounds.max, ENNReal.ofReal (Real.exp (-beta * energy x)) *
          ((∫⁻ y in box p.bounds.min p.bounds.max, near x y *
            (acceptProb beta energy x y * A.indicator 1 y +
              (1 - acceptProb beta energy x y) * A.indicator 1 x)) +
            p.undefinedProb id sigma x * A.indicator 1 x) := by
        refine lintegral_congr fun x => ?_
        rw [stepProb_eq hlt hdet hs henergy x hA]
        congr 2
        refine setLIntegral_congr_fun (measurableSet_box _ _) fun y hy => ?_
        rw [hnear x y hy]
    _ = ∫⁻ x in box p.bounds.min p.bounds.max,
          A.indicator (fun x => ENNReal.ofReal (Real.exp (-beta * energy x))) x := by
        rw [hstep]
        refine lintegral_congr fun x => ?_
        by_cases hx : x ∈ A
        · simp [hx]
        · simp [hx]
    _ = ∫⁻ x in box p.bounds.min p.bounds.max ∩ A, ENNReal.ofReal (Real.exp (-beta * energy x)) := by
        rw [lintegral_indicator hA, Measure.restrict_restrict hA, Set.inter_comm]

end GaussianProposal

end Stateline
