import Stateline.Common.Str

/-!
# Decimals of floating point numbers

`std::to_string` of a `double`, which writes six fractional digits, and
`std::stod`, read as exact. Finite doubles are dyadic rationals.

* `stod_toDecimal`: what is read back is the number rounded to six digits.
* `stod_toDecimal_iff`: **a finite double is read back** if and only if it is a
  multiple of 1/64.
-/

namespace Stateline

/-- A finite `double`, exactly. -/
structure FiniteDouble where
  val : ℚ
  dyadic : ∃ k : ℕ, val.den = 2 ^ k

/-- The magnitude in units of the sixth fractional digit, to nearest and ties to even. -/
def micros (q : ℚ) : ℕ :=
  let n := q.num.natAbs * 10 ^ 6
  let f := n / q.den
  let r := n % q.den
  if 2 * r < q.den ∨ (2 * r = q.den ∧ f % 2 = 0) then f else f + 1

/-- `std::to_string` of a `double`. -/
def toDecimal (q : ℚ) : Str :=
  (if q < 0 then ['-'] else []) ++
    (toStr (micros q / 10 ^ 6) ++ '.' :: (toStr (micros q % 10 ^ 6)).leftpad 6 '0')

/-- An optional exponent. -/
def exponent : Str → ℤ
  | c :: t =>
    let s := takeSign t
    let digits := s.2.takeWhile Char.isDigit
    if (c = 'e' ∨ c = 'E') ∧ digits ≠ [] then
      if s.1 then -(Nat.ofDigitChars 10 digits 0) else Nat.ofDigitChars 10 digits 0
    else 0
  | [] => 0

/-- `std::stod` of a decimal: blanks, a sign, digits, a point and digits, an exponent, anything.
`none` where it throws, with no digit to read. Hexadecimals, infinities and NaN are left out. -/
def stod (str : Str) : Option ℚ :=
  let s := takeSign (str.dropWhile isSpace)
  let int := s.2.takeWhile Char.isDigit
  let rest := s.2.dropWhile Char.isDigit
  let tail := if rest.head? = some '.' then rest.tail else []
  let frac := tail.takeWhile Char.isDigit
  let rest := if rest.head? = some '.' then tail.dropWhile Char.isDigit else rest
  if int = [] ∧ frac = [] then none
  else
    let v : ℚ := Nat.ofDigitChars 10 (int ++ frac) 0 / 10 ^ frac.length * 10 ^ exponent rest
    some (if s.1 then -v else v)

/-- What six fractional digits tell of a number. -/
def rounded (q : ℚ) : ℚ := if q < 0 then -(micros q / 10 ^ 6) else micros q / 10 ^ 6

/-! ## Reading back -/

theorem micros_digits (n : ℕ) :
    Nat.ofDigitChars 10 (toStr (n / 10 ^ 6) ++ (toStr (n % 10 ^ 6)).leftpad 6 '0') 0 = n ∧
      ((toStr (n % 10 ^ 6)).leftpad 6 '0').length = 6 := by
  have hlen : (toStr (n % 10 ^ 6)).length ≤ 6 :=
    (Nat.length_toDigits_le_iff (by omega) (by omega)).2 (Nat.mod_lt _ (by omega))
  have hpad : ((toStr (n % 10 ^ 6)).leftpad 6 '0').length = 6 := by
    rw [List.length_leftpad]
    omega
  refine ⟨?_, hpad⟩
  rw [Nat.ofDigitChars_append, ofDigitChars_toStr, Nat.ofDigitChars_eq_ofDigitChars_zero, hpad,
    List.leftpad, Nat.ofDigitChars_append, Nat.ofDigitChars_replicate_zero, Nat.mul_zero,
    ofDigitChars_toStr]
  exact Nat.div_add_mod n (10 ^ 6)

theorem isDigit_leftpad {n k : ℕ} {c : Char} (h : c ∈ (toStr n).leftpad k '0') : c.isDigit := by
  rw [List.leftpad, List.mem_append] at h
  rcases h with h | h
  · rw [List.eq_of_mem_replicate h]
    rfl
  · exact isDigit_of_mem_toStr h

theorem toDecimal_ne_nil (q : ℚ) : toDecimal q ≠ [] := by
  unfold toDecimal
  simp

theorem colon_not_mem_toDecimal (q : ℚ) : ':' ∉ toDecimal q := by
  intro h
  unfold toDecimal at h
  rcases List.mem_append.1 h with h | h
  · split at h
    · simp at h
    · simp at h
  · rcases List.mem_append.1 h with h | h
    · exact colon_not_mem_toStr _ h
    · rcases List.mem_cons.1 h with h | h
      · exact absurd h (by decide)
      · have := isDigit_leftpad h
        simp at this

/-- **Reading digits, a point and digits**, behind a minus or nothing. -/
theorem stod_point (neg : Prop) [Decidable neg] {int frac : Str} (hne : int ≠ [])
    (hint : ∀ c ∈ int, c.isDigit) (hfrac : ∀ c ∈ frac, c.isDigit) :
    stod ((if neg then ['-'] else []) ++ (int ++ '.' :: frac)) =
      some (if neg then -(Nat.ofDigitChars 10 (int ++ frac) 0 / 10 ^ frac.length : ℚ)
        else Nat.ofDigitChars 10 (int ++ frac) 0 / 10 ^ frac.length) := by
  have hsign : takeSign (((if neg then ['-'] else []) ++ (int ++ '.' :: frac)).dropWhile isSpace) =
      (decide neg, int ++ '.' :: frac) := by
    obtain ⟨c, s, hcs⟩ := List.exists_cons_of_ne_nil hne
    split
    · rename_i hneg
      rw [decide_eq_true hneg]
      rfl
    · rename_i hneg
      rw [decide_eq_false hneg, List.nil_append, hcs, List.cons_append]
      exact takeSign_of_isDigit (hint c (hcs ▸ List.mem_cons_self))
  have htake : (int ++ '.' :: frac).takeWhile Char.isDigit = int := by
    rw [List.takeWhile_append_of_pos hint]
    simp
  have hdrop : (int ++ '.' :: frac).dropWhile Char.isDigit = '.' :: frac := by
    rw [List.dropWhile_append_of_pos hint]
    rfl
  have htake' : frac.takeWhile Char.isDigit = frac := List.takeWhile_eq_self_iff.2 hfrac
  have hdrop' : frac.dropWhile Char.isDigit = [] := List.dropWhile_eq_nil_iff.2 hfrac
  unfold stod
  simp only [hsign, htake, hdrop, List.head?_cons, if_true, List.tail_cons, htake', hdrop', hne,
    false_and, if_false, exponent, zpow_zero, mul_one, decide_eq_true_eq]

/-- **What is read back is the number rounded to six fractional digits.** -/
theorem stod_toDecimal (q : ℚ) : stod (toDecimal q) = some (rounded q) := by
  obtain ⟨hval, hlen⟩ := micros_digits (micros q)
  unfold toDecimal
  rw [stod_point (q < 0) (toStr_ne_nil _) (fun c hc => isDigit_of_mem_toStr hc)
    (fun c hc => isDigit_leftpad hc), hval, hlen]
  rfl

/-! ## Which numbers have six fractional digits -/

/-- A multiple of a rational is an integer if and only if the denominator divides the factor. -/
theorem mul_eq_int_iff (n : ℕ) (q : ℚ) : (∃ z : ℤ, (n : ℚ) * q = z) ↔ q.den ∣ n := by
  have hden : (q.den : ℚ) ≠ 0 := Nat.cast_ne_zero.2 q.den_nz
  constructor
  · rintro ⟨z, hz⟩
    have h : (n : ℤ) * q.num = z * q.den := by
      have : (n : ℚ) * q.num = z * q.den := by
        rw [← hz, mul_assoc, Rat.mul_den_eq_num]
      exact_mod_cast this
    have hdvd : q.den ∣ n * q.num.natAbs := by
      have := congrArg Int.natAbs h
      rw [Int.natAbs_mul, Int.natAbs_mul, Int.natAbs_natCast, Int.natAbs_natCast] at this
      exact ⟨z.natAbs, by rw [this, Nat.mul_comm]⟩
    exact q.reduced.symm.dvd_of_dvd_mul_right hdvd
  · rintro ⟨m, rfl⟩
    refine ⟨m * q.num, ?_⟩
    push_cast
    rw [mul_comm (q.den : ℚ), mul_assoc, mul_comm (q.den : ℚ), Rat.mul_den_eq_num]

/-- Nothing is rounded off a number of six fractional digits. -/
theorem micros_of_dvd {q : ℚ} (h : q.den ∣ 10 ^ 6) : (micros q : ℚ) / 10 ^ 6 = |q| := by
  obtain ⟨m, hm⟩ := h
  have hpos : 0 < q.den := q.den_pos
  have hn : q.num.natAbs * 10 ^ 6 = q.den * (q.num.natAbs * m) := by
    rw [hm]
    ring
  have hmicros : micros q = q.num.natAbs * m := by
    simp only [micros, hn, Nat.mul_mod_right, Nat.mul_div_cancel_left _ hpos]
    rw [if_pos (.inl (by omega))]
  have hm0 : (m : ℚ) ≠ 0 := by
    rintro h0
    rw [Nat.cast_eq_zero.1 h0] at hm
    omega
  have hden : (q.den : ℚ) ≠ 0 := Nat.cast_ne_zero.2 q.den_nz
  calc (micros q : ℚ) / 10 ^ 6
      = (q.num.natAbs * m : ℕ) / ((10 ^ 6 : ℕ) : ℚ) := by rw [hmicros]; norm_num
    _ = (q.num.natAbs : ℚ) / q.den := by
      rw [hm]
      push_cast
      field_simp
    _ = |(q.num : ℚ) / q.den| := by rw [Nat.cast_natAbs, Int.cast_abs, abs_div, Nat.abs_cast]
    _ = |q| := by rw [Rat.num_div_den]

theorem rounded_eq_iff (q : ℚ) : rounded q = q ↔ q.den ∣ 10 ^ 6 := by
  constructor
  · intro h
    refine (mul_eq_int_iff (10 ^ 6) q).1 ⟨if q < 0 then -micros q else micros q, ?_⟩
    nth_rewrite 1 [← h]
    unfold rounded
    split
    · push_cast
      ring
    · push_cast
      ring
  · intro h
    unfold rounded
    rw [micros_of_dvd h]
    split
    · rename_i hneg
      rw [abs_of_neg hneg, neg_neg]
    · rename_i hneg
      rw [abs_of_nonneg (not_lt.1 hneg)]

/-- **A finite double is read back** if and only if it is a multiple of 1/64. -/
theorem stod_toDecimal_iff (x : FiniteDouble) :
    stod (toDecimal x.val) = some x.val ↔ ∃ z : ℤ, 64 * x.val = z := by
  rw [stod_toDecimal, Option.some.injEq, rounded_eq_iff]
  refine Iff.trans ?_ (mul_eq_int_iff 64 x.val).symm
  obtain ⟨k, hk⟩ := x.dyadic
  rw [hk, show 10 ^ 6 = 64 * 5 ^ 6 by norm_num]
  refine Iff.intro ?_ fun h => h.mul_right _
  intro h
  exact Nat.Coprime.dvd_of_dvd_mul_right (Nat.Coprime.pow k 6 (by norm_num)) h

end Stateline
