import Mathlib

/-!
# Strings

`std::string` is a list of characters. `joinStr` and `splitStr` are the two
string algorithms of the wire format, `toStr` and `stoi` the conversions of the
standard library they are used with.

* `segments_joinStr`: splitting inverts joining.
* `joinStr_segments_iff`: joining inverts splitting, unless a delimiter comes last.
* `stoi_toStr`, `toStr_inj`: decimals read back, and distinct numbers have
  distinct decimals.
-/

namespace Stateline

/-- `std::string`. -/
abbrev Str := List Char

/-- `joinStr`. The last delimiter is popped; popping an empty string is undefined. -/
def joinStr (container : List Str) (delim : Str) : Option Str :=
  let result := container.foldl (fun result v => result ++ (v ++ delim)) []
  if result = [] then none else some result.dropLast

/-- One character of the loop of `splitStr`, over the container and the segment so far. -/
def splitStep {C : Type*} (insert : C → Str → C) (delim : Char) (st : C × Str) (c : Char) : C × Str :=
  if c = delim then (insert st.1 st.2, []) else (st.1, st.2 ++ [c])

/-- `splitStr`, for an output container with an insertion. An empty tail is dropped. -/
def splitStr {C : Type*} (insert : C → Str → C) (out : C) (str : Str) (delim : Char) : C :=
  let st := str.foldl (splitStep insert delim) (out, [])
  if st.2 ≠ [] then insert st.1 st.2 else st.1

/-- `splitStr` into a vector. -/
def segments (str : Str) (delim : Char) : List Str := splitStr (fun out s => out ++ [s]) [] str delim

/-- `std::to_string` of an unsigned integer. -/
def toStr (n : ℕ) : Str := Nat.toDigits 10 n

/-- `std::to_string` of an `int`. -/
def toStrInt (v : ℤ) : Str := if v < 0 then '-' :: toStr v.natAbs else toStr v.natAbs

/-- `isspace` in the C locale. -/
def isSpace (c : Char) : Bool := c = ' ' || (9 ≤ c.toNat && c.toNat ≤ 13)

/-- An optional sign: whether it is a minus, and the rest. -/
def takeSign : Str → Bool × Str
  | '-' :: s => (true, s)
  | '+' :: s => (false, s)
  | s => (false, s)

/-- `std::stoi`: blanks, a sign, digits, anything. `none` where it throws, with no
digit to read or a value outside `int`. -/
def stoi (str : Str) : Option ℤ :=
  let s := takeSign (str.dropWhile isSpace)
  let digits := s.2.takeWhile Char.isDigit
  let v : ℤ := if s.1 then -(Nat.ofDigitChars 10 digits 0) else Nat.ofDigitChars 10 digits 0
  if digits ≠ [] ∧ -2 ^ 31 ≤ v ∧ v < 2 ^ 31 then some v else none

/-- Conversion to a 32-bit `uint`. -/
def toUint (v : ℤ) : ℕ := (v % 2 ^ 32).toNat

/-! ## Splitting and joining -/

variable {C : Type*} {insert : C → Str → C} {delim : Char}

/-- Filling a vector. -/
theorem foldl_push {α : Type*} (vs out : List α) : vs.foldl (fun o s => o ++ [s]) out = out ++ vs := by
  induction vs generalizing out with
  | nil => simp
  | cons v vs ih => simp [ih]

theorem foldl_splitStep_segment {v : Str} (hv : delim ∉ v) (out : C) (seg : Str) :
    v.foldl (splitStep insert delim) (out, seg) = (out, seg ++ v) := by
  induction v generalizing seg with
  | nil => simp
  | cons c v ih =>
    obtain ⟨hc, hv⟩ : delim ≠ c ∧ delim ∉ v := by simpa using hv
    simp only [List.foldl_cons, splitStep, if_neg hc.symm, ih hv, List.append_assoc,
      List.singleton_append]

/-- A list of delimited segments goes into the container one by one. -/
theorem foldl_splitStep_flatMap {vs : List Str} (hvs : ∀ v ∈ vs, delim ∉ v) (out : C) :
    (vs.flatMap (· ++ [delim])).foldl (splitStep insert delim) (out, []) =
      (vs.foldl insert out, []) := by
  induction vs generalizing out with
  | nil => rfl
  | cons v vs ih =>
    have hv := hvs v List.mem_cons_self
    simp only [List.flatMap_cons, List.foldl_append, foldl_splitStep_segment hv, List.nil_append,
      List.foldl_cons, List.foldl_nil, splitStep, if_true]
    exact ih (fun w hw => hvs w (List.mem_cons_of_mem _ hw)) _

/-- The loop fills any container as it fills a vector. -/
theorem foldl_splitStep_segments (str : Str) (out : C) (segs : List Str) (seg : Str) :
    str.foldl (splitStep insert delim) (segs.foldl insert out, seg) =
      ((str.foldl (splitStep (fun o s => o ++ [s]) delim) (segs, seg)).1.foldl insert out,
        (str.foldl (splitStep (fun o s => o ++ [s]) delim) (segs, seg)).2) := by
  induction str generalizing segs seg with
  | nil => rfl
  | cons c str ih =>
    simp only [List.foldl_cons, splitStep]
    split
    · rw [← ih]; simp
    · exact ih segs _

/-- **Splitting into any container inserts the segments in order.** -/
theorem splitStr_eq (insert : C → Str → C) (out : C) (str : Str) (delim : Char) :
    splitStr insert out str delim = (segments str delim).foldl insert out := by
  have h : str.foldl (splitStep insert delim) (([] : List Str).foldl insert out, []) = _ :=
    foldl_splitStep_segments str out [] []
  simp only [List.foldl_nil] at h
  unfold segments splitStr
  rw [h]
  dsimp only
  split
  · simp
  · rfl

theorem joinStr_eq {vs : List Str} (hvs : vs ≠ []) (delim : Char) :
    joinStr vs [delim] = some (vs.flatMap (· ++ [delim])).dropLast := by
  have hfold : ∀ (vs : List Str) (acc : Str),
      vs.foldl (fun result v => result ++ (v ++ [delim])) acc = acc ++ vs.flatMap (· ++ [delim]) := by
    intro vs
    induction vs with
    | nil => simp
    | cons v vs ih => intro acc; simp only [List.foldl_cons, ih, List.flatMap_cons, List.append_assoc]
  have hne : vs.flatMap (· ++ [delim]) ≠ [] := by
    obtain ⟨v, vs, rfl⟩ := List.exists_cons_of_ne_nil hvs
    simp
  simp only [joinStr, hfold, List.nil_append, if_neg hne]

/-- **Splitting inverts joining**, for segments that are not empty and hold no delimiter. -/
theorem segments_joinStr {vs : List Str} (hne : vs ≠ []) (hvs : ∀ v ∈ vs, v ≠ [] ∧ delim ∉ v) :
    ∃ s, joinStr vs [delim] = some s ∧ segments s delim = vs := by
  refine ⟨_, joinStr_eq hne delim, ?_⟩
  obtain ⟨init, last, rfl⟩ := List.eq_nil_or_concat vs |>.resolve_left hne
  simp only [List.concat_eq_append, List.mem_append, List.mem_singleton] at hvs
  have hlast := hvs last (.inr rfl)
  have hs : ((init.concat last).flatMap (· ++ [delim])).dropLast = init.flatMap (· ++ [delim]) ++
      last := by
    simp only [List.concat_eq_append, List.flatMap_append, List.flatMap_cons, List.flatMap_nil,
      List.append_nil, ← List.append_assoc, List.dropLast_concat]
  rw [hs]
  have hfold : (init.flatMap (· ++ [delim]) ++ last).foldl
      (splitStep (fun o s => o ++ [s]) delim) (([] : List Str), []) = (init, last) := by
    rw [List.foldl_append, foldl_splitStep_flatMap (fun v hv => (hvs v (.inl hv)).2),
      foldl_splitStep_segment hlast.2, foldl_push, List.nil_append, List.nil_append]
  simp only [segments, splitStr, hfold, ne_eq, hlast.1, not_false_eq_true, if_true,
    List.concat_eq_append]

/-- What the loop has read: the segments with their delimiters, and the segment so far, which
holds none. -/
theorem foldl_splitStep_read (str : Str) (segs : List Str) {seg : Str} (hseg : delim ∉ seg) :
    let st := str.foldl (splitStep (fun o s => o ++ [s]) delim) (segs, seg)
    st.1.flatMap (· ++ [delim]) ++ st.2 = segs.flatMap (· ++ [delim]) ++ (seg ++ str) ∧
      delim ∉ st.2 := by
  induction str generalizing segs seg with
  | nil => exact ⟨by simp, hseg⟩
  | cons c str ih =>
    simp only [List.foldl_cons, splitStep]
    split
    · rename_i hc
      obtain ⟨hread, hno⟩ := ih (segs ++ [seg]) (List.not_mem_nil (a := delim))
      refine ⟨?_, hno⟩
      rw [hread, hc]
      simp
    · rename_i hc
      have hseg' : delim ∉ seg ++ [c] := by
        rw [List.mem_append, List.mem_singleton, not_or]
        exact ⟨hseg, fun h => hc h.symm⟩
      obtain ⟨hread, hno⟩ := ih segs hseg'
      refine ⟨?_, hno⟩
      rw [hread]
      simp

/-- **Joining inverts splitting** for the strings that are not empty and do not end with the
delimiter, and for no others. -/
theorem joinStr_segments_iff {s : Str} :
    joinStr (segments s delim) [delim] = some s ↔ s ≠ [] ∧ s.getLast? ≠ some delim := by
  obtain ⟨hread, hno⟩ := foldl_splitStep_read s [] (List.not_mem_nil (a := delim))
  simp only [List.flatMap_nil, List.nil_append] at hread
  unfold segments splitStr
  dsimp only
  set segs := (s.foldl (splitStep (fun o s => o ++ [s]) delim) (([] : List Str), [])).1
  set seg := (s.foldl (splitStep (fun o s => o ++ [s]) delim) (([] : List Str), [])).2
  by_cases hseg : seg = []
  -- nothing was read, or a delimiter last, which is not written again
  · rw [if_neg (not_not.2 hseg)]
    rw [hseg, List.append_nil] at hread
    rcases List.eq_nil_or_concat segs with hnil | ⟨init, last, hsegs⟩
    · rw [hnil] at hread ⊢
      rw [← hread]
      exact iff_of_false (fun h => by cases h) fun h => h.1 rfl
    · have hs : s = init.flatMap (· ++ [delim]) ++ last ++ [delim] := by
        rw [← hread, hsegs]
        simp
      rw [joinStr_eq (by rw [hsegs]; simp), hread, hs, List.dropLast_concat, List.getLast?_concat]
      refine iff_of_false ?_ fun h => h.2 rfl
      intro h
      have hlen := congrArg List.length (Option.some.inj h)
      simp at hlen
  · rw [if_pos hseg, joinStr_eq (by simp)]
    have hjoin : ((segs ++ [seg]).flatMap (· ++ [delim])).dropLast = s := by
      rw [List.flatMap_append, List.flatMap_singleton, ← List.append_assoc, List.dropLast_concat, hread]
    refine iff_of_true (congrArg some hjoin) ⟨?_, ?_⟩
    · intro hs
      rw [hs] at hread
      exact hseg (List.append_eq_nil_iff.1 hread).2
    · intro hlast
      rw [← hread, List.getLast?_append_of_ne_nil _ hseg] at hlast
      exact hno (List.mem_of_getLast? hlast)

/-! ## Decimals -/

theorem toStr_ne_nil (n : ℕ) : toStr n ≠ [] := Nat.toDigits_ne_nil

theorem isDigit_of_mem_toStr {n : ℕ} {c : Char} (h : c ∈ toStr n) : c.isDigit :=
  Nat.isDigit_of_mem_toDigits (by decide) (by decide) h

theorem ofDigitChars_toStr (n : ℕ) : Nat.ofDigitChars 10 (toStr n) 0 = n :=
  Nat.ofDigitChars_ten_toDigits

/-- Distinct numbers have distinct decimals. -/
theorem toStr_inj {m n : ℕ} : toStr m = toStr n ↔ m = n :=
  ⟨fun h => by rw [← ofDigitChars_toStr m, h, ofDigitChars_toStr], fun h => h ▸ rfl⟩

theorem colon_not_mem_toStr (n : ℕ) : ':' ∉ toStr n := fun h => by
  have := isDigit_of_mem_toStr h; simp at this

/-- A digit is neither a blank nor a sign. -/
theorem takeSign_of_isDigit {c : Char} {s : Str} (hc : c.isDigit) :
    takeSign ((c :: s).dropWhile isSpace) = (false, c :: s) := by
  have hd : 48 ≤ c.toNat ∧ c.toNat ≤ 57 := by
    simpa [Char.isDigit, UInt32.le_iff_toNat_le] using hc
  have h1 : isSpace c = false := by
    have : c ≠ ' ' := by rintro rfl; simp at hc
    simp only [isSpace, this, decide_false, Bool.false_or, Bool.and_eq_false_iff,
      decide_eq_false_iff_not]
    omega
  have h2 : c ≠ '-' := by rintro rfl; simp at hc
  have h3 : c ≠ '+' := by rintro rfl; simp at hc
  rw [List.dropWhile_cons_of_neg (by simp [h1])]
  unfold takeSign
  split <;> simp_all

/-- What `stoi` makes of the digits of a number behind a sign. -/
theorem stoi_of_takeSign {str : Str} {neg : Bool} {n : ℕ}
    (h : takeSign (str.dropWhile isSpace) = (neg, toStr n)) :
    stoi str = if -2 ^ 31 ≤ (if neg then -(n : ℤ) else n) ∧ (if neg then -(n : ℤ) else n) < 2 ^ 31 then
      some (if neg then -(n : ℤ) else n) else none := by
  have htw : (toStr n).takeWhile Char.isDigit = toStr n :=
    List.takeWhile_eq_self_iff.2 fun x hx => isDigit_of_mem_toStr hx
  unfold stoi
  simp only [h, htw, ofDigitChars_toStr, ne_eq, toStr_ne_nil, not_false_eq_true, true_and]

theorem takeSign_toStr (n : ℕ) : takeSign ((toStr n).dropWhile isSpace) = (false, toStr n) := by
  obtain ⟨c, s, hcs⟩ := List.exists_cons_of_ne_nil (toStr_ne_nil n)
  have hc : c.isDigit := isDigit_of_mem_toStr (n := n) (by rw [hcs]; exact List.mem_cons_self)
  rw [hcs, takeSign_of_isDigit hc]

/-- **`stoi` reads a decimal below `2 ^ 31` back.** -/
theorem stoi_toStr {n : ℕ} (hn : n < 2 ^ 31) : stoi (toStr n) = some (n : ℤ) := by
  rw [stoi_of_takeSign (takeSign_toStr n)]
  simp only [Bool.false_eq_true, if_false]
  rw [if_pos ⟨by omega, by omega⟩]

/-- `stoi` throws on a decimal from `2 ^ 31` on. -/
theorem stoi_toStr_none {n : ℕ} (hn : 2 ^ 31 ≤ n) : stoi (toStr n) = none := by
  rw [stoi_of_takeSign (takeSign_toStr n)]
  simp only [Bool.false_eq_true, if_false]
  rw [if_neg fun h => by omega]

/-- **`stoi` reads an `int` back**, and nothing else. -/
theorem stoi_toStrInt (v : ℤ) :
    stoi (toStrInt v) = if -2 ^ 31 ≤ v ∧ v < 2 ^ 31 then some v else none := by
  unfold toStrInt
  split
  · rename_i hneg
    have hv : -(v.natAbs : ℤ) = v := by omega
    have hsign : takeSign (('-' :: toStr v.natAbs).dropWhile isSpace) = (true, toStr v.natAbs) := rfl
    rw [stoi_of_takeSign hsign]
    simp only [if_true, hv]
  · rename_i hpos
    have hv : (v.natAbs : ℤ) = v := by omega
    rw [stoi_of_takeSign (takeSign_toStr v.natAbs)]
    simp only [Bool.false_eq_true, if_false, hv]

theorem toUint_natCast {n : ℕ} (hn : n < 2 ^ 32) : toUint n = n := by
  unfold toUint; omega

end Stateline
