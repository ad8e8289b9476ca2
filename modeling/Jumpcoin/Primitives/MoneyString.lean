import Mathlib.Data.List.TakeWhile
import Jumpcoin.Primitives.Transaction

/-!
# Amounts as texts

`FormatMoney` and `ParseMoney` of `utilmoneystr.cpp`. An amount is written with at least two of its
eight decimals. A text is read if its whole part has at most ten digits, a bound which the largest
amounts do not keep.
-/

namespace Jumpcoin

open List Nat

/-- The loop that trims the text, which is given from its end. -/
def trimZeros : List Char → List Char
  | c :: c' :: c'' :: str =>
    if c = '0' ∧ c''.isDigit then trimZeros (c' :: c'' :: str) else c :: c' :: c'' :: str
  | str => str

/-- `FormatMoney`, but for the amount without an absolute value. -/
def formatMoney (n : CAmount) : List Char :=
  let n_abs := n.toInt.natAbs
  let quotient := n_abs / COIN.toNatClampNeg
  let remainder := n_abs % COIN.toNatClampNeg
  let str := toDigits 10 quotient ++ '.' :: (toDigits 10 remainder).leftpad 8 '0'
  let str := (trimZeros str.reverse).reverse
  if n < 0 then '-' :: str else str

def isSpace (c : Char) : Bool := c = ' ' || '\t' ≤ c && c ≤ '\r'

/-- The digits after the point: `nUnits`, and what is left of the text. -/
def parseUnits : Nat → Nat → List Char → Nat × List Char
  | _, nUnits, [] => (nUnits, [])
  | nMult, nUnits, c :: p =>
    if c.isDigit ∧ 0 < nMult then parseUnits (nMult / 10) (nUnits + nMult * (c.toNat - '0'.toNat)) p
    else (nUnits, c :: p)

/-- `strWhole`, `nUnits` and what is left of the text. -/
def parseWhole : List Char → Option (List Char × Nat × List Char)
  | [] => some ([], 0, [])
  | c :: p =>
    if c = '.' then some ([], parseUnits (CENT * 10).toNatClampNeg 0 p)
    else if isSpace c then some ([], 0, c :: p)
    else if c.isDigit = false then none
    else (parseWhole p).map fun r => (c :: r.1, r.2)

def parseMoney (str : List Char) : Option CAmount := do
  let p := (str.takeWhile (· ≠ '\x00')).dropWhile isSpace
  let (strWhole, nUnits, p) ← parseWhole p
  guard (p.all isSpace)
  guard (strWhole.length ≤ 10)
  guard (nUnits ≤ COIN.toNatClampNeg)
  some (Int64.ofNat (ofDigitChars 10 strWhole 0) * COIN + Int64.ofNat nUnits)

/-! ## Round trip -/

/-- Zeros are trimmed, but for the first two digits after the point. -/
lemma trimZeros_append {u : List Char} (w : List Char) (hdigits : u.all Char.isDigit)
    (hlength : 2 ≤ u.length) : ∃ k u', u = replicate k '0' ++ u' ∧
      trimZeros (u ++ '.' :: w) = u' ++ '.' :: w := by
  induction u with
  | nil => simp at hlength
  | cons c u ih =>
    cases u with
    | nil => simp at hlength
    | cons c' u =>
      cases u with
      | nil => exact ⟨0, [c, c'], rfl, by simp [trimZeros]⟩
      | cons c'' u =>
        by_cases hc : c = '0' ∧ c''.isDigit
        · obtain ⟨k, u', hu, htrim⟩ := ih (by grind) (by simp)
          exact ⟨k + 1, u', by rw [hc.1, hu]; rfl, by simpa [trimZeros, hc] using htrim⟩
        · exact ⟨0, _, rfl, by simp [trimZeros, hc]⟩

lemma parseUnits_digits {u : List Char} (hdigits : u.all Char.isDigit) (j a : Nat)
    (hlength : u.length ≤ j) : parseUnits (10 ^ j / 10) a u =
      (a + ofDigitChars 10 (u ++ replicate (j - u.length) '0') 0, []) := by
  induction u generalizing j a with
  | nil => simp [parseUnits, ofDigitChars_replicate_zero]
  | cons c u ih =>
    obtain ⟨j, rfl⟩ : ∃ i, j = i + 1 := ⟨j - 1, by simp at hlength; omega⟩
    simp only [length_cons, Nat.add_le_add_iff_right] at hlength
    have hmult : 10 ^ (j + 1) / 10 = 10 ^ j := by
      rw [Nat.pow_succ, Nat.mul_div_cancel _ (by decide)]
    have hvalue := @ofDigitChars_eq_ofDigitChars_zero (u ++ replicate (j - u.length) '0')
      (c.toNat - '0'.toNat)
    rw [length_append, length_replicate, Nat.add_sub_cancel' hlength] at hvalue
    rw [hmult, parseUnits, if_pos (by grind), ih (by grind) j _ hlength, cons_append,
      ofDigitChars_cons, length_cons, Nat.add_sub_add_right, mul_zero, zero_add, hvalue, add_assoc]

lemma isSpace_of_isDigit {c : Char} (h : c.isDigit) : isSpace c = false := by
  have hle : 48 ≤ c.val := by simp_all [Char.isDigit]
  by_contra hspace
  simp only [isSpace, Bool.not_eq_false, Bool.or_eq_true, decide_eq_true_eq, Bool.and_eq_true,
    Char.le_def] at hspace
  rcases hspace with rfl | ⟨-, hspace⟩
  · exact absurd hle (by decide)
  · exact absurd (UInt32.le_trans hle hspace) (by decide)

lemma all_toDigits (n : Nat) : (toDigits 10 n).all Char.isDigit := by
  rw [all_eq_true]
  exact fun c hc => isDigit_of_mem_toDigits (by decide) (by decide) hc

lemma parseWhole_append {w : List Char} (hdigits : w.all Char.isDigit) (u : List Char) :
    parseWhole (w ++ '.' :: u) = some (w, parseUnits (CENT * 10).toNatClampNeg 0 u) := by
  induction w with
  | nil => simp [parseWhole]
  | cons c w ih =>
    simp only [all_cons, Bool.and_eq_true] at hdigits
    have hc := hdigits.1
    rw [cons_append, parseWhole, ih hdigits.2, if_neg (by rintro rfl; simp at hc),
      isSpace_of_isDigit hc, if_neg (by decide), if_neg (by simp [hc])]
    rfl

lemma parseMoney_append {w u : List Char} (hw : w.all Char.isDigit) (hu : u.all Char.isDigit)
    {nUnits : Nat} (hunits : parseUnits (CENT * 10).toNatClampNeg 0 u = (nUnits, []))
    (hle : nUnits ≤ COIN.toNatClampNeg) : parseMoney (w ++ '.' :: u) =
      if w.length ≤ 10 then some (Int64.ofNat (ofDigitChars 10 w 0) * COIN + Int64.ofNat nUnits)
      else none := by
  have hnull : (w ++ '.' :: u).takeWhile (· ≠ '\x00') = w ++ '.' :: u := by
    rw [takeWhile_eq_self_iff]
    intro c hc
    have : c = '.' ∨ c.isDigit := by grind
    rcases this with rfl | hdigit
    · decide
    · simp only [decide_eq_true_eq]
      rintro rfl
      simp at hdigit
  have hspace : (w ++ '.' :: u).dropWhile isSpace = w ++ '.' :: u := by
    rw [dropWhile_eq_self_iff]
    cases w with
    | nil => simp; decide
    | cons c w => simp_all [isSpace_of_isDigit]
  have hspaces : ([] : List Char).all isSpace = true := rfl
  simp only [parseMoney, hnull, hspace, parseWhole_append hw, hunits, Option.bind_eq_bind,
    Option.bind_some, hspaces, hle, guard, if_true]
  by_cases hlength : w.length ≤ 10
  · simp only [hlength, if_true]
    rfl
  · simp only [hlength, if_false]
    rfl

lemma formatMoney_eq {n : CAmount} (h : 0 ≤ n.toInt) : ∃ u k,
    formatMoney n = toDigits 10 (n.toInt.natAbs / 10 ^ 8) ++ '.' :: u ∧
      u ++ replicate k '0' = (toDigits 10 (n.toInt.natAbs % 10 ^ 8)).leftpad 8 '0' := by
  have hcoin : COIN.toNatClampNeg = 10 ^ 8 := by decide
  have hneg : ¬n < 0 := by rw [Int64.lt_iff_toInt_lt]; simpa using h
  obtain ⟨k, u, hu, htrim⟩ := trimZeros_append (toDigits 10 (n.toInt.natAbs / 10 ^ 8)).reverse
    (u := ((toDigits 10 (n.toInt.natAbs % 10 ^ 8)).leftpad 8 '0').reverse)
    (by simp [leftpad, all_toDigits]) (by simp only [length_reverse, length_leftpad]; omega)
  refine ⟨u.reverse, k, ?_, by rw [← reverse_replicate, ← reverse_append, ← hu, reverse_reverse]⟩
  simp only [formatMoney, hcoin, if_neg hneg, reverse_append, reverse_cons, append_assoc,
    singleton_append, htrim, reverse_reverse]

/-- An amount is written and read back if its whole part has no more than ten digits. -/
theorem parseMoney_formatMoney (n : CAmount) (h : moneyRange n = true) :
    parseMoney (formatMoney n) = some n ↔ n.toInt < 10000000000 * COIN.toInt := by
  rw [moneyRange_iff] at h
  obtain ⟨u, k, hformat, hu⟩ := formatMoney_eq h
  set q := n.toInt.natAbs / 10 ^ 8
  set r := n.toInt.natAbs % 10 ^ 8
  have hr : r < 10 ^ 8 := Nat.mod_lt _ (by decide)
  have hdigits : (u ++ replicate k '0').all Char.isDigit := by
    rw [hu]
    simp [leftpad, all_toDigits]
  have hlength : u.length + k = 8 := by
    have := congrArg length hu
    have := (length_toDigits_le_iff (b := 10) (n := r) (by decide) (by decide : 0 < 8)).mpr hr
    simp only [length_append, length_replicate, length_leftpad] at *
    omega
  have hunits : parseUnits (CENT * 10).toNatClampNeg 0 u = (r, []) := by
    have hmult : (CENT * 10).toNatClampNeg = 10 ^ 8 / 10 := by decide
    rw [hmult, parseUnits_digits (by grind) 8 0 (by omega), show 8 - u.length = k by omega, hu,
      leftpad, ofDigitChars_append, ofDigitChars_replicate_zero, mul_zero,
      ofDigitChars_toDigits (by decide) le_rfl, zero_add]
  have hvalue : Int64.ofNat q * COIN + Int64.ofNat r = n := by
    rw [show COIN = Int64.ofNat (10 ^ 8) from rfl, ← Int64.ofNat_mul, ← Int64.ofNat_add,
      Nat.div_add_mod', ← Int64.ofInt_eq_ofNat, Int.natAbs_of_nonneg h, Int64.ofInt_toInt]
  rw [hformat, parseMoney_append (all_toDigits q) (by grind) hunits hr.le,
    ofDigitChars_toDigits (by decide) le_rfl, hvalue, ite_eq_left_iff,
    length_toDigits_le_iff (by decide) (by decide), show COIN.toInt = 10 ^ 8 by decide]
  simp only [reduceCtorEq, imp_false, not_not]
  omega

theorem parseMoney_formatMoney_coins : parseMoney (formatMoney 150000000) = some 150000000 :=
  (parseMoney_formatMoney 150000000 (by decide)).mpr (by decide)

/-- Ten thousand million coins have a whole part of eleven digits. -/
theorem parseMoney_refuses_formatMoney :
    ¬∀ n, moneyRange n = true → parseMoney (formatMoney n) = some n := by
  intro h
  exact absurd (h 1000000000000000000 (by decide)) (by decide +kernel)

end Jumpcoin
