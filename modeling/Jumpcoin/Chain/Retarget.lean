import Jumpcoin.Chain.Index
import Jumpcoin.Foundation.Radix

/-!
# The next target

How exact `CalculateNextTargetRequired` is. Its arithmetic goes through words of 32 bits: a product
with one word, computed with a carry, and a long division by shifts and subtractions
(`arith_uint256.cpp`). Both are the operations of numbers modulo `2^256`; and after the last switch
of the protocol the spacing that counts is bounded, so on the networks that retarget nothing is cut
off before the result is put into compact form.
-/

namespace Jumpcoin

open BitVec Nat

/-! ## Words -/

namespace BaseUint

/-- The words `pn` of a number, the lowest one first. -/
def words (bn : Uint256) : List Nat :=
  (List.range 8).map fun i => bn.toNat / 2 ^ (32 * i) % 2 ^ 32

def timesWord (bn : Uint256) (b32 : UInt32) : Uint256 :=
  BitVec.ofNat 256 (Nat.ofDigits (2 ^ 32) (Radix.mulAdd (2 ^ 32) b32.toNat 0 (words bn)).1)

/-- The loop of `operator/=`, with one more than `shift`: the bits of the quotient that are left. -/
def divideLoop : Nat → Uint256 → Uint256 → Uint256 → Uint256
  | 0, _, _, quotient => quotient
  | shift + 1, num, div, quotient =>
    if div ≤ num then divideLoop shift (num - div) (div >>> 1) (quotient ||| 1#256 <<< shift)
    else divideLoop shift num (div >>> 1) quotient

/-- `operator/=`; no value for a division by zero, which is an exception. -/
def divide (num div : Uint256) : Option Uint256 :=
  if numBits div = 0 then none
  else if numBits num < numBits div then some 0
  else
    let shift := numBits num - numBits div
    some (divideLoop (shift + 1) num (div <<< shift) 0)

lemma ofDigits_words (bn : Uint256) : Nat.ofDigits (2 ^ 32) (words bn) = bn.toNat := by
  simp only [words, List.range, List.range.loop, List.map_cons, List.map_nil, ofDigits_cons,
    ofDigits_nil]
  omega

/-- The words of the product are those of the product modulo `2^256`. -/
lemma timesWord_eq (bn : Uint256) (b32 : UInt32) :
    timesWord bn b32 = bn * BitVec.ofNat 256 b32.toNat := by
  have hmul := Radix.ofDigits_mulAdd (b := 2 ^ 32) (m := b32.toNat) 0 (words bn)
  rw [ofDigits_words, zero_add] at hmul
  have hpow : (2 ^ 32) ^ (words bn).length = 2 ^ 256 := by simp [words]
  rw [hpow] at hmul
  apply eq_of_toNat_eq
  have hword : b32.toNat < 2 ^ 256 := b32.toNat_lt.trans (by decide)
  rw [timesWord, toNat_ofNat, toNat_mul, toNat_ofNat, mod_eq_of_lt hword,
    mul_comm bn.toNat, ← hmul, add_mul_mod_self_left]

lemma toNat_or_bit {quotient : Uint256} {shift : Nat} (hshift : shift < 256)
    (hquotient : 2 ^ (shift + 1) ∣ quotient.toNat) :
    (quotient ||| 1#256 <<< shift).toNat = quotient.toNat + 2 ^ shift := by
  have hbit : (1#256 <<< shift).toNat = 2 ^ shift := by
    rw [toNat_shiftLeft, Nat.shiftLeft_eq, Nat.mod_eq_of_lt]
    · simp
    · simpa using Nat.pow_lt_pow_right Nat.one_lt_two hshift
  obtain ⟨high, hhigh⟩ := hquotient
  rw [toNat_or, hbit, hhigh]
  exact (Nat.two_pow_add_eq_or_of_lt (Nat.pow_lt_pow_right Nat.one_lt_two (Nat.lt_succ_self _))
    high).symm

/-- The loop adds to the quotient what is left of the division: the divisor has been shifted to the
highest bit that is left, and the number has no higher one. -/
lemma toNat_divideLoop {d : Nat} (n : Nat) {num div quotient : Uint256}
    (hnum : num.toNat < d * 2 ^ n) (hdiv : 0 < n → div.toNat * 2 = d * 2 ^ n)
    (hquotient : 2 ^ n ∣ quotient.toNat) (hroom : n ≤ 256) :
    (divideLoop n num div quotient).toNat = quotient.toNat + num.toNat / d := by
  induction n generalizing num div quotient with
  | zero =>
    rw [pow_zero, mul_one] at hnum
    rw [divideLoop, div_eq_of_lt hnum, add_zero]
  | succ shift ih =>
    have hshifted : div.toNat = d * 2 ^ shift := by
      have hdouble := hdiv (succ_pos _)
      rw [pow_succ, ← mul_assoc] at hdouble
      omega
    have hnext : 0 < shift → (div >>> 1).toNat * 2 = d * 2 ^ shift := by
      intro hpos
      obtain ⟨k, rfl⟩ := exists_eq_succ_of_ne_zero hpos.ne'
      rw [toNat_ushiftRight, shiftRight_eq_div_pow, hshifted, pow_succ, ← mul_assoc]
      omega
    have hd : 0 < d := by
      rcases Nat.eq_zero_or_pos d with rfl | hpos
      · omega
      · exact hpos
    rw [divideLoop]
    split_ifs with hle
    · rw [le_def, hshifted] at hle
      have hsub : (num - div).toNat = num.toNat - d * 2 ^ shift := by
        rw [toNat_sub_of_le (by rwa [le_def, hshifted]), hshifted]
      have hor := toNat_or_bit (by omega) hquotient
      rw [ih _ hnext _ (by omega), hor, hsub]
      · have hquot : num.toNat / d = (num.toNat - d * 2 ^ shift) / d + 2 ^ shift := by
          rw [← Nat.add_mul_div_left _ _ hd, Nat.sub_add_cancel hle]
        omega
      · rw [hsub]
        omega
      · rw [hor]
        exact dvd_add ((pow_dvd_pow 2 (le_succ _)).trans hquotient) (dvd_refl _)
    · rw [le_def, hshifted] at hle
      exact ih (by omega) hnext ((pow_dvd_pow 2 (le_succ _)).trans hquotient) (by omega)

lemma lt_two_pow_numBits (bn : Uint256) : bn.toNat < 2 ^ numBits bn := by
  unfold numBits
  split_ifs with h
  · simp [h]
  · exact lt_log2_self

lemma two_pow_numBits_le {bn : Uint256} (h : bn ≠ 0) : 2 ^ numBits bn ≤ bn.toNat * 2 := by
  have hne : bn.toNat ≠ 0 := fun hzero => h (eq_of_toNat_eq (by simpa using hzero))
  rw [numBits, if_neg h, pow_succ]
  exact mul_le_mul_right 2 (log2_self_le hne)

lemma numBits_le (bn : Uint256) : numBits bn ≤ 256 := by
  unfold numBits
  split_ifs with h
  · exact zero_le _
  · have hne : bn.toNat ≠ 0 := fun hzero => h (eq_of_toNat_eq (by simpa using hzero))
    exact (log2_lt hne).mpr bn.isLt

lemma numBits_eq {v bn : Uint256} (hv : v ≠ 0) (hle : v.toNat ≤ bn.toNat)
    (hge : 2 ^ numBits bn ≤ v.toNat * 2) : numBits v = numBits bn := by
  have hlt := lt_two_pow_numBits v
  have hlt' := lt_two_pow_numBits bn
  have hle' := two_pow_numBits_le hv
  have hup : 2 ^ numBits v < 2 ^ (numBits bn + 1) := by rw [pow_succ]; omega
  have hdown : 2 ^ numBits bn < 2 ^ (numBits v + 1) := by rw [pow_succ]; omega
  rw [Nat.pow_lt_pow_iff_right (by decide)] at hup hdown
  omega

lemma divide_eq (num : Uint256) {div : Uint256} (hdiv : div ≠ 0) :
    divide num div = some (num / div) := by
  have hbits : numBits div ≠ 0 := by
    rw [numBits, if_neg hdiv]
    exact succ_ne_zero _
  have hnum := lt_two_pow_numBits num
  have hdivlt := lt_two_pow_numBits div
  have hdivle := two_pow_numBits_le hdiv
  rw [divide, if_neg hbits]
  split_ifs with hless
  · have hsmall : num.toNat < div.toNat := by
      have hle : 2 ^ numBits num * 2 ≤ 2 ^ numBits div := by
        rw [← pow_succ]
        exact Nat.pow_le_pow_right (by decide) hless
      omega
    refine congrArg some (eq_of_toNat_eq ?_)
    rw [toNat_udiv, div_eq_of_lt hsmall]
    rfl
  · set shift := numBits num - numBits div with hshift
    have hsum : numBits num = numBits div + shift := by omega
    have hbound : numBits num ≤ 256 := numBits_le num
    have hshifted : (div <<< shift).toNat = div.toNat * 2 ^ shift := by
      rw [toNat_shiftLeft, Nat.shiftLeft_eq, Nat.mod_eq_of_lt]
      calc div.toNat * 2 ^ shift < 2 ^ numBits div * 2 ^ shift :=
            Nat.mul_lt_mul_of_pos_right hdivlt (Nat.two_pow_pos _)
        _ = 2 ^ numBits num := by rw [← pow_add, hsum]
        _ ≤ 2 ^ 256 := Nat.pow_le_pow_right (by decide) hbound
    refine congrArg some (eq_of_toNat_eq ?_)
    rw [toNat_divideLoop (d := div.toNat), toNat_udiv]
    · simp
    · calc num.toNat < 2 ^ numBits div * 2 ^ shift := by rwa [← pow_add, ← hsum]
        _ ≤ div.toNat * 2 * 2 ^ shift := mul_le_mul_right _ hdivle
        _ = div.toNat * 2 ^ (shift + 1) := by ring
    · intro _
      rw [hshifted]
      ring
    · simp
    · omega

end BaseUint

/-! ## Compact form -/

/-- What a compact number denotes without its sign, by the formula of `arith_uint256.h`: the
mantissa times `256^(exponent - 3)`, rounded down. -/
def compactMagnitude (nCompact : UInt32) : Nat :=
  nCompact.toNat % 2 ^ 23 * 2 ^ (8 * (nCompact.toNat / 2 ^ 24)) / 2 ^ 24

def compactInteger (nCompact : UInt32) : Int :=
  if nCompact.toNat.testBit 23 then -compactMagnitude nCompact else compactMagnitude nCompact

lemma mul_pow_div_pow (m : Nat) {a b : Nat} : (a ≤ b → m * 2 ^ a / 2 ^ b = m / 2 ^ (b - a)) ∧
    (b ≤ a → m * 2 ^ a / 2 ^ b = m * 2 ^ (a - b)) := by
  constructor <;> intro h <;> obtain ⟨c, rfl⟩ := Nat.exists_eq_add_of_le h
  · rw [pow_add, Nat.add_sub_cancel_left, Nat.mul_comm, Nat.mul_div_mul_left _ _ (by positivity)]
  · rw [pow_add, Nat.add_sub_cancel_left, Nat.mul_left_comm,
      Nat.mul_div_cancel_left _ (by positivity)]

/-- The number read is the one denoted, modulo `2^256`, and the flag says that this cut something
off. -/
lemma setCompact_eq (nCompact : UInt32) :
    (setCompact nCompact).bnTarget = BitVec.ofNat 256 (compactMagnitude nCompact) ∧
    ((setCompact nCompact).fOverflow = true ↔ 2 ^ 256 ≤ compactMagnitude nCompact) := by
  have hmantissa : nCompact.toNat % 2 ^ 23 < 2 ^ 23 := mod_lt _ (by decide)
  unfold compactMagnitude setCompact
  generalize nCompact.toNat % 2 ^ 23 = m at hmantissa ⊢
  generalize nCompact.toNat / 2 ^ 24 = size
  by_cases hsize : size ≤ 3
  · have hle := div_le_self m (2 ^ (8 * (3 - size)))
    rw [(mul_pow_div_pow m).1 (by omega), show 24 - 8 * size = 8 * (3 - size) by omega]
    refine ⟨by simp [hsize], ?_⟩
    simp only [hsize, if_true, Bool.and_eq_true, Bool.or_eq_true, decide_eq_true_eq]
    omega
  · rw [(mul_pow_div_pow m).2 (by omega), show 8 * size - 24 = 8 * (size - 3) by omega]
    refine ⟨eq_of_toNat_eq (by simp [hsize, Nat.shiftLeft_eq]), ?_⟩
    simp only [hsize, if_false, Bool.and_eq_true, Bool.or_eq_true, decide_eq_true_eq]
    obtain hfew | rfl | rfl | hmany : size ≤ 32 ∨ size = 33 ∨ size = 34 ∨ 35 ≤ size := by omega
    · have hpow : 2 ^ (8 * (size - 3)) ≤ 2 ^ 232 := Nat.pow_le_pow_right (by decide) (by omega)
      have hprod := Nat.mul_le_mul hmantissa.le hpow
      omega
    · omega
    · omega
    · have hpow : 2 ^ 256 ≤ 2 ^ (8 * (size - 3)) := Nat.pow_le_pow_right (by decide) (by omega)
      rcases Nat.eq_zero_or_pos m with rfl | hpos
      · simp
      · have hprod := Nat.mul_le_mul hpos hpow
        omega

def highBytes (size n : Nat) : Nat :=
  if size ≤ 3 then n * 2 ^ (8 * (3 - size)) else n / 2 ^ (8 * (size - 3))

lemma highBytes_eq (size n : Nat) : highBytes size n = n * 2 ^ 24 / 2 ^ (8 * size) := by
  unfold highBytes
  split_ifs with hsize
  · rw [(mul_pow_div_pow n).2 (by omega), show 24 - 8 * size = 8 * (3 - size) by omega]
  · rw [(mul_pow_div_pow n).1 (by omega), show 8 * size - 24 = 8 * (size - 3) by omega]

/-- Scaled back, and taken again. -/
lemma highBytes_mul (size n : Nat) : let low := 2 ^ (8 * (size - 3))
    highBytes size n * 2 ^ (8 * size) / 2 ^ 24 = n / low * low ∧
      highBytes size (n / low * low) = highBytes size n := by
  intro low
  unfold highBytes
  split_ifs with hsize
  · have hlow : low = 1 := by simp [low, Nat.sub_eq_zero_of_le hsize]
    rw [Nat.mul_assoc, ← pow_add, show 8 * (3 - size) + 8 * size = 24 by omega,
      Nat.mul_div_cancel _ (by decide), hlow]
    simp
  · rw [(mul_pow_div_pow _).2 (by omega), show 8 * size - 24 = 8 * (size - 3) by omega]
    exact ⟨rfl, Nat.mul_div_cancel _ (by positivity)⟩

variable {bn : Uint256}

lemma highBytes_bounds (hbn : bn ≠ 0) (size : Nat) (hsize : 8 * size < numBits bn + 24) :
    2 ^ (numBits bn + 23 - 8 * size) ≤ highBytes size bn.toNat ∧
      highBytes size bn.toNat < 2 ^ (numBits bn + 24 - 8 * size) := by
  have hlt := BaseUint.lt_two_pow_numBits bn
  have hle := BaseUint.two_pow_numBits_le hbn
  rw [highBytes_eq, Nat.le_div_iff_mul_le (by positivity), Nat.div_lt_iff_lt_mul (by positivity),
    ← pow_add, ← pow_add, Nat.sub_add_cancel (by omega), Nat.sub_add_cancel (by omega), pow_add,
    pow_add]
  omega

/-- The bytes of a number with a clear bit in front. -/
def signedSize (bn : Uint256) : Nat :=
  numBits bn / 8 + 1

/-- The mantissa of compact form has the three leading ones of these bytes. -/
lemma getCompact_eq (hbn : bn ≠ 0) :
    (getCompact bn).toNat = highBytes (signedSize bn) bn.toNat + signedSize bn * 2 ^ 24 ∧
      highBytes (signedSize bn) bn.toNat < 2 ^ 23 := by
  have hbits := BaseUint.numBits_le bn
  have hsmall : highBytes (signedSize bn) bn.toNat < 2 ^ 23 :=
    (highBytes_bounds hbn _ (by unfold signedSize; omega)).2.trans_le
      (Nat.pow_le_pow_right (by decide) (by unfold signedSize; omega))
  refine ⟨?_, hsmall⟩
  have hcompact : getCompact bn =
      UInt32.ofNat (highBytes (signedSize bn) bn.toNat + signedSize bn * 2 ^ 24) := by
    obtain ⟨size, hsize⟩ : ∃ size, (numBits bn + 7) / 8 = size := ⟨_, rfl⟩
    have hread : getCompact bn = if (highBytes size bn.toNat).testBit 23 then
        UInt32.ofNat (highBytes size bn.toNat / 2 ^ 8 + (size + 1) * 2 ^ 24)
        else UInt32.ofNat (highBytes size bn.toNat + size * 2 ^ 24) := hsize ▸ rfl
    rw [hread, testBit_eq_decide_div_mod_eq]
    by_cases hfull : numBits bn = 8 * size
    · -- the highest byte has its highest bit, which would be the sign
      obtain ⟨hge, hlt⟩ := highBytes_bounds hbn size (by omega)
      rw [hfull, Nat.add_sub_cancel_left] at hge hlt
      rw [if_pos (by simp only [decide_eq_true_eq]; omega), highBytes_eq, Nat.div_div_eq_div_mul,
        ← pow_add, show signedSize bn = size + 1 by unfold signedSize; omega, highBytes_eq,
        Nat.mul_add]
    · rw [show size = signedSize bn by unfold signedSize; omega,
        if_neg (by simp only [decide_eq_true_eq]; omega)]
  rw [hcompact]
  exact UInt32.toNat_ofNat_of_lt' (by
    show _ < 2 ^ 32
    unfold signedSize at hsmall ⊢
    omega)

/-- Compact form keeps the leading bytes of a number, the highest bit among them. -/
lemma setCompact_getCompact_eq (hbn : bn ≠ 0) : let low := 2 ^ (8 * (signedSize bn - 3))
    let compact := setCompact (getCompact bn)
    compact.bnTarget.toNat = bn.toNat / low * low ∧ compact.fNegative = false ∧
      compact.fOverflow = false ∧ 2 ^ numBits bn ≤ compact.bnTarget.toNat * 2 := by
  intro low compact
  obtain ⟨hnat, hsmall⟩ := getCompact_eq hbn
  obtain ⟨hvalue, hoverflow⟩ := setCompact_eq (getCompact bn)
  have hmagnitude : compactMagnitude (getCompact bn) = bn.toNat / low * low := by
    rw [compactMagnitude, hnat, ← (highBytes_mul _ _).1]
    congr 3 <;> omega
  have hle : bn.toNat / low * low < 2 ^ 256 := (div_mul_le_self _ _).trans_lt bn.isLt
  have htarget : compact.bnTarget.toNat = bn.toNat / low * low := by
    rw [hvalue, hmagnitude, toNat_ofNat, mod_eq_of_lt hle]
  refine ⟨htarget, ?_, ?_, ?_⟩
  · have hsign : (getCompact bn).toNat.testBit 23 = false := by
      rw [hnat, testBit_eq_decide_div_mod_eq, decide_eq_false_iff_not]
      omega
    simp [compact, setCompact, hsign]
  · rw [Bool.eq_false_iff, Ne, hoverflow, hmagnitude]
    omega
  · have hle := BaseUint.two_pow_numBits_le hbn
    have hpos : numBits bn ≠ 0 := by
      rw [numBits, if_neg hbn]
      exact succ_ne_zero _
    obtain ⟨k, hk⟩ : ∃ k, numBits bn = k + 8 * (signedSize bn - 3) + 1 :=
      ⟨numBits bn - 1 - 8 * (signedSize bn - 3), by unfold signedSize; omega⟩
    rw [hk, pow_succ, pow_add] at hle ⊢
    rw [htarget]
    exact mul_le_mul_right _ (mul_le_mul_right _
      ((le_div_iff_mul_le (by positivity)).mpr (le_of_mul_le_mul_right hle two_pos)))

/-- What is read back from compact form is positive and not above the number, with no flag set. -/
lemma setCompact_getCompact (hbn : bn ≠ 0) :
    (setCompact (getCompact bn)).fNegative = false ∧
      (setCompact (getCompact bn)).fOverflow = false ∧
      0 < (setCompact (getCompact bn)).bnTarget.toNat ∧
      (setCompact (getCompact bn)).bnTarget.toNat ≤ bn.toNat := by
  obtain ⟨hvalue, hnegative, hoverflow, hkept⟩ := setCompact_getCompact_eq hbn
  have hpos := Nat.two_pow_pos (numBits bn)
  exact ⟨hnegative, hoverflow, by omega, hvalue ▸ Nat.div_mul_le_self _ _⟩

/-- Compact form keeps the three leading bytes of a number, counted with a clear sign bit, and is
kept by what is read back. The overflow flag is about the absolute value of what is denoted. -/
theorem compact_truncates (v : Uint256) (nCompact : UInt32) :
    let low := 2 ^ (8 * (signedSize v - 3))
    let compact := setCompact (getCompact v)
    compact.bnTarget.toNat = v.toNat / low * low ∧ compact.fNegative = false ∧
    compact.fOverflow = false ∧ getCompact compact.bnTarget = getCompact v ∧
    ((setCompact nCompact).fOverflow = true ↔ 2 ^ 256 ≤ (compactInteger nCompact).natAbs) := by
  intro low compact
  have habs : (compactInteger nCompact).natAbs = compactMagnitude nCompact := by
    unfold compactInteger
    split_ifs <;> simp
  rw [habs, (setCompact_eq nCompact).2]
  by_cases hv : v = 0
  · subst hv
    simp only [compact, low]
    decide +kernel
  · obtain ⟨hvalue, hnegative, hoverflow, hkept⟩ := setCompact_getCompact_eq hv
    have hne : compact.bnTarget ≠ 0 := by
      intro hzero
      have hpos := Nat.two_pow_pos (numBits v)
      rw [show (setCompact (getCompact v)).bnTarget = 0 from hzero] at hkept
      simp at hkept
    have hbits : signedSize compact.bnTarget = signedSize v := congrArg (· / 8 + 1)
      (BaseUint.numBits_eq hne (hvalue ▸ div_mul_le_self _ _) hkept)
    refine ⟨hvalue, hnegative, hoverflow, UInt32.toNat_inj.mp ?_, Iff.rfl⟩
    rw [(getCompact_eq hne).1, (getCompact_eq hv).1, hbits, hvalue, (highBytes_mul _ _).2]

/-- A negative number of too large an absolute value has the flag. -/
theorem setCompact_negative : (setCompact 0xff800001).fOverflow = true ∧
    (setCompact 0xff800001).fNegative = true ∧ compactInteger 0xff800001 < 2 ^ 256 := by
  decide +kernel

/-! ## The target -/

/-- The spacing that counts: that of the network if the time went back, and at most ten times that
of the network. -/
def countedSpacing (s a : Int) : Int :=
  min (if a < 0 then s else a) (10 * s)

def retargetFactor (params : Params) (actual : Int) : Int :=
  let s := params.nTargetSpacing
  let n := params.nTargetTimespan / s
  (n - 1) * s + 2 * countedSpacing s actual

def retargetDivisor (params : Params) : Int :=
  let s := params.nTargetSpacing
  let n := params.nTargetTimespan / s
  (n + 1) * s

def exactQuotient (params : Params) (t : Nat) (actual : Int) : Nat :=
  (t * retargetFactor params actual / retargetDivisor params).toNat

def exactTarget (params : Params) (limit t : Nat) (actual : Int) : Nat :=
  let quotient := exactQuotient params t actual
  if quotient = 0 then limit else min limit quotient

def retargetingNetworks : List Params := [mainConsensus, testNetParams.consensus]

section Exact

variable {params : Params} {pindexLast : CBlockIndex} {nFirstBlockTime : Int}
variable {fProofOfStake : Bool}

lemma countedSpacing_bounds {s : Int} (hs : 0 < s) (a : Int) :
    0 ≤ countedSpacing s a ∧ countedSpacing s a ≤ 10 * s := by
  unfold countedSpacing
  split_ifs <;> omega

section

variable (hparams : params ∈ retargetingNetworks)
include hparams

/-- On the networks that retarget, the factor and the divisor are small. -/
lemma retarget_bounds (actual : Int) :
    0 < retargetDivisor params ∧ retargetDivisor params < 2 ^ 12 ∧
      0 ≤ retargetFactor params actual ∧ retargetFactor params actual < 2 ^ 12 := by
  have hspacing : ∀ params ∈ retargetingNetworks, 0 < params.nTargetSpacing ∧
      0 < retargetDivisor params ∧ retargetDivisor params < 2 ^ 12 ∧
      0 ≤ (params.nTargetTimespan / params.nTargetSpacing - 1) * params.nTargetSpacing ∧
      (params.nTargetTimespan / params.nTargetSpacing - 1) * params.nTargetSpacing +
        20 * params.nTargetSpacing < 2 ^ 12 := by decide
  obtain ⟨hs, hpos, hdivisor, hbase, hfactor⟩ := hspacing params hparams
  obtain ⟨hlow, hhigh⟩ := countedSpacing_bounds hs actual
  refine ⟨hpos, hdivisor, ?_, ?_⟩ <;>
  · dsimp only [retargetFactor]
    omega

lemma getTargetLimit_lt (nTime : Int) :
    (getTargetLimit params nTime fProofOfStake).toNat < 2 ^ 240 := by
  have hlimit : ∀ params ∈ retargetingNetworks, params.powLimit.toNat < 2 ^ 240 ∧
      params.posLimit.toNat < 2 ^ 240 ∧ params.posLimitV2.toNat < 2 ^ 240 := by decide +kernel
  obtain ⟨hpow, hpos, hposV2⟩ := hlimit params hparams
  unfold getTargetLimit
  split_ifs <;> assumption

lemma calculateNextTargetRequired_eq (htime : params.isProtocolV3 pindexLast.getBlockTime = true) :
    calculateNextTargetRequired params pindexLast nFirstBlockTime fProofOfStake =
      let bnTargetLimit := getTargetLimit params pindexLast.getBlockTime fProofOfStake
      let actual := pindexLast.getBlockTime - nFirstBlockTime
      let bnNew := (setCompact pindexLast.nBits).bnTarget *
        BitVec.ofInt 256 (retargetFactor params actual % 2 ^ 32) /
        BitVec.ofInt 256 (retargetDivisor params % 2 ^ 64)
      getCompact (if bnNew == 0 || decide (bnTargetLimit < bnNew) then bnTargetLimit
        else bnNew) := by
  have hswitches : ∀ params ∈ retargetingNetworks, params.fPoSNoRetargeting = false ∧
      params.fPowNoRetargeting = false ∧ 0 ≤ params.nTargetTimespan ∧
      params.nProtocolV1RetargetingFixedTime ≤ params.nProtocolV3Time ∧
      params.nProtocolV2Time ≤ params.nProtocolV3Time ∧
      1407053678 ≤ params.nProtocolV3Time := by decide
  obtain ⟨hpos, hpow, hspan, hv1, hv2, hlate⟩ := hswitches params hparams
  have hafter : params.nProtocolV3Time < pindexLast.getBlockTime := by
    simp only [Params.isProtocolV3, Params.isAfter, Bool.and_eq_true, decide_eq_true_eq] at htime
    exact htime.1
  have hfixed : params.isProtocolV1RetargetingFixed pindexLast.getBlockTime = true := by
    simp only [Params.isProtocolV1RetargetingFixed, Params.isAfter, Bool.and_eq_true,
      decide_eq_true_eq]
    omega
  have hsecond : params.isProtocolV2 pindexLast.getBlockTime = true := by
    simp only [Params.isProtocolV2, Params.isAfter, Bool.and_eq_true, decide_eq_true_eq]
    omega
  have hkind : (if fProofOfStake then params.fPoSNoRetargeting else params.fPowNoRetargeting) =
      false := by split_ifs <;> assumption
  have hcounted : ∀ s a : Int, (if s * 10 < (if a < 0 then s else a) then s * 10
      else if a < 0 then s else a) = countedSpacing s a := by
    intro s a
    unfold countedSpacing
    split_ifs <;> omega
  have hfactor : ∀ n s a : Int, (n - 1) * s + a + a = (n - 1) * s + 2 * a := by
    intro n s a
    ring
  simp only [calculateNextTargetRequired, hkind, hfixed, hsecond, htime, Bool.true_and,
    Bool.false_eq_true, if_false, if_true, decide_eq_true_eq, hcounted, hfactor,
    Int.tdiv_eq_ediv_of_nonneg hspan, retargetFactor, retargetDivisor]
  congr

/-- The quotient of the numbers modulo `2^256` is the quotient in unbounded integers. -/
lemma toNat_quotient (actual : Int) {t : Uint256} (ht : t.toNat < 2 ^ 240) :
    (t * BitVec.ofInt 256 (retargetFactor params actual % 2 ^ 32) /
      BitVec.ofInt 256 (retargetDivisor params % 2 ^ 64)).toNat =
      exactQuotient params t.toNat actual := by
  obtain ⟨hpos, hdivisor, hnonneg, hfactor⟩ := retarget_bounds hparams actual
  obtain ⟨f, hf⟩ := Int.eq_ofNat_of_zero_le hnonneg
  obtain ⟨d, hd⟩ := Int.eq_ofNat_of_zero_le hpos.le
  have hfactor' : (f : Int) % 2 ^ 32 = f := Int.emod_eq_of_lt (by omega) (by omega)
  have hdivisor' : (d : Int) % 2 ^ 64 = d := Int.emod_eq_of_lt (by omega) (by omega)
  have hproduct : t.toNat * f < 2 ^ 256 :=
    calc t.toNat * f ≤ t.toNat * 2 ^ 12 := mul_le_mul_left _ (by omega)
      _ < 2 ^ 240 * 2 ^ 12 := mul_lt_mul_of_pos_right ht (by decide)
      _ ≤ 2 ^ 256 := by decide
  have hquotient : exactQuotient params t.toNat actual = t.toNat * f / d := by
    rw [exactQuotient, hf, hd]
    exact_mod_cast Int.toNat_natCast (t.toNat * f / d)
  rw [hf, hd, hfactor', hdivisor', hquotient, ofInt_natCast, ofInt_natCast,
    toNat_udiv, toNat_mul, toNat_ofNat, toNat_ofNat,
    mod_eq_of_lt (show f < 2 ^ 256 by omega), mod_eq_of_lt (show d < 2 ^ 256 by omega),
    mod_eq_of_lt hproduct]

end

lemma exactTarget_eq {bnTargetLimit bnNew : Uint256} {t : Nat} {actual : Int}
    (h : bnNew.toNat = exactQuotient params t actual) :
    exactTarget params bnTargetLimit.toNat t actual =
      (if bnNew == 0 || decide (bnTargetLimit < bnNew) then bnTargetLimit else bnNew).toNat := by
  have hzero : bnNew = 0 ↔ exactQuotient params t actual = 0 := by
    rw [← h, ← toNat_inj]
    rfl
  have hless : bnTargetLimit < bnNew ↔ bnTargetLimit.toNat < exactQuotient params t actual := by
    rw [lt_def, h]
  simp only [exactTarget, Bool.or_eq_true, beq_iff_eq, decide_eq_true_eq, hzero, hless]
  by_cases hnone : exactQuotient params t actual = 0
  · simp [hnone]
  · split_ifs <;> omega

/-- The words of the product and of the quotient. -/
lemma divide_timesWord (hparams : params ∈ retargetingNetworks) (actual : Int) (t : Uint256) :
    BaseUint.divide (BaseUint.timesWord t (UInt32.ofInt (retargetFactor params actual)))
        (BitVec.ofInt 256 (retargetDivisor params)) =
      some (t * BitVec.ofInt 256 (retargetFactor params actual % 2 ^ 32) /
        BitVec.ofInt 256 (retargetDivisor params % 2 ^ 64)) := by
  obtain ⟨hpos, hdivisor, hnonneg, hfactor⟩ := retarget_bounds hparams actual
  have hdivisor' : retargetDivisor params % 2 ^ 64 = retargetDivisor params :=
    Int.emod_eq_of_lt hpos.le (by omega)
  have hword : BitVec.ofNat 256 (UInt32.ofInt (retargetFactor params actual)).toNat =
      BitVec.ofInt 256 (retargetFactor params actual % 2 ^ 32) := by
    obtain ⟨f, hf⟩ := Int.eq_ofNat_of_zero_le hnonneg
    have hmod : (f : Int) % 2 ^ 32 = f := Int.emod_eq_of_lt (by omega) (by omega)
    rw [hf, hmod, UInt32.ofInt, hmod, Int.toNat_natCast, ofInt_natCast,
      UInt32.toNat_ofNat_of_lt' (show f < 2 ^ 32 by omega)]
  have hne : BitVec.ofInt 256 (retargetDivisor params) ≠ 0 := by
    obtain ⟨d, hd⟩ := Int.eq_ofNat_of_zero_le hpos.le
    intro hzero
    have hnat := congrArg BitVec.toNat hzero
    rw [hd, ofInt_natCast, toNat_ofNat,
      mod_eq_of_lt (show d < 2 ^ 256 by omega)] at hnat
    have : d = 0 := hnat
    omega
  rw [BaseUint.divide_eq _ hne, BaseUint.timesWord_eq, hword, hdivisor']

/-- After the last switch of the protocol the next target is the compact form of the target that is
computed in unbounded integers; the words of the product and the quotient are exact, and what is
read back is a positive target within the limit. -/
theorem nextTarget_exact (params : Params) (hparams : params ∈ retargetingNetworks)
    (pindexLast pindexFirst : CBlockIndex) (fProofOfStake : Bool)
    (htime : params.isProtocolV3 pindexLast.getBlockTime = true)
    (hpos : 0 < (setCompact pindexLast.nBits).bnTarget.toNat)
    (hle : (setCompact pindexLast.nBits).bnTarget.toNat ≤
      (getTargetLimit params pindexLast.getBlockTime fProofOfStake).toNat) :
    let t := (setCompact pindexLast.nBits).bnTarget
    let limit := (getTargetLimit params pindexLast.getBlockTime fProofOfStake).toNat
    let actual := pindexLast.getBlockTime - pindexFirst.getBlockTime
    let nBits :=
      calculateNextTargetRequired params pindexLast pindexFirst.getBlockTime fProofOfStake
    BaseUint.divide (BaseUint.timesWord t (UInt32.ofInt (retargetFactor params actual)))
        (BitVec.ofInt 256 (retargetDivisor params)) =
      some (BitVec.ofNat 256 (exactQuotient params t.toNat actual)) ∧
    nBits = getCompact (BitVec.ofNat 256 (exactTarget params limit t.toNat actual)) ∧
    (setCompact nBits).fNegative = false ∧ (setCompact nBits).fOverflow = false ∧
    0 < (setCompact nBits).bnTarget.toNat ∧ (setCompact nBits).bnTarget.toNat ≤ limit := by
  intro t limit actual nBits
  have hlimit : limit < 2 ^ 240 := getTargetLimit_lt hparams _
  set bnNew := t * BitVec.ofInt 256 (retargetFactor params actual % 2 ^ 32) /
    BitVec.ofInt 256 (retargetDivisor params % 2 ^ 64) with hbnNew
  have hquotient : bnNew.toNat = exactQuotient params t.toNat actual :=
    toNat_quotient hparams actual (hle.trans_lt hlimit)
  have hnew : BitVec.ofNat 256 (exactQuotient params t.toNat actual) = bnNew := by
    rw [← hquotient, ofNat_toNat, setWidth_eq]
  have htarget : BitVec.ofNat 256 (exactTarget params limit t.toNat actual) =
      if bnNew == 0 || decide (getTargetLimit params pindexLast.getBlockTime fProofOfStake < bnNew)
      then getTargetLimit params pindexLast.getBlockTime fProofOfStake else bnNew := by
    rw [exactTarget_eq hquotient]
    split_ifs <;> simp
  have hbits : nBits = getCompact (BitVec.ofNat 256 (exactTarget params limit t.toNat actual)) := by
    rw [htarget]
    exact calculateNextTargetRequired_eq hparams htime
  have hbound : (BitVec.ofNat 256 (exactTarget params limit t.toNat actual)).toNat ≤ limit ∧
      BitVec.ofNat 256 (exactTarget params limit t.toNat actual) ≠ 0 := by
    obtain ⟨hpositive, hwithin⟩ : 0 < exactTarget params limit t.toNat actual ∧
        exactTarget params limit t.toNat actual ≤ limit := by
      dsimp only [exactTarget]
      split_ifs <;> omega
    have hnat : (BitVec.ofNat 256 (exactTarget params limit t.toNat actual)).toNat =
        exactTarget params limit t.toNat actual := by
      rw [toNat_ofNat, mod_eq_of_lt (by omega)]
    rw [hnat]
    refine ⟨hwithin, fun hzero => ?_⟩
    rw [hzero] at hnat
    exact hpositive.ne hnat
  obtain ⟨hnegative, hoverflow, hpositive, hread⟩ := setCompact_getCompact hbound.2
  rw [← hbits] at hnegative hoverflow hpositive hread
  exact ⟨by rw [divide_timesWord hparams, hnew], hbits, hnegative, hoverflow, hpositive,
    hread.trans hbound.1⟩

def timedIndex (nTime nBits : UInt32) : CBlockIndex :=
  CBlockIndex.ofHeader 0
    { nVersion := 0, hashPrevBlock := 0, hashMerkleRoot := 0, nTime, nBits, nNonce := 0 }

/-- A stake block two minutes after the one before it. -/
theorem nextTarget_exact_twoMinutes :
    calculateNextTargetRequired mainConsensus (timedIndex 1700000120 0x1a00ffff) 1700000000 true =
      getCompact (BitVec.ofNat 256 (exactTarget mainConsensus
        (getTargetLimit mainConsensus 1700000120 true).toNat
        (setCompact 0x1a00ffff).bnTarget.toNat 120)) :=
  (nextTarget_exact mainConsensus (by simp [retargetingNetworks]) (timedIndex 1700000120 0x1a00ffff)
    (timedIndex 1700000000 0x1a00ffff) true (by decide) (by decide +kernel)
    (by decide +kernel)).2.1

/-- In regression-test mode the target is kept, whatever the spacing was. -/
theorem regTest_keepsTarget : let params := (regTestParams 0).consensus
    let pindexLast := timedIndex 1700000120 0x1a00ffff
    let t := (setCompact pindexLast.nBits).bnTarget.toNat
    let limit := (getTargetLimit params pindexLast.getBlockTime true).toNat
    params.isProtocolV3 pindexLast.getBlockTime = true ∧ 0 < t ∧ t ≤ limit ∧
      calculateNextTargetRequired params pindexLast 1700000000 true ≠
        getCompact (BitVec.ofNat 256 (exactTarget params limit t 120)) := by
  decide +kernel

end Exact

end Jumpcoin
