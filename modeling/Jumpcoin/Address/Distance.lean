import Jumpcoin.Address.CashAddr
import Jumpcoin.Foundation.BinaryField
import Jumpcoin.Foundation.Codes

/-!
# Errors that checksums find

Up to four wrong values in at most 1025 are found. The number that `PolyMod` keeps is a polynomial
over the field of 32 elements, reduced by a generator; at a place where the generator vanishes it
takes the same value as the polynomial of all the values so far. The generator vanishes at powers
of an element of order 1025, among them two progressions of three with the same difference, so a
polynomial with at most four coefficients has the same remainder as zero only if it is zero.

The field is that of the algebraic closure of two elements; the elements that are needed are given
by numbers of twenty bits.
-/

namespace Jumpcoin

open Codec ConvertBits BinaryField List Nat

namespace CashAddr

/-! ## The remainder at a place -/

/-- What is added for the bits that leave the forty bits: the multiples of `x ^ 8` reduced by the
generator. -/
def addends : List Nat :=
  [0x98f2bc8e61, 0x79b76d99e2, 0xf33e5fb3c4, 0xae2eabe2a8, 0x1e4f43e470]

section Remainder

variable {K : Type*} [Field K] (α ρ : K)

def weight (j : Nat) : K :=
  α ^ (j % 5) * ρ ^ (j / 5)

def symbol (d : Nat) : K :=
  bitSum (α ^ ·) 5 d

def remainder (c : Nat) : K :=
  bitSum (weight α ρ) 40 c

def GeneratorRoot : Prop :=
  ∀ i < 5, remainder α ρ (addends.getD i 0) = weight α ρ (40 + i)

lemma mul_weight (j : Nat) : ρ * weight α ρ j = weight α ρ (5 + j) := by
  simp only [weight, add_mod_left, add_div_left j (by decide : 0 < 5), pow_succ]
  ring

lemma addIf_eq_xor {mask i : Nat} (hmask : mask = 2 ^ i) (c k x : Nat) :
    addIf (c >>> 35) mask k x = x ^^^ if c.testBit (35 + i) then k else 0 := by
  subst hmask
  simp only [addIf, and_two_pow_ne_zero, testBit_shiftRight]
  split_ifs <;> simp

variable {α ρ}

@[simp] lemma symbol_zero : symbol α 0 = 0 := by
  simp [symbol, bitSum]

@[simp] lemma remainder_zero : remainder α ρ 0 = 0 := by
  simp [remainder, bitSum]

lemma weight_of_lt {j : Nat} (hj : j < 5) : weight α ρ j = α ^ j := by
  rw [weight, mod_eq_of_lt hj, div_eq_of_lt hj, pow_zero, mul_one]

lemma remainder_of_lt {d : Nat} (hd : d < 32) : remainder α ρ d = symbol α d := by
  rw [remainder, bitSum_of_lt (weight α ρ) (n := 5) hd 35, symbol]
  exact bitSum_congr (fun j hj => weight_of_lt hj) d

lemma remainder_low (c : Nat) :
    remainder α ρ ((c &&& 0x07ffffffff) <<< 5) = ρ * bitSum (weight α ρ) 35 c := by
  rw [show 0x07ffffffff = 2 ^ 35 - 1 from rfl, and_two_pow_sub_one_eq_mod, remainder,
    bitSum_shiftLeft _ 35 5, bitSum_mod, mul_bitSum]
  exact bitSum_congr (fun j _ => (mul_weight α ρ j).symm) c

variable [CharP K 2]

lemma remainder_xor (c c' : Nat) : remainder α ρ (c ^^^ c') = remainder α ρ c + remainder α ρ c' :=
  bitSum_xor _ 40 c c'

/-- One value: the remainder is multiplied by the place and the value is added. -/
lemma remainder_polyModStep (h : GeneratorRoot α ρ) (c : Nat) {d : Nat} (hd : d < 32) :
    remainder α ρ (polyModStep c d) = ρ * remainder α ρ c + symbol α d := by
  have hadd : ∀ i < 5, remainder α ρ (if c.testBit (35 + i) then addends.getD i 0 else 0) =
      if c.testBit (35 + i) then ρ * weight α ρ (35 + i) else 0 := by
    intro i hi
    split_ifs
    · rw [h i hi, mul_weight]
      congr 1
      omega
    · simp
  have hhigh : ρ * remainder α ρ c = ρ * bitSum (weight α ρ) 35 c +
      ∑ i ∈ Finset.range 5, if c.testBit (35 + i) then ρ * weight α ρ (35 + i) else 0 := by
    rw [remainder, bitSum_add _ 35 5, mul_add, mul_bitSum ρ fun j => weight α ρ (35 + j)]
    simp only [bitSum, testBit_shiftRight]
  simp only [polyModStep]
  rw [addIf_eq_xor (show 0x01 = 2 ^ 0 from rfl), addIf_eq_xor (show 0x02 = 2 ^ 1 from rfl),
    addIf_eq_xor (show 0x04 = 2 ^ 2 from rfl), addIf_eq_xor (show 0x08 = 2 ^ 3 from rfl),
    addIf_eq_xor (show 0x10 = 2 ^ 4 from rfl)]
  have h0 := hadd 0 (by decide)
  have h1 := hadd 1 (by decide)
  have h2 := hadd 2 (by decide)
  have h3 := hadd 3 (by decide)
  have h4 := hadd 4 (by decide)
  simp only [addends, getD_cons_zero, getD_cons_succ] at h0 h1 h2 h3 h4
  rw [remainder_xor, remainder_xor, remainder_xor, remainder_xor, remainder_xor, remainder_xor,
    h0, h1, h2, h3, h4, remainder_low, remainder_of_lt hd, hhigh]
  simp only [Finset.sum_range_succ, Finset.sum_range_zero]
  ring

/-- All values: the remainder is that of a polynomial with the values for coefficients. -/
lemma remainder_foldl (h : GeneratorRoot α ρ) {l : List Nat} (hl : ∀ d ∈ l, d < 32) (c : Nat) :
    remainder α ρ (l.reverse.foldl polyModStep c) = ρ ^ l.length * remainder α ρ c +
      ∑ i ∈ Finset.range l.length, symbol α (l.getD i 0) * ρ ^ i := by
  induction l with
  | nil => simp
  | cons d l ih =>
    have hl' : ∀ d' ∈ l, d' < 32 := fun d' hd' => hl d' (mem_cons_of_mem _ hd')
    rw [reverse_cons, foldl_append, foldl_cons, foldl_nil,
      remainder_polyModStep h _ (hl d mem_cons_self), ih hl', length_cons,
      Finset.sum_range_succ', mul_add, Finset.mul_sum]
    simp only [getD_cons_succ, getD_cons_zero, pow_succ, pow_zero, mul_one]
    have hterm : ∀ i, ρ * (symbol α (l.getD i 0) * ρ ^ i) = symbol α (l.getD i 0) * (ρ ^ i * ρ) :=
      fun i => by ring
    simp only [hterm]
    ring

end Remainder

/-! ## The field -/

/-- The polynomial of degree twenty that an element of order 1025 is a root of. -/
def modulus : Nat := 0x126ec9

def generatorPowers : List Nat := [1, 0x91853, 0x28f42, 0xc6cf3, 0xcd094]

/-- Exponents of roots of the generator of the code, and the numbers of the powers: two progressions
with the same difference. -/
def roots : List (Nat × Nat) :=
  [(993, 0x40788), (1024, 0x93764), (1055, 0xd5801), (995, 0x270e9), (1026, 0x2), (1057, 0x3d35f)]

def symbolNumber (d : Nat) : Nat :=
  xorSum (fun j => generatorPowers.getD j 0) 5 d

def remainderNumber (r : Nat) : Nat → Nat → Nat
  | 0, _ => 0
  | n + 1, c => symbolNumber c ^^^ times 20 modulus r (remainderNumber r n (c >>> 5))

/-- The powers that are compared with one for the order, and the numbers of inverses of the
differences. -/
def orderTests : List (Nat × Nat) := [(205, 0xe5b4d), (25, 0xcc746)]

/-- The tables are what they are said to be: powers of the generator, roots of the generator of the
code, invertible symbols, and the order of the place. -/
lemma tables_checked :
    (∀ j < 5, power 20 modulus (generatorPowers.getD 1 0) 3 j = generatorPowers.getD j 0) ∧
    (∀ root ∈ roots, power 20 modulus 2 11 root.1 = root.2 ∧ ∀ i < 5,
      remainderNumber root.2 8 (addends.getD i 0) =
        times 20 modulus (generatorPowers.getD i 0) (power 20 modulus root.2 4 8)) ∧
    (∀ d < 32, d ≠ 0 →
      times 20 modulus (symbolNumber d) (power 20 modulus (symbolNumber d) 5 30) = 1) ∧
    power 20 modulus 2 11 1025 = 1 ∧ ∀ test ∈ orderTests,
      times 20 modulus (power 20 modulus 2 11 test.1 ^^^ 1) test.2 = 1 := by
  decide +kernel

section Place

variable {K : Type*} [Field K] [CharP K 2] {γ : K} {root : Nat × Nat}

def alpha (γ : K) : K :=
  eval γ 20 (generatorPowers.getD 1 0)

section

variable (hγ : Vanishes γ 20 modulus)
include hγ

lemma eval_generatorPowers {j : Nat} (hj : j < 5) :
    eval γ 20 (generatorPowers.getD j 0) = alpha γ ^ j := by
  rw [← tables_checked.1 j hj, hγ.eval_power (by decide) (hj.trans (by decide))]
  rfl

lemma eval_symbolNumber (d : Nat) : eval γ 20 (symbolNumber d) = symbol (alpha γ) d := by
  rw [symbolNumber, eval_xorSum, symbol]
  exact bitSum_congr (fun j hj => eval_generatorPowers hγ hj) d

lemma symbol_ne_zero {d : Nat} (hd : d < 32) (hne : d ≠ 0) : symbol (alpha γ) d ≠ 0 := by
  rw [← eval_symbolNumber hγ]
  exact hγ.ne_zero (by decide) (tables_checked.2.2.1 d hd hne)

lemma eval_remainderNumber (r n c : Nat) :
    eval γ 20 (remainderNumber r n c) = bitSum (weight (alpha γ) (eval γ 20 r)) (5 * n) c := by
  induction n generalizing c with
  | zero => rw [remainderNumber, eval_zero, mul_zero, bitSum_zero]
  | succ n ih =>
    rw [remainderNumber, eval_xor, eval_symbolNumber hγ, hγ.eval_times, ih, Nat.mul_succ,
      Nat.add_comm, bitSum_add, mul_bitSum, symbol]
    congr 1
    · exact bitSum_congr (fun j hj => (weight_of_lt hj).symm) c
    · exact bitSum_congr (fun j _ => mul_weight _ _ j) _

lemma eval_root (h : root ∈ roots) : eval γ 20 root.2 = γ ^ root.1 := by
  have hsize : ∀ root ∈ roots, root.1 < 2 ^ 11 := by decide
  rw [← (tables_checked.2.1 root h).1, hγ.eval_power (by decide) (hsize root h),
    eval_two (by decide)]

lemma generatorRoot (h : root ∈ roots) : GeneratorRoot (alpha γ) (γ ^ root.1) := by
  intro i hi
  have hcheck := congrArg (eval γ 20) ((tables_checked.2.1 root h).2 i hi)
  rw [eval_remainderNumber hγ, hγ.eval_times, hγ.eval_power (by decide) (by decide),
    eval_generatorPowers hγ hi, eval_root hγ h] at hcheck
  rw [remainder, hcheck, weight, Nat.add_mod, Nat.add_div (by decide)]
  simp [mod_eq_of_lt hi, div_eq_of_lt hi, not_le.mpr hi]

lemma orderOf_place : orderOf γ = 1025 := by
  obtain ⟨-, -, -, hone, htests⟩ := tables_checked
  have hpow : ∀ k < 2 ^ 11, eval γ 20 (power 20 modulus 2 11 k) = γ ^ k := fun k hk => by
    rw [hγ.eval_power (by decide) hk, eval_two (by decide)]
  have hne : ∀ test ∈ orderTests, γ ^ test.1 ≠ 1 := by
    intro test htest heq
    have hsize : ∀ test ∈ orderTests, test.1 < 2 ^ 11 := by decide
    apply hγ.ne_zero (by decide) (htests test htest)
    rw [eval_xor, hpow _ (hsize test htest), eval_one (by decide), heq, CharTwo.add_self_eq_zero]
  apply orderOf_eq_of_pow_and_pow_div_prime (by decide)
  · rw [← hpow 1025 (by decide), hone, eval_one (by decide)]
  · intro p hp hdvd
    have hcases : p = 5 ∨ p = 41 := by
      rw [show 1025 = 5 ^ 2 * 41 by decide, hp.dvd_mul] at hdvd
      rcases hdvd with h5 | h41
      · exact .inl ((prime_dvd_prime_iff_eq hp prime_five).mp (hp.dvd_of_dvd_pow h5))
      · exact .inr ((prime_dvd_prime_iff_eq hp (by norm_num)).mp h41)
    rcases hcases with rfl | rfl
    · exact hne (205, 0xe5b4d) (by decide)
    · exact hne (25, 0xcc746) (by decide)

/-- Powers with an exponent that has no divisor in common with the order are different. -/
lemma pow_injOn {k : Nat} (hk : Nat.Coprime 1025 k) :
    Set.InjOn (fun i => γ ^ (k * i)) {i | i < 1025} := by
  intro i hi j hj heq
  have horder : orderOf (γ ^ k) = 1025 := by
    have hcoprime : (orderOf γ).Coprime k := by rwa [orderOf_place hγ]
    rw [hcoprime.orderOf_pow, orderOf_place hγ]
  simp only [pow_mul] at heq
  exact pow_injOn_Iio_orderOf (by simpa [horder] using hi) (by simpa [horder] using hj) heq

end

end Place

/-! ## Errors -/

lemma card_errors (l : List Nat) :
    ((Finset.range l.length).filter fun i => l.getD i 0 ≠ 0).card = l.countP (· ≠ 0) := by
  rw [← count_eq_card_filter_range]
  induction l with
  | nil => simp
  | cons d l ih =>
    rw [length_cons, count_succ', countP_cons]
    simp only [getD_cons_succ, getD_cons_zero, ih, decide_eq_true_eq]

/-- Four values in 1025 are not worth nothing together. -/
lemma eq_zero_of_remainder {l : List Nat} (hl : ∀ d ∈ l, d < 32) (hlength : l.length ≤ 1025)
    (hcount : l.countP (· ≠ 0) ≤ 4) (h : l.reverse.foldl polyModStep 0 = 0) : ∀ d ∈ l, d = 0 := by
  obtain ⟨γ, hγ⟩ := exists_vanishes (AlgebraicClosure (ZMod 2)) (n := 20) (m := modulus)
    (by decide) (by decide)
  set α := alpha γ
  set S := (Finset.range l.length).filter fun i => l.getD i 0 ≠ 0 with hS
  have hlt : ∀ i ∈ S, i < 1025 := fun i hi =>
    (Finset.mem_range.mp (Finset.mem_filter.mp hi).1).trans_le hlength
  have hsum : ∀ root ∈ roots, ∑ i ∈ S, symbol α (l.getD i 0) * γ ^ (root.1 * i) = 0 := by
    intro root hroot
    have hrun := remainder_foldl (generatorRoot hγ hroot) hl 0
    rw [h, remainder_zero, mul_zero, zero_add] at hrun
    rw [hS, Finset.sum_filter_of_ne]
    · simpa only [pow_mul] using hrun.symm
    · intro i _ hne hzero
      rw [hzero, symbol_zero, zero_mul] at hne
      exact hne rfl
  have hcard : S.card ≤ 3 + 1 := by rwa [hS, card_errors]
  have hroots : ∀ e < 2, ∀ k < 3, ∃ root ∈ roots, root.1 = 993 + 2 * e + 31 * k := by decide
  have hsums : ∀ e < 2, ∀ k < 3, ∑ i ∈ S,
      symbol α (l.getD i 0) * γ ^ (993 * i) * (γ ^ (2 * i)) ^ e * (γ ^ (31 * i)) ^ k = 0 := by
    intro e he k hk
    obtain ⟨root, hroot, hexp⟩ := hroots e he k hk
    rw [← hsum root hroot, hexp]
    exact Finset.sum_congr rfl fun i _ => by ring
  have hfirst := hsums 0 (by decide)
  have hsecond := hsums 1 (by decide)
  simp only [pow_zero, mul_one, pow_one] at hfirst hsecond
  have hweights := Codes.weight_eq_zero (by decide) hcard ((pow_injOn hγ (by decide)).mono hlt)
    ((pow_injOn hγ (by decide)).mono hlt) hfirst hsecond
  intro d hd
  obtain ⟨i, hi, rfl⟩ := mem_iff_getElem.mp hd
  by_contra hne
  have hget : l.getD i 0 = l[i] := getD_eq_getElem l 0 hi
  have hmem : i ∈ S := by simp [hS, hi, hne]
  have hγne : γ ≠ 0 := by
    rintro rfl
    have horder := orderOf_place hγ
    simp at horder
  have hsymbol := symbol_ne_zero hγ (hl _ hd) hne
  rw [← hget] at hsymbol
  exact mul_ne_zero hsymbol (pow_ne_zero _ hγne) (hweights i hmem)

def distance (values values' : Bytes) : Nat :=
  (List.zip values values').countP fun pair => pair.1 ≠ pair.2

def errors (values values' : Bytes) : List Nat :=
  List.zipWith (· ^^^ ·) (values.map UInt8.toNat) (values'.map UInt8.toNat)

lemma countP_errors (values values' : Bytes) :
    (errors values values').countP (· ≠ 0) = distance values values' := by
  unfold errors distance
  induction values generalizing values' with
  | nil => simp
  | cons c values ih =>
    cases values' with
    | nil => simp
    | cons c' values' =>
      simp only [map_cons, zipWith_cons_cons, zip_cons_cons, countP_cons, ih]
      simp [UInt8.toNat_inj]

lemma errors_lt {values values' : Bytes} (hvalues : Groups 5 values) (hvalues' : Groups 5 values') :
    ∀ d ∈ errors values values', d < 32 := by
  intro d hd
  obtain ⟨i, hi, rfl⟩ := mem_iff_getElem.mp hd
  simp only [errors, getElem_zipWith, getElem_map]
  exact xor_lt_two_pow (hvalues _ (getElem_mem _)) (hvalues' _ (getElem_mem _))

/-- Up to four values that are replaced are found. -/
theorem verifyChecksum_replaced (pre values values' : Bytes) (hvalues : Groups 5 values)
    (hvalues' : Groups 5 values') (hlength : values'.length = values.length)
    (hsize : (expandPrefix pre ++ values).length ≤ 1025) (h : verifyChecksum pre values = true)
    (hpos : 1 ≤ distance values values') (hle : distance values values' ≤ 4) :
    verifyChecksum pre values' = false := by
  by_contra hverify
  rw [Bool.not_eq_false] at hverify
  simp only [verifyChecksum, polyMod, beq_iff_eq, map_append, foldl_append] at h hverify
  set c := ((expandPrefix pre).map UInt8.toNat).foldl polyModStep 1
  have hsame : (values.map UInt8.toNat).length = (values'.map UInt8.toNat).length := by
    simp [hlength]
  have hnothing : (errors values values').foldl polyModStep 0 = 0 := by
    have hxor := foldl_polyModStep_xor hsame c c
    rwa [h, hverify, Nat.xor_self, Nat.xor_self] at hxor
  have hshort : (errors values values').reverse.length ≤ 1025 := by
    simp only [errors, length_reverse, length_zipWith, length_map,
      length_append] at hsize ⊢
    omega
  have hzero := eq_zero_of_remainder (by simpa using errors_lt hvalues hvalues') hshort
    (by rwa [countP_reverse, countP_errors]) (by rwa [reverse_reverse])
  have hnone : distance values values' = 0 := by
    rw [← countP_errors, countP_eq_zero]
    intro d hd
    simpa using hzero d (mem_reverse.mpr hd)
  omega

/-- Seven values that are good after one letter, and four of them replaced. -/
theorem verifyChecksum_replaced_letter :
    verifyChecksum (ascii "c") [0, 12, 13, 4, 10, 2, 17] = true ∧
      verifyChecksum (ascii "c") [31, 12, 0, 4, 10, 7, 16] = false :=
  ⟨by decide +kernel, verifyChecksum_replaced (ascii "c") [0, 12, 13, 4, 10, 2, 17]
    [31, 12, 0, 4, 10, 7, 16] (by simp [Groups]) (by simp [Groups]) rfl (by decide)
    (by decide +kernel) (by decide) (by decide)⟩

end CashAddr

end Jumpcoin
