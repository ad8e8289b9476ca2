import Mathlib.FieldTheory.IsAlgClosed.AlgebraicClosure
import Mathlib.Algebra.CharP.Two
import Mathlib.Data.Nat.Bitwise

/-!
# Computing in binary fields

A number stands for the sum of the weights of its bits. In characteristic two exclusive or is
addition, and where the weights are the powers of a root of a polynomial over two elements, numbers
are multiplied by shifts and reductions. So equations between elements that are given by numbers
are settled by computing with the numbers, and an element is not zero if a number for its inverse is
known.
-/

namespace BinaryField

open Polynomial

section Sums

variable {R : Type*} [CommRing R]

def bitSum (w : Nat → R) (n c : Nat) : R :=
  ∑ j ∈ Finset.range n, if c.testBit j then w j else 0

lemma bitSum_congr {w w' : Nat → R} {n : Nat} (h : ∀ j < n, w j = w' j) (c : Nat) :
    bitSum w n c = bitSum w' n c := by
  apply Finset.sum_congr rfl
  intro j hj
  rw [h j (Finset.mem_range.mp hj)]

@[simp] lemma bitSum_zero (w : Nat → R) (c : Nat) : bitSum w 0 c = 0 := rfl

lemma bitSum_succ (w : Nat → R) (n c : Nat) :
    bitSum w (n + 1) c = bitSum w n c + if c.testBit n then w n else 0 :=
  Finset.sum_range_succ _ n

lemma mul_bitSum (x : R) (w : Nat → R) (n c : Nat) :
    x * bitSum w n c = bitSum (fun j => x * w j) n c := by
  simp only [bitSum, Finset.mul_sum, mul_ite, mul_zero]

lemma bitSum_add (w : Nat → R) (n k c : Nat) :
    bitSum w (n + k) c = bitSum w n c + bitSum (fun j => w (n + j)) k (c >>> n) := by
  simp only [bitSum, Finset.sum_range_add, Nat.testBit_shiftRight]

lemma bitSum_of_lt (w : Nat → R) {n c : Nat} (hc : c < 2 ^ n) (k : Nat) :
    bitSum w (n + k) c = bitSum w n c := by
  rw [bitSum_add, Nat.shiftRight_eq_div_pow, Nat.div_eq_of_lt hc]
  simp [bitSum]

lemma bitSum_shiftLeft (w : Nat → R) (n k c : Nat) :
    bitSum w (k + n) (c <<< k) = bitSum (fun j => w (k + j)) n c := by
  rw [bitSum_add, Nat.shiftLeft_shiftRight, add_eq_right]
  apply Finset.sum_eq_zero
  intro j hj
  simp [Nat.testBit_shiftLeft, Nat.not_le.mpr (Finset.mem_range.mp hj)]

lemma bitSum_mod (w : Nat → R) (n c : Nat) : bitSum w n (c % 2 ^ n) = bitSum w n c := by
  apply Finset.sum_congr rfl
  intro j hj
  simp [Nat.testBit_mod_two_pow, Finset.mem_range.mp hj]

lemma bitSum_xor [CharP R 2] (w : Nat → R) (n c c' : Nat) :
    bitSum w n (c ^^^ c') = bitSum w n c + bitSum w n c' := by
  rw [bitSum, bitSum, bitSum, ← Finset.sum_add_distrib]
  apply Finset.sum_congr rfl
  intro j _
  rw [Nat.testBit_xor]
  cases c.testBit j <;> cases c'.testBit j <;> simp [CharTwo.add_self_eq_zero]

end Sums

/-! ## Arithmetic -/

/-- Shift by one, and reduce by the polynomial `m` of degree `n`. -/
def double (n m c : Nat) : Nat :=
  if (c <<< 1).testBit n then (c <<< 1) ^^^ m else c <<< 1

def timesLoop (n m a b : Nat) : Nat → Nat → Nat
  | 0, acc => acc
  | k + 1, acc => timesLoop n m a b k (double n m acc ^^^ if b.testBit k then a else 0)

def times (n m a b : Nat) : Nat :=
  timesLoop n m a b n 0

def powerLoop (n m a k : Nat) : Nat → Nat → Nat
  | 0, acc => acc
  | w + 1, acc =>
    let acc := times n m acc acc
    powerLoop n m a k w (if k.testBit w then times n m acc a else acc)

def power (n m a w k : Nat) : Nat :=
  powerLoop n m a k w 1

def xorSum (W : Nat → Nat) : Nat → Nat → Nat
  | 0, _ => 0
  | n + 1, c => xorSum W n c ^^^ if c.testBit n then W n else 0

section Arithmetic

variable {R : Type*} [CommRing R]

/-- The element that a number of `n` bits stands for. -/
def eval (x : R) (n c : Nat) : R :=
  bitSum (x ^ ·) n c

/-- The polynomial `m` of degree `n` vanishes at `x`. -/
structure Vanishes (x : R) (n m : Nat) : Prop where
  eval_eq_zero : eval x (n + 1) m = 0
  top : m.testBit n = true

variable {x : R} {n m : Nat}

@[simp] lemma eval_zero : eval x n 0 = 0 := by
  simp [eval, bitSum]

lemma eval_one (hn : 0 < n) : eval x n 1 = 1 := by
  obtain ⟨k, rfl⟩ := Nat.exists_eq_add_of_lt hn
  rw [Nat.zero_add, Nat.add_comm, eval, bitSum_of_lt _ (by decide)]
  simp [bitSum]

lemma eval_two (hn : 1 < n) : eval x n 2 = x := by
  obtain ⟨k, rfl⟩ := Nat.exists_eq_add_of_lt hn
  rw [Nat.add_right_comm, eval, bitSum_of_lt _ (by decide)]
  simp [bitSum, Finset.sum_range_succ, show Nat.testBit 2 1 = true by decide]

variable [CharP R 2]

lemma eval_xor (c c' : Nat) : eval x n (c ^^^ c') = eval x n c + eval x n c' :=
  bitSum_xor _ n c c'

section

variable (h : Vanishes x n m)
include h

lemma Vanishes.eval_double (c : Nat) : eval x n (double n m c) = x * eval x n c := by
  have hshift : eval x (n + 1) (c <<< 1) = x * eval x n c := by
    rw [eval, Nat.add_comm, bitSum_shiftLeft, eval, mul_bitSum]
    exact bitSum_congr (fun j _ => by ring) c
  have hdouble : eval x (n + 1) (double n m c) = x * eval x n c := by
    unfold double
    split_ifs
    · rw [eval_xor, h.eval_eq_zero, add_zero, hshift]
    · exact hshift
  have htop : (double n m c).testBit n = false := by
    unfold double
    split_ifs with hbit
    · rw [Nat.testBit_xor, hbit, h.top, Bool.xor_self]
    · simpa using hbit
  rw [← hdouble, eval, eval, bitSum_succ, htop]
  simp

lemma Vanishes.eval_timesLoop (a b k acc : Nat) :
    eval x n (timesLoop n m a b k acc) = eval x n acc * x ^ k + eval x n a * eval x k b := by
  induction k generalizing acc with
  | zero =>
    have hnone : eval x 0 b = 0 := bitSum_zero _ b
    rw [timesLoop, hnone, pow_zero, mul_one, mul_zero, add_zero]
  | succ k ih =>
    have hbit : eval x n (if b.testBit k then a else 0) =
        eval x n a * if b.testBit k then 1 else 0 := by
      split_ifs <;> simp
    rw [timesLoop, ih, eval_xor, h.eval_double, hbit]
    simp only [eval, bitSum_succ]
    split_ifs <;> ring

lemma Vanishes.eval_times (a b : Nat) : eval x n (times n m a b) = eval x n a * eval x n b := by
  rw [times, h.eval_timesLoop, eval_zero, zero_mul, zero_add]

lemma Vanishes.eval_powerLoop (a k w acc : Nat) :
    eval x n (powerLoop n m a k w acc) = eval x n acc ^ 2 ^ w * eval x n a ^ (k % 2 ^ w) := by
  induction w generalizing acc with
  | zero => simp [powerLoop, Nat.mod_one]
  | succ w ih =>
    rw [powerLoop, ih, Nat.mod_pow_succ]
    simp only [Nat.testBit_eq_decide_div_mod_eq, decide_eq_true_eq]
    split_ifs with hbit
    · rw [h.eval_times, h.eval_times, hbit]
      ring
    · rw [h.eval_times, (Nat.mod_two_eq_zero_or_one _).resolve_right hbit]
      ring

lemma Vanishes.eval_power (hn : 0 < n) {w k : Nat} (hk : k < 2 ^ w)
    (a : Nat) : eval x n (power n m a w k) = eval x n a ^ k := by
  rw [power, h.eval_powerLoop, eval_one hn, one_pow, one_mul, Nat.mod_eq_of_lt hk]

end

lemma eval_xorSum (W : Nat → Nat) (k c : Nat) :
    eval x n (xorSum W k c) = bitSum (fun j => eval x n (W j)) k c := by
  induction k with
  | zero => rw [xorSum, eval_zero, bitSum_zero]
  | succ k ih =>
    rw [xorSum, eval_xor, ih, bitSum_succ]
    split_ifs <;> simp

lemma Vanishes.ne_zero [Nontrivial R] (h : Vanishes x n m) (hn : 0 < n) {a b : Nat}
    (hone : times n m a b = 1) : eval x n a ≠ 0 := by
  intro hzero
  have hmul := h.eval_times a b
  rw [hone, eval_one hn, hzero, zero_mul] at hmul
  exact one_ne_zero hmul

end Arithmetic

/-- In an algebraically closed field every polynomial has a place where it vanishes. -/
lemma exists_vanishes (K : Type*) [Field K] [IsAlgClosed K] {n m : Nat} (hn : 0 < n)
    (htop : m.testBit n = true) : ∃ x : K, Vanishes x n m := by
  set p : K[X] := eval X (n + 1) m with hp
  have hdegree : p.degree = n := by
    have hlow : (bitSum (fun j => (X : K[X]) ^ j) n m).degree < n := by
      rw [← Polynomial.mem_degreeLT]
      apply Submodule.sum_mem
      intro j hj
      split_ifs
      · rw [Polynomial.mem_degreeLT, Polynomial.degree_X_pow]
        exact_mod_cast Finset.mem_range.mp hj
      · exact Submodule.zero_mem _
    rw [hp, eval, bitSum_succ, htop, if_pos rfl, Polynomial.degree_add_eq_right_of_degree_lt]
    · exact Polynomial.degree_X_pow n
    · rwa [Polynomial.degree_X_pow]
  obtain ⟨x, hx⟩ := IsAlgClosed.exists_root p (by simp [hdegree, hn.ne'])
  refine ⟨x, ?_, htop⟩
  rw [Polynomial.IsRoot, hp, eval, bitSum, Polynomial.eval_finsetSum] at hx
  refine (Finset.sum_congr rfl fun j _ => ?_).trans hx
  split_ifs <;> simp

end BinaryField
