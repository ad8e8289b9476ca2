import Mathlib.Algebra.Polynomial.Eval.Degree
import Mathlib.Algebra.Polynomial.BigOperators

/-!
# The distance of cyclic codes

Weighted sums over few places that vanish at enough points have no weights. If the sums with the
powers `y ^ k` vanish for `k < d`, and so do those with another factor `z`, then at least `d + 2`
places have a weight: a polynomial in `y` is zero at all but two of them, and a difference of values
of `z` at one of the two.
-/

namespace Codes

open Polynomial

variable {ι K : Type*} [Field K] {S : Finset ι} {u y z : ι → K} {d : Nat}

/-- Sums that vanish for powers vanish for polynomials. -/
lemma sum_mul_eval_eq_zero (h : ∀ k < d, ∑ s ∈ S, u s * y s ^ k = 0) {P : K[X]}
    (hP : P.natDegree < d) : ∑ s ∈ S, u s * P.eval (y s) = 0 := by
  calc ∑ s ∈ S, u s * P.eval (y s)
      = ∑ s ∈ S, ∑ k ∈ Finset.range d, P.coeff k * (u s * y s ^ k) := by
        apply Finset.sum_congr rfl
        intro s _
        rw [Polynomial.eval_eq_sum_range' hP, Finset.mul_sum]
        exact Finset.sum_congr rfl fun k _ => by ring
    _ = ∑ k ∈ Finset.range d, P.coeff k * ∑ s ∈ S, u s * y s ^ k := by
        rw [Finset.sum_comm]
        exact Finset.sum_congr rfl fun k _ => (Finset.mul_sum _ _ _).symm
    _ = 0 := Finset.sum_eq_zero fun k hk => by rw [h k (Finset.mem_range.mp hk), mul_zero]

/-- No weights, if there are at most `d + 1` places. -/
lemma weight_eq_zero (hd : 0 < d) (hcard : S.card ≤ d + 1) (hy : Set.InjOn y S)
    (hz : Set.InjOn z S) (h : ∀ k < d, ∑ s ∈ S, u s * y s ^ k = 0)
    (hshift : ∀ k < d, ∑ s ∈ S, u s * z s * y s ^ k = 0) : ∀ s ∈ S, u s = 0 := by
  classical
  intro i hi
  by_cases hother : ∃ j ∈ S, j ≠ i
  · obtain ⟨j, hj, hne⟩ := hother
    set T := (S.erase i).erase j with hT
    set P : K[X] := ∏ t ∈ T, (X - C (y t)) with hP
    have hcardT : T.card + 2 = S.card := by
      have hji : j ∈ S.erase i := Finset.mem_erase.mpr ⟨hne, hj⟩
      have h1 := Finset.card_erase_add_one hi
      have h2 := Finset.card_erase_add_one hji
      rw [hT]
      omega
    have hdegree : P.natDegree < d := by
      rw [hP, Polynomial.natDegree_prod_of_monic _ _ fun t _ => Polynomial.monic_X_sub_C (y t)]
      simp only [Polynomial.natDegree_X_sub_C, Finset.sum_const, smul_eq_mul, mul_one]
      omega
    -- the weights with a factor that is zero at all places but one
    have hsum : ∑ s ∈ S, u s * ((z s - z j) * P.eval (y s)) = 0 := by
      have h1 := sum_mul_eval_eq_zero h hdegree
      have h2 := sum_mul_eval_eq_zero hshift hdegree
      calc ∑ s ∈ S, u s * ((z s - z j) * P.eval (y s))
          = ∑ s ∈ S, u s * z s * P.eval (y s) - z j * ∑ s ∈ S, u s * P.eval (y s) := by
            rw [Finset.mul_sum, ← Finset.sum_sub_distrib]
            exact Finset.sum_congr rfl fun s _ => by ring
        _ = 0 := by rw [h1, h2, mul_zero, sub_zero]
    rw [Finset.sum_eq_single_of_mem i hi] at hsum
    · have hzne : z i - z j ≠ 0 := sub_ne_zero.mpr fun heq => hne (hz hj hi heq.symm)
      have hPne : P.eval (y i) ≠ 0 := by
        rw [hP, Polynomial.eval_prod, Finset.prod_ne_zero_iff]
        intro t ht
        obtain ⟨htj, hti, htS⟩ : t ≠ j ∧ t ≠ i ∧ t ∈ S := by simpa [hT] using ht
        simp only [Polynomial.eval_sub, Polynomial.eval_X, Polynomial.eval_C]
        exact sub_ne_zero.mpr fun heq => hti (hy htS hi heq.symm)
      exact (mul_eq_zero.mp hsum).resolve_right (mul_ne_zero hzne hPne)
    · intro s hs hsi
      by_cases hsj : s = j
      · rw [hsj, sub_self, zero_mul, mul_zero]
      · have hzero : P.eval (y s) = 0 := by
          rw [hP, Polynomial.eval_prod]
          exact Finset.prod_eq_zero (i := s) (by simp [hT, hs, hsi, hsj]) (by simp)
        rw [hzero, mul_zero, mul_zero]
  · push Not at hother
    have hsingle := h 0 hd
    rw [Finset.sum_eq_single_of_mem i hi fun j hj hji => absurd (hother j hj) hji] at hsingle
    simpa using hsingle

end Codes
