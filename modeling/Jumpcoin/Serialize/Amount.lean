import Mathlib.Tactic

/-!
# Compressed amounts

`CTxOutCompressor::CompressAmount` and `DecompressAmount`. An amount is written as its decimal
digits without the trailing zeros, and the number of zeros dropped. The arithmetic is that of
`uint64_t`, so the compressed form of a large amount that does not end in a zero wraps. Amounts
are nonnegative `int64_t`; among these the pair of functions is the identity exactly on the
multiples of ten and on the amounts whose compressed form fits.
-/

namespace Jumpcoin

/-! ## Definitions -/

def dropZeros : Nat → UInt64 → UInt64 × Nat
  | 0, n => (n, 0)
  | left + 1, n =>
    if n % 10 = 0 then ((dropZeros left (n / 10)).1, (dropZeros left (n / 10)).2 + 1) else (n, 0)

def compressAmount (n : UInt64) : UInt64 :=
  if n = 0 then 0
  else
    let m := (dropZeros 9 n).1
    let e := (dropZeros 9 n).2
    if e < 9 then 1 + (m / 10 * 9 + m % 10 - 1) * 10 + UInt64.ofNat e
    else 1 + (m - 1) * 10 + 9

def appendZeros : Nat → UInt64 → UInt64
  | 0, n => n
  | e + 1, n => appendZeros e (n * 10)

def decompressAmount (x : UInt64) : UInt64 :=
  if x = 0 then 0
  else
    let e := (x - 1) % 10
    let x := (x - 1) / 10
    let n := if e < 9 then x / 9 * 10 + (x % 9 + 1) else x + 1
    appendZeros e.toNat n

/-! ## The functions on natural numbers -/

lemma dropZeros_spec (left : Nat) (n : UInt64) :
    n.toNat = (dropZeros left n).1.toNat * 10 ^ (dropZeros left n).2 ∧
      (dropZeros left n).2 ≤ left ∧
      ((dropZeros left n).2 < left → (dropZeros left n).1.toNat % 10 ≠ 0) := by
  induction left generalizing n with
  | zero => simp [dropZeros]
  | succ left ih =>
    have hmod : n % 10 = 0 ↔ n.toNat % 10 = 0 := by
      rw [← UInt64.toNat_inj]
      simp
    obtain ⟨hval, hle, hlast⟩ := ih (n / 10)
    rw [dropZeros]
    split_ifs with h
    · have hdiv : (n / 10).toNat = n.toNat / 10 := by simp
      rw [hdiv] at hval
      refine ⟨?_, by omega, fun hlt => hlast (by omega)⟩
      rw [pow_succ, ← mul_assoc, ← hval]
      have := hmod.mp h
      omega
    · exact ⟨by simp, by omega, fun _ => mt hmod.mpr h⟩

/-- The digits a compressed amount less one stands for. -/
def mantissa (y : Nat) : Nat :=
  if y % 10 < 9 then y / 10 / 9 * 10 + (y / 10 % 9 + 1) else y / 10 + 1

lemma appendZeros_toNat (e : Nat) (n : UInt64) :
    (appendZeros e n).toNat = n.toNat * 10 ^ e % 2 ^ 64 := by
  induction e generalizing n with
  | zero => simp [appendZeros]
  | succ e ih =>
    rw [appendZeros, ih, UInt64.toNat_mul, Nat.mod_mul_mod, pow_succ' 10 e, ← mul_assoc]
    rfl

variable {y : Nat}

lemma decompressAmount_toNat {x : UInt64} (hx : x.toNat = y + 1) :
    (decompressAmount x).toNat = mantissa y * 10 ^ (y % 10) % 2 ^ 64 := by
  have hlt := x.toNat_lt
  have hne : x ≠ 0 := by
    intro h
    simp [h] at hx
  have hpred : (x - 1).toNat = y := by
    rw [UInt64.toNat_sub_of_le _ _ (by rw [UInt64.le_iff_toNat_le]; simp; omega)]
    simp [hx]
  have he : ((x - 1) % 10).toNat = y % 10 := by simp [hpred]
  have hcond : (x - 1) % 10 < 9 ↔ y % 10 < 9 := by
    rw [UInt64.lt_iff_toNat_lt, he]
    rfl
  simp only [decompressAmount, hne, if_false, appendZeros_toNat, he]
  congr 2
  unfold mantissa
  by_cases h9 : y % 10 < 9
  · simp only [hcond, h9, if_true]
    simp only [UInt64.toNat_add, UInt64.toNat_mul, UInt64.toNat_div, UInt64.toNat_mod, hpred,
      UInt64.toNat_ofNat, Nat.reducePow, Nat.reduceMod]
    omega
  · simp only [hcond, h9, if_false]
    simp only [UInt64.toNat_add, UInt64.toNat_div, hpred, UInt64.toNat_ofNat, Nat.reducePow,
      Nat.reduceMod]
    omega

variable {n : UInt64}

lemma compressAmount_toNat (hn : n ≠ 0) (he : (dropZeros 9 n).2 < 9) :
    (compressAmount n).toNat =
      (((dropZeros 9 n).1.toNat / 10 * 9 + (dropZeros 9 n).1.toNat % 10 - 1) * 10 +
        (dropZeros 9 n).2 + 1) % 2 ^ 64 := by
  obtain ⟨-, -, hlast⟩ := dropZeros_spec 9 n
  specialize hlast he
  have hlt := (dropZeros 9 n).1.toNat_lt
  simp only [compressAmount, hn, he, if_false, if_true]
  generalize (dropZeros 9 n).1 = m at *
  generalize (dropZeros 9 n).2 = e at *
  have hsum : (m / 10 * 9 + m % 10).toNat = m.toNat / 10 * 9 + m.toNat % 10 := by
    simp only [UInt64.toNat_add, UInt64.toNat_mul, UInt64.toNat_div, UInt64.toNat_mod,
      UInt64.toNat_ofNat, Nat.reducePow, Nat.reduceMod]
    omega
  have hpred : (m / 10 * 9 + m % 10 - 1).toNat = m.toNat / 10 * 9 + m.toNat % 10 - 1 := by
    rw [UInt64.toNat_sub_of_le _ _ (by rw [UInt64.le_iff_toNat_le, hsum]; simp; omega), hsum]
    rfl
  simp only [UInt64.toNat_add, UInt64.toNat_mul, hpred, UInt64.toNat_ofNat, UInt64.toNat_ofNat',
    Nat.reducePow, Nat.reduceMod]
  omega

/-! ## Where the functions are inverse -/

/-- A compressed form that fits is decompressed to the amount it came from. -/
lemma decompressAmount_compressAmount_of_fits (hn : n ≠ 0) (he : (dropZeros 9 n).2 < 9)
    (hfits : ((dropZeros 9 n).1.toNat / 10 * 9 + (dropZeros 9 n).1.toNat % 10 - 1) * 10 +
      (dropZeros 9 n).2 + 1 < 2 ^ 64) : decompressAmount (compressAmount n) = n := by
  obtain ⟨hval, -, hlast⟩ := dropZeros_spec 9 n
  specialize hlast he
  have hc := compressAmount_toNat hn he
  rw [Nat.mod_eq_of_lt hfits] at hc
  apply UInt64.toNat_inj.mp
  rw [decompressAmount_toNat hc]
  generalize (dropZeros 9 n).1.toNat = m at *
  generalize (dropZeros 9 n).2 = e at *
  have hexp : ((m / 10 * 9 + m % 10 - 1) * 10 + e) % 10 = e := by omega
  have hmant : mantissa ((m / 10 * 9 + m % 10 - 1) * 10 + e) = m := by
    unfold mantissa
    rw [hexp, if_pos he]
    omega
  rw [hexp, hmant, ← hval, Nat.mod_eq_of_lt n.toNat_lt]

lemma decompressAmount_compressAmount_of_nine (hn : n ≠ 0) (he : (dropZeros 9 n).2 = 9) :
    decompressAmount (compressAmount n) = n := by
  obtain ⟨hval, -, -⟩ := dropZeros_spec 9 n
  have hlt := n.toNat_lt
  have hpos : 0 < n.toNat := Nat.pos_of_ne_zero fun h => hn (UInt64.toNat_inj.mp h)
  rw [he] at hval
  have hc : (compressAmount n).toNat = (10 * (dropZeros 9 n).1.toNat - 1) + 1 := by
    simp only [compressAmount, hn, he, if_false, lt_irrefl]
    generalize (dropZeros 9 n).1 = m at *
    have hpred : (m - 1).toNat = m.toNat - 1 := by
      rw [UInt64.toNat_sub_of_le _ _ (by rw [UInt64.le_iff_toNat_le]; simp; omega)]
      rfl
    simp only [UInt64.toNat_add, UInt64.toNat_mul, hpred, UInt64.toNat_ofNat, Nat.reducePow,
      Nat.reduceMod]
    omega
  apply UInt64.toNat_inj.mp
  rw [decompressAmount_toNat hc]
  generalize (dropZeros 9 n).1.toNat = m at *
  have hexp : (10 * m - 1) % 10 = 9 := by omega
  have hmant : mantissa (10 * m - 1) = m := by
    unfold mantissa
    rw [hexp, if_neg (by decide)]
    omega
  rw [hexp, hmant, ← hval, Nat.mod_eq_of_lt hlt]

lemma dropZeros_of_mod_ne (h : n.toNat % 10 ≠ 0) : dropZeros 9 n = (n, 0) := by
  have hmod : ¬n % 10 = 0 := by
    rw [← UInt64.toNat_inj]
    simpa using h
  simp [dropZeros, hmod]

lemma ne_zero_of_mod_ne (h : n.toNat % 10 ≠ 0) : n ≠ 0 := by
  rintro rfl
  simp at h

lemma decompressAmount_compressAmount_of_dvd (hlt : n.toNat < 2 ^ 63) (h10 : n.toNat % 10 = 0) :
    decompressAmount (compressAmount n) = n := by
  by_cases hn : n = 0
  · subst hn
    rfl
  obtain ⟨hval, hle, hlast⟩ := dropZeros_spec 9 n
  rcases Nat.lt_or_eq_of_le hle with he | he
  · refine decompressAmount_compressAmount_of_fits hn he ?_
    specialize hlast he
    generalize (dropZeros 9 n).1.toNat = m at *
    generalize (dropZeros 9 n).2 = e at *
    cases e with
    | zero => omega
    | succ e =>
      have hm : m * 10 ≤ n.toNat := by
        rw [hval, pow_succ', ← mul_assoc]
        exact Nat.le_mul_of_pos_right _ (by positivity)
      omega
  · exact decompressAmount_compressAmount_of_nine hn he

/-- The largest amount not ending in a zero whose compressed form fits 64 bits. -/
def maxCompressible : Nat := 2049638230412172402

lemma decompressAmount_compressAmount_of_le (h10 : n.toNat % 10 ≠ 0)
    (hle : n.toNat ≤ maxCompressible) : decompressAmount (compressAmount n) = n := by
  have hd := dropZeros_of_mod_ne h10
  unfold maxCompressible at hle
  exact decompressAmount_compressAmount_of_fits (ne_zero_of_mod_ne h10) (by simp [hd])
    (by simp only [hd]; omega)

variable {c u t : Int}

/-- A linear congruence modulo `2 ^ 64` with an invertible coefficient has one solution, so it has
none in a range that misses it. -/
lemma no_solution_in_range (inv u₀ : Int) {a b : Int} (hinv : inv * a % 2 ^ 64 = 1)
    (hu₀ : inv * b % 2 ^ 64 = u₀) (hout : 2 ^ 63 ≤ u₀ + c) (hu : 0 ≤ u) (hlt : u + c < 2 ^ 63) :
    a * u ≠ b + 2 ^ 64 * t := by
  intro h
  have hdiv := Int.emod_add_mul_ediv (inv * a) (2 ^ 64)
  have hdiv' := Int.emod_add_mul_ediv (inv * b) (2 ^ 64)
  rw [hinv] at hdiv
  rw [hu₀] at hdiv'
  obtain ⟨s, hs⟩ : ∃ s, u = u₀ + 2 ^ 64 * s :=
    ⟨inv * b / 2 ^ 64 + inv * t - inv * a / 2 ^ 64 * u,
      by linear_combination inv * h - hdiv' + u * hdiv⟩
  have hnonneg : 0 ≤ u₀ := hu₀ ▸ Int.emod_nonneg _ (by decide)
  have hupper : u₀ < 2 ^ 64 := hu₀ ▸ Int.emod_lt_of_pos _ (by decide)
  omega

/-- For each number of zeros `e` a wrapped form can make the reader append, and each distance `c`
the digits read back can then have from the amount: the inverse of `10 ^ e - 1` modulo `2 ^ 64`, and
the one solution of the equation that reading the amount back would solve. -/
def wrappedForms : List (Nat × Int × Int × Int) :=
  [(4, 2049638230412172403, 13458245626333751279, 13238912402357251181),
   (4, 2049638230412172404, 13458245626333751279, 8250413954981450844),
   (8, 4099276460824344805, 300153063250403071, 10381592513505485595),
   (8, 4099276460824344806, 300153063250403071, 10681745576755888666),
   (2, 6148914691236517206, 12670490878911611211, 14223247114072347878),
   (2, 6148914691236517207, 12670490878911611211, 8446993919274407473),
   (6, 8198552921648689608, 1672254362768354751, 5963108650928922232),
   (6, 8198552921648689609, 1672254362768354751, 7635363013697276983)]

lemma wrappedForms_out_of_range : ∀ row ∈ wrappedForms,
    row.2.2.1 * (10 ^ row.1 - 1) % 2 ^ 64 = 1 ∧
      row.2.2.1 * (row.2.1 - 10 ^ row.1) % 2 ^ 64 = row.2.2.2 ∧
      2 ^ 63 ≤ row.2.2.2 + row.2.1 := by
  decide

variable {e : Nat}

lemma wrapped_ne {inv u₀ : Int} (hrow : (e, c, inv, u₀) ∈ wrappedForms) (hu : 0 ≤ u)
    (hlt : u + c < 2 ^ 63) : 10 ^ e * (u + 1) ≠ u + c + 2 ^ 64 * t := by
  obtain ⟨hinv, hu₀, hout⟩ := wrappedForms_out_of_range _ hrow
  intro h
  refine no_solution_in_range inv u₀ hinv hu₀ hout hu hlt (t := t) ?_
  linear_combination h

/-- What the reader makes of a wrapped form is not the amount at distance `c`. -/
lemma mantissa_mul_ne {n : Nat} (hrow : (e, c) ∈ wrappedForms.map fun row => (row.1, row.2.1))
    (he : y % 10 = e) (he9 : e < 9) (hlt : n < 2 ^ 63)
    (hdist : ((y / 10 / 9 * 10 + y / 10 % 9 : Nat) : Int) + c = n) :
    mantissa y * 10 ^ (y % 10) % 2 ^ 64 ≠ n := by
  obtain ⟨⟨e', c', inv, u₀⟩, hmem, hec⟩ := List.mem_map.mp hrow
  obtain ⟨rfl, rfl⟩ : e' = e ∧ c' = c := by simpa using hec
  intro h
  have hmant : mantissa y = y / 10 / 9 * 10 + y / 10 % 9 + 1 := by
    rw [mantissa, he, if_pos he9, add_assoc]
  rw [hmant, he] at h
  generalize y / 10 / 9 * 10 + y / 10 % 9 = u at *
  have hmod := Nat.mod_add_div ((u + 1) * 10 ^ e') (2 ^ 64)
  rw [h] at hmod
  refine wrapped_ne hmem (Int.natCast_nonneg u) (by omega)
    (t := (((u + 1) * 10 ^ e' / 2 ^ 64 : Nat) : Int)) ?_
  rw [hdist, mul_comm]
  exact_mod_cast hmod.symm

/-- An amount whose compressed form wraps is not read back. -/
lemma decompressAmount_compressAmount_ne (hlt : n.toNat < 2 ^ 63) (h10 : n.toNat % 10 ≠ 0)
    (hgt : maxCompressible < n.toNat) : decompressAmount (compressAmount n) ≠ n := by
  intro heq
  have hd := dropZeros_of_mod_ne h10
  have hc := compressAmount_toNat (ne_zero_of_mod_ne h10) (by simp [hd])
  simp only [hd] at hc
  unfold maxCompressible at hgt
  have hwrap := Nat.mod_add_div ((n.toNat / 10 * 9 + n.toNat % 10 - 1) * 10) (2 ^ 64)
  generalize hy : (n.toNat / 10 * 9 + n.toNat % 10 - 1) * 10 % 2 ^ 64 = y at *
  generalize (n.toNat / 10 * 9 + n.toNat % 10 - 1) * 10 / 2 ^ 64 = k at *
  have hc' : (compressAmount n).toNat = y + 1 := by omega
  have hres := decompressAmount_toNat hc'
  rw [heq] at hres
  -- the compressed form wraps one to four times, which fixes the zeros the reader appends; the
  -- digits before them are off by one of two constants
  have hk : k = 1 ∨ k = 2 ∨ k = 3 ∨ k = 4 := by omega
  obtain ⟨c, hdist⟩ : ∃ c : Int, ((y / 10 / 9 * 10 + y / 10 % 9 : Nat) : Int) + c = n.toNat :=
    ⟨_, add_sub_cancel _ _⟩
  have hform : (y % 10 = 4 ∧ (c = 2049638230412172403 ∨ c = 2049638230412172404)) ∨
      (y % 10 = 8 ∧ (c = 4099276460824344805 ∨ c = 4099276460824344806)) ∨
      (y % 10 = 2 ∧ (c = 6148914691236517206 ∨ c = 6148914691236517207)) ∨
      y % 10 = 6 ∧ (c = 8198552921648689608 ∨ c = 8198552921648689609) := by
    rcases hk with rfl | rfl | rfl | rfl
    · exact .inl (by omega)
    · exact .inr (.inl (by omega))
    · exact .inr (.inr (.inl (by omega)))
    · exact .inr (.inr (.inr (by omega)))
  have hrow : (y % 10, c) ∈ wrappedForms.map fun row => (row.1, row.2.1) := by
    rcases hform with ⟨he, rfl | rfl⟩ | ⟨he, rfl | rfl⟩ | ⟨he, rfl | rfl⟩ | ⟨he, rfl | rfl⟩ <;>
      simp [he, wrappedForms]
  exact mantissa_mul_ne hrow rfl (by omega) hlt hdist hres.symm

/-- An amount in the range of `int64_t` survives compression exactly if it ends in a zero or its
compressed form fits. -/
lemma decompressAmount_compressAmount_iff (hlt : n.toNat < 2 ^ 63) :
    decompressAmount (compressAmount n) = n ↔ n.toNat % 10 = 0 ∨ n.toNat ≤ maxCompressible := by
  by_cases h10 : n.toNat % 10 = 0
  · simp [h10, decompressAmount_compressAmount_of_dvd hlt h10]
  · constructor
    · intro h
      by_contra hno
      exact decompressAmount_compressAmount_ne hlt h10 (by omega) h
    · rintro (h | h)
      · exact absurd h h10
      · exact decompressAmount_compressAmount_of_le h10 h

end Jumpcoin
