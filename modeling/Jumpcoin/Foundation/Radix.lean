import Mathlib.Data.Nat.Digits.Lemmas
import Mathlib.Tactic.Ring

/-!
# Changing the radix

Numbers as lists of digits, the most significant digit first, as texts are written. `mulAdd` is the
step of a conversion in place, over digits with the least significant one first: multiply by the old
base and add a digit. Leading zeros aside, a number has one representation in each base, so
whatever a conversion computes is determined by its value.
-/

namespace Radix

/-! ## Values -/

def value (b : Nat) (l : List Nat) : Nat :=
  Nat.ofDigits b l.reverse

variable {b : Nat} {l : List Nat}

@[simp] lemma value_nil : value b [] = 0 := rfl

lemma value_concat (l : List Nat) (d : Nat) : value b (l ++ [d]) = value b l * b + d := by
  simp only [value, List.reverse_append, List.reverse_singleton, List.singleton_append,
    Nat.ofDigits_cons]
  ring

lemma value_cons (d : Nat) (l : List Nat) : value b (d :: l) = d * b ^ l.length + value b l := by
  simp only [value, List.reverse_cons, Nat.ofDigits_append, Nat.ofDigits_singleton,
    List.length_reverse]
  ring

@[simp] lemma value_zero_cons (l : List Nat) : value b (0 :: l) = value b l := by
  simp [value, Nat.ofDigits_append]

lemma value_lt (hb : 1 < b) (hl : ∀ d ∈ l, d < b) : value b l < b ^ l.length := by
  have h := Nat.ofDigits_lt_base_pow_length hb (l := l.reverse) (by simpa using hl)
  simpa [value] using h

lemma eq_of_value_eq (hb : 1 < b) {l l' : List Nat} (hlen : l.length = l'.length)
    (hl : ∀ d ∈ l, d < b) (hl' : ∀ d ∈ l', d < b) (h : value b l = value b l') : l = l' := by
  have hrev : l.reverse = l'.reverse :=
    Nat.ofDigits_inj_of_len_eq hb (by simpa using hlen) (by simpa using hl) (by simpa using hl') h
  exact List.reverse_inj.mp hrev

/-! ## Leading zeros -/

def trim (l : List Nat) : List Nat :=
  l.dropWhile (· = 0)

lemma trim_eq_digits (hb : 1 < b) (hl : ∀ d ∈ l, d < b) :
    trim l = (Nat.digits b (value b l)).reverse := by
  induction l with
  | nil => simp [trim]
  | cons d l ih =>
    have hl' : ∀ d' ∈ l, d' < b := fun d' hd' => hl d' (List.mem_cons_of_mem _ hd')
    by_cases hd : d = 0
    · subst hd
      rw [value_zero_cons, ← ih hl']
      simp [trim]
    · have hdigits : Nat.digits b (value b (d :: l)) = (d :: l).reverse :=
        Nat.digits_ofDigits b hb _ (fun d' hd' => hl d' (List.mem_reverse.mp hd')) (by simp [hd])
      rw [hdigits, List.reverse_reverse]
      simp [trim, hd]

lemma trim_append_of_zeros (h : ∀ d ∈ l, d = 0) (l' : List Nat) : trim (l ++ l') = trim l' := by
  simp only [trim]
  rw [List.dropWhile_append_of_pos fun d hd => by simpa using h d hd]

lemma trim_of_head {d : Nat} (hd : d ≠ 0) : trim (d :: l) = d :: l := by
  simp [trim, hd]

/-! ## Multiplication in place -/

/-- Multiply digits in base `b` by `m` and add `carry`: the digits, least significant first, and
what does not fit into them. -/
def mulAdd (b m : Nat) : Nat → List Nat → List Nat × Nat
  | carry, [] => ([], carry)
  | carry, d :: ds =>
    let rest := mulAdd b m ((carry + m * d) / b) ds
    ((carry + m * d) % b :: rest.1, rest.2)

variable {m : Nat} {ds : List Nat}

lemma length_mulAdd (carry : Nat) (ds : List Nat) : (mulAdd b m carry ds).1.length = ds.length := by
  induction ds generalizing carry with
  | nil => rfl
  | cons d ds ih => simp [mulAdd, ih]

lemma mulAdd_lt (hb : 0 < b) (carry : Nat) (ds : List Nat) :
    ∀ d ∈ (mulAdd b m carry ds).1, d < b := by
  induction ds generalizing carry with
  | nil => simp [mulAdd]
  | cons d ds ih =>
    intro d' hd'
    rcases List.mem_cons.mp hd' with rfl | hd'
    · exact Nat.mod_lt _ hb
    · exact ih _ d' hd'

lemma ofDigits_mulAdd (carry : Nat) (ds : List Nat) :
    Nat.ofDigits b (mulAdd b m carry ds).1 + b ^ ds.length * (mulAdd b m carry ds).2 =
      carry + m * Nat.ofDigits b ds := by
  induction ds generalizing carry with
  | nil => simp [mulAdd]
  | cons d ds ih =>
    have hrest := ih ((carry + m * d) / b)
    have hdiv := Nat.mod_add_div (carry + m * d) b
    calc (carry + m * d) % b + b * Nat.ofDigits b (mulAdd b m ((carry + m * d) / b) ds).1 +
          b ^ ds.length * b * (mulAdd b m ((carry + m * d) / b) ds).2
        = (carry + m * d) % b + b * (Nat.ofDigits b (mulAdd b m ((carry + m * d) / b) ds).1 +
          b ^ ds.length * (mulAdd b m ((carry + m * d) / b) ds).2) := by ring
      _ = (carry + m * d) % b + b * ((carry + m * d) / b) + m * (b * Nat.ofDigits b ds) := by
        rw [hrest]
        ring
      _ = carry + m * (d + b * Nat.ofDigits b ds) := by
        rw [hdiv]
        ring

lemma mulAdd_of_zeros (h : ∀ d ∈ ds, d = 0) : mulAdd b m 0 ds = (ds, 0) := by
  induction ds with
  | nil => rfl
  | cons d ds ih =>
    obtain rfl : d = 0 := h d List.mem_cons_self
    have hrest := ih fun d' hd' => h d' (List.mem_cons_of_mem _ hd')
    simp [mulAdd, hrest]

/-- Nothing is carried out if the result has room. -/
lemma mulAdd_carry {carry : Nat}
    (h : carry + m * Nat.ofDigits b ds < b ^ ds.length) : (mulAdd b m carry ds).2 = 0 := by
  by_contra hne
  have hvalue := ofDigits_mulAdd (b := b) (m := m) carry ds
  have hle : b ^ ds.length ≤ b ^ ds.length * (mulAdd b m carry ds).2 :=
    Nat.le_mul_of_pos_right _ (Nat.pos_of_ne_zero hne)
  omega

/-- One digit of a conversion: what has room in the end is not carried out on the way. -/
lemma mulAdd_horner (hm : 0 < m) {carry n rest : Nat}
    (hroom : Nat.ofDigits b ds * m ^ (n + 1) + (carry * m ^ n + rest) < b ^ ds.length) :
    (mulAdd b m carry ds).2 = 0 ∧
      Nat.ofDigits b (mulAdd b m carry ds).1 * m ^ n + rest =
        Nat.ofDigits b ds * m ^ (n + 1) + (carry * m ^ n + rest) := by
  have hstep : Nat.ofDigits b ds * m ^ (n + 1) + (carry * m ^ n + rest) =
      (carry + m * Nat.ofDigits b ds) * m ^ n + rest := by ring
  have hfits : carry + m * Nat.ofDigits b ds < b ^ ds.length :=
    calc carry + m * Nat.ofDigits b ds ≤ (carry + m * Nat.ofDigits b ds) * m ^ n :=
          Nat.le_mul_of_pos_right _ (Nat.pow_pos hm)
      _ ≤ (carry + m * Nat.ofDigits b ds) * m ^ n + rest := Nat.le_add_right _ _
      _ < b ^ ds.length := hstep ▸ hroom
  have hnone := mulAdd_carry hfits
  have hvalue := ofDigits_mulAdd (b := b) (m := m) carry ds
  rw [hnone, Nat.mul_zero, Nat.add_zero] at hvalue
  exact ⟨hnone, by rw [hvalue, hstep]⟩

/-! ## Room -/

/-- If `q` digits of base `c` have room for `p` digits of base `b`, then `n * q / p + 1` have room
for `n`. -/
lemma pow_le_pow_div {b c p q : Nat} (hp : 0 < p) (hc : 0 < c) (h : b ^ p ≤ c ^ q) (n : Nat) :
    b ^ n ≤ c ^ (n * q / p + 1) := by
  have hexp : n * q ≤ p * (n * q / p + 1) := by
    have hdiv := Nat.lt_mul_div_succ (n * q) hp
    omega
  have hpow : (b ^ n) ^ p ≤ (c ^ (n * q / p + 1)) ^ p :=
    calc (b ^ n) ^ p = (b ^ p) ^ n := by rw [← pow_mul, ← pow_mul, Nat.mul_comm]
      _ ≤ (c ^ q) ^ n := Nat.pow_le_pow_left h n
      _ = c ^ (n * q) := by rw [← pow_mul, Nat.mul_comm]
      _ ≤ c ^ (p * (n * q / p + 1)) := Nat.pow_le_pow_right hc hexp
      _ = (c ^ (n * q / p + 1)) ^ p := by rw [Nat.mul_comm, pow_mul]
  exact (Nat.pow_le_pow_iff_left (by omega)).mp hpow

end Radix
