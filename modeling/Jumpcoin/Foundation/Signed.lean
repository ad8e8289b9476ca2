import Mathlib.Tactic

/-!
# Signed 64-bit arithmetic

The overflow of a signed word is undefined: an implementation of the arithmetic is exact where the
result is a word, and elsewhere gives any word or none.
-/

namespace Jumpcoin

namespace Signed

def Fits (x : Int) : Prop := -2 ^ 63 ≤ x ∧ x < 2 ^ 63

instance (x : Int) : Decidable (Fits x) := inferInstanceAs (Decidable (_ ∧ _))

variable {a b c : Int64}

lemma toInt_add (h : Fits (a.toInt + b.toInt)) : (a + b).toInt = a.toInt + b.toInt := by
  rw [Int64.toInt_add]
  exact Int.bmod_eq_of_le h.1 h.2

lemma toInt_sub (h : Fits (a.toInt - b.toInt)) : (a - b).toInt = a.toInt - b.toInt := by
  rw [Int64.toInt_sub]
  exact Int.bmod_eq_of_le h.1 h.2

lemma fits_toInt (a : Int64) : Fits a.toInt := ⟨a.le_toInt, a.toInt_lt⟩

lemma fits_sub (ha : 0 ≤ a.toInt) (hb : 0 ≤ b.toInt) : Fits (a.toInt - b.toInt) := by
  have hlta := a.toInt_lt
  have hltb := b.toInt_lt
  constructor <;> omega

/-! ## Overflow that may stop the program -/

/-- Addition and subtraction of an implementation. -/
structure Arithmetic where
  add : Int64 → Int64 → Option Int64
  sub : Int64 → Int64 → Option Int64
  add_exact : ∀ {a b}, Fits (a.toInt + b.toInt) → add a b = some (a + b)
  sub_exact : ∀ {a b}, Fits (a.toInt - b.toInt) → sub a b = some (a - b)

namespace Arithmetic

/-- Two's complement. -/
def wrapping : Arithmetic where
  add a b := some (a + b)
  sub a b := some (a - b)
  add_exact _ := rfl
  sub_exact _ := rfl

/-- An overflow ends the program. -/
def trapping : Arithmetic where
  add a b := if Fits (a.toInt + b.toInt) then some (a + b) else none
  sub a b := if Fits (a.toInt - b.toInt) then some (a - b) else none
  add_exact h := if_pos h
  sub_exact h := if_pos h

end Arithmetic

lemma trapping_add_eq_some (h : Arithmetic.trapping.add a b = some c) :
    Fits (a.toInt + b.toInt) ∧ c = a + b := by
  obtain ⟨hfits, heq⟩ := Option.ite_none_right_eq_some.mp h
  exact ⟨hfits, (Option.some.inj heq).symm⟩

/-! ## Overflow that goes unnoticed -/

/-- An implementation in which the program goes on with some word. -/
structure Words where
  add : Int64 → Int64 → Int64
  sub : Int64 → Int64 → Int64
  add_exact : ∀ {a b}, Fits (a.toInt + b.toInt) → (add a b).toInt = a.toInt + b.toInt
  sub_exact : ∀ {a b}, Fits (a.toInt - b.toInt) → (sub a b).toInt = a.toInt - b.toInt

namespace Words

@[simp]
lemma add_zero_zero (words : Words) : words.add 0 0 = 0 :=
  Int64.toInt_inj.mp (words.add_exact (by decide))

@[simp]
lemma sub_zero_zero (words : Words) : words.sub 0 0 = 0 :=
  Int64.toInt_inj.mp (words.sub_exact (by decide))

def wrapping : Words where
  add a b := a + b
  sub a b := a - b
  add_exact := toInt_add
  sub_exact := toInt_sub

/-- A sum that overflows is taken for nonnegative: what two's complement comes to when a compiler
has dropped the tests whether a sum of nonnegative words is negative. -/
def nonnegative : Words where
  add a b := if Fits (a.toInt + b.toInt) then a + b else Int64.ofInt ((a.toInt + b.toInt) % 2 ^ 63)
  sub a b := a - b
  add_exact h := by rw [if_pos h, toInt_add h]
  sub_exact := toInt_sub

end Words

end Signed

end Jumpcoin
