import Jumpcoin.Script.Interpreter

/-!
# Script numbers

The numbers of the interpreter are little-endian magnitudes whose last byte lends its top bit to the
sign. The magnitude of a minimal encoding fixes its length, so that there is one for each number,
and `getvch` gives it.
-/

namespace Jumpcoin

open Codec List

lemma fromLittleEndian_append (low high : Bytes) : fromLittleEndian (low ++ high) =
    fromLittleEndian low + 256 ^ low.length * fromLittleEndian high := by
  induction low with
  | nil => simp [fromLittleEndian]
  | cons b low ih => simp only [cons_append, fromLittleEndian, ih, length_cons, pow_succ]; ring

lemma fromLittleEndian_lt (vch : Bytes) : fromLittleEndian vch < 256 ^ vch.length := by
  induction vch with
  | nil => simp [fromLittleEndian]
  | cons b vch ih =>
    have hb : b.toNat < 256 := b.toNat_lt
    rw [fromLittleEndian, length_cons, Nat.pow_succ]
    omega

lemma fromLittleEndian_inj {x y : Bytes} (hlength : x.length = y.length)
    (h : fromLittleEndian x = fromLittleEndian y) : x = y := by
  induction x generalizing y with
  | nil => exact (length_eq_zero_iff.mp hlength.symm).symm
  | cons b x ih =>
    cases y with
    | nil => simp at hlength
    | cons c y =>
      have hb : b.toNat < 256 := b.toNat_lt
      have hc : c.toNat < 256 := c.toNat_lt
      simp only [fromLittleEndian] at h
      rw [UInt8.toNat_inj.mp (show b.toNat = c.toNat by omega),
        ih (by simpa using hlength) (by omega)]

lemma littleEndian_succ (k v : Nat) :
    littleEndian (k + 1) v = littleEndian k v ++ [UInt8.ofNat (v / 256 ^ k % 256)] := by
  induction k generalizing v with
  | zero => simp [littleEndian]
  | succ k ih =>
    rw [littleEndian, ih, Nat.div_div_eq_div_mul, ← Nat.pow_succ', littleEndian, cons_append]

namespace CScriptNum

lemma bits (b : UInt8) : (b &&& 0x80 != 0) = decide (128 ≤ b.toNat) ∧
    (b &&& 0x7f != 0) = decide (b.toNat % 128 ≠ 0) ∧
    (b ||| 0x80).toNat = b.toNat % 128 + 128 := by
  have hall : ∀ k < 256, (UInt8.ofNat k &&& 0x80 != 0) = decide (128 ≤ k) ∧
      (UInt8.ofNat k &&& 0x7f != 0) = decide (k % 128 ≠ 0) ∧
      (UInt8.ofNat k ||| 0x80).toNat = k % 128 + 128 := by decide +kernel
  simpa only [UInt8.ofNat_toNat] using hall b.toNat b.toNat_lt

def magnitude (low : Bytes) (b : UInt8) : Nat :=
  fromLittleEndian low + 256 ^ low.length * (b.toNat % 128)

variable (low : Bytes) (b : UInt8)

lemma fromLittleEndian_concat : fromLittleEndian (low ++ [b]) =
    magnitude low b + 256 ^ low.length * if 128 ≤ b.toNat then 128 else 0 := by
  have hb : b.toNat < 256 := b.toNat_lt
  rw [fromLittleEndian_append, magnitude, add_assoc, ← mul_add]
  congr 2
  grind [fromLittleEndian]

lemma setVch_append : setVch (low ++ [b]) =
    if 128 ≤ b.toNat then -(magnitude low b : Int) else magnitude low b := by
  simp only [setVch, getLastD_concat, (bits b).1, decide_eq_true_eq, fromLittleEndian_concat,
    length_append, length_singleton, Nat.add_sub_cancel]
  split_ifs <;> push_cast <;> ring

lemma natAbs_setVch_append : (setVch (low ++ [b])).natAbs = magnitude low b := by
  rw [setVch_append]
  split_ifs <;> omega

lemma isMinimal_append : isMinimal (low ++ [b]) = true ↔
    b.toNat % 128 ≠ 0 ∨ 128 ≤ (low.getLastD 0).toNat := by
  rcases eq_nil_or_concat low with rfl | ⟨low, c, rfl⟩
  · simp [isMinimal, (bits b).2.1]
  · simp [isMinimal, (bits b).2.1, (bits c).1]

lemma magnitude_lt : 2 * magnitude low b < 256 ^ (low.length + 1) := by
  have hlow := fromLittleEndian_lt low
  have hb : 256 ^ low.length * (b.toNat % 128) ≤ 256 ^ low.length * 127 :=
    Nat.mul_le_mul_left _ (by omega)
  rw [magnitude, pow_succ]
  omega

variable {low b}

/-- The shortest encoding leaves no room for another byte. -/
lemma le_magnitude (h : isMinimal (low ++ [b]) = true) :
    256 ^ low.length ≤ 2 * magnitude low b := by
  rw [isMinimal_append] at h
  by_cases hb : b.toNat % 128 = 0
  · rcases eq_nil_or_concat low with rfl | ⟨low, c, rfl⟩
    · simp [hb] at h
    · have hc : 256 ^ low.length * 128 ≤ 256 ^ low.length * c.toNat :=
        Nat.mul_le_mul_left _ (by simpa [hb] using h)
      simp only [magnitude, concat_eq_append, fromLittleEndian_append, fromLittleEndian,
        length_append, length_singleton, pow_succ, mul_zero, add_zero]
      omega
  · have := Nat.le_mul_of_pos_right (256 ^ low.length) (Nat.pos_of_ne_zero hb)
    rw [magnitude]
    omega

lemma natAbs_setVch_lt (vch : Bytes) : 2 * (setVch vch).natAbs < 256 ^ vch.length := by
  rcases eq_nil_or_concat' vch with rfl | ⟨low, b, rfl⟩
  · decide
  · rw [natAbs_setVch_append, length_append, length_singleton]
    exact magnitude_lt low b

lemma length_le_iff {vch : Bytes} (h : isMinimal vch = true) (nMaxNumSize : Nat) :
    vch.length ≤ nMaxNumSize ↔ 2 * (setVch vch).natAbs < 256 ^ nMaxNumSize := by
  constructor
  · intro hle
    exact (natAbs_setVch_lt vch).trans_le (Nat.pow_le_pow_right (by decide) hle)
  · intro hlt
    rcases eq_nil_or_concat' vch with rfl | ⟨low, b, rfl⟩
    · simp
    · rw [natAbs_setVch_append] at hlt
      have := (Nat.pow_lt_pow_iff_right (by decide)).mp ((le_magnitude h).trans_lt hlt)
      simpa using this

/-- A minimal encoding is the only one of its number. -/
lemma eq_of_setVch_eq {x y : Bytes} (hx : isMinimal x = true) (hy : isMinimal y = true)
    (h : setVch x = setVch y) : x = y := by
  have hlength : x.length = y.length := le_antisymm
    ((length_le_iff hx _).mpr (h ▸ (length_le_iff hy _).mp le_rfl))
    ((length_le_iff hy _).mpr (h ▸ (length_le_iff hx _).mp le_rfl))
  refine fromLittleEndian_inj hlength ?_
  rcases eq_nil_or_concat' x with rfl | ⟨low, b, rfl⟩ <;>
    rcases eq_nil_or_concat' y with rfl | ⟨low', c, rfl⟩ <;> simp at hlength ⊢
  have hpos := le_magnitude hx
  rw [setVch_append, setVch_append] at h
  rw [fromLittleEndian_concat, fromLittleEndian_concat, ← hlength]
  split_ifs at h ⊢ <;> omega

lemma littleEndian_top {a : Nat} (h : a ≠ 0) : ∃ low t,
    littleEndian (a.log2 / 8 + 1) a = low ++ [t] ∧ t.toNat ≠ 0 ∧
      fromLittleEndian low + 256 ^ low.length * t.toNat = a := by
  have hpow : 256 ^ (a.log2 / 8) = 2 ^ (8 * (a.log2 / 8)) := by rw [Nat.pow_mul]
  have hle : 256 ^ (a.log2 / 8) ≤ a := by
    rw [hpow]
    exact (Nat.pow_le_pow_right (by decide) (by omega)).trans (Nat.log2_self_le h)
  have hlt : a < 256 ^ (a.log2 / 8) * 256 := by
    rw [hpow, show 256 = 2 ^ 8 from rfl, ← Nat.pow_add]
    exact (Nat.log2_lt h).mp (by omega)
  refine ⟨_, _, littleEndian_succ _ a, ?_⟩
  rw [UInt8.toNat_ofNat', length_littleEndian, fromLittleEndian_littleEndian, Nat.mod_mod,
    Nat.mod_eq_of_lt (Nat.div_lt_of_lt_mul hlt), Nat.mod_add_div]
  exact ⟨(Nat.div_pos hle (by positivity)).ne', rfl⟩

/-- What is written is minimal and reads as the number. -/
lemma getvch_spec (value : Int) :
    setVch (getvch value) = value ∧ isMinimal (getvch value) = true := by
  by_cases hzero : value = 0
  · subst hzero; exact ⟨rfl, rfl⟩
  obtain ⟨low, t, hlow, htop, ha⟩ := littleEndian_top (show value.natAbs ≠ 0 by omega)
  have hbits := bits t
  simp only [getvch, if_neg hzero, hlow, getLastD_concat, dropLast_concat, hbits.1,
    decide_eq_true_eq]
  -- a magnitude that fills its last byte gets one more for the sign
  split_ifs with hback hneg <;> rw [setVch_append, isMinimal_append] <;>
    simp only [magnitude, fromLittleEndian_append, fromLittleEndian, getLastD_concat,
      hbits.2.2] <;> grind

lemma length_getvch_le_iff (value : Int) (nMaxNumSize : Nat) :
    (getvch value).length ≤ nMaxNumSize ↔ 2 * value.natAbs < 256 ^ nMaxNumSize := by
  obtain ⟨hvalue, hminimal⟩ := getvch_spec value
  rw [length_le_iff hminimal, hvalue]

lemma ofVch_minimal_eq_some_iff {vch : Bytes} {nMaxNumSize : Nat} {n : Int} :
    ofVch vch true nMaxNumSize = some n ↔
      vch = getvch n ∧ (getvch n).length ≤ nMaxNumSize := by
  obtain ⟨hvalue, hminimal⟩ := getvch_spec n
  have hunfold : ofVch vch true nMaxNumSize = some n ↔
      vch.length ≤ nMaxNumSize ∧ isMinimal vch = true ∧ setVch vch = n := by
    grind [ofVch]
  rw [hunfold]
  constructor
  · rintro ⟨hlength, hvch, hn⟩
    obtain rfl := eq_of_setVch_eq hvch hminimal (hn.trans hvalue.symm)
    exact ⟨rfl, hlength⟩
  · rintro ⟨rfl, hlength⟩
    exact ⟨hlength, hminimal, hvalue⟩

/-- Script numbers are written and read back, and the minimal byte strings of up to eight bytes are
those written for the numbers that leave one bit of the bytes to the sign. -/
theorem ofVch_getvch :
    (∀ n : Int, n.natAbs < 2 ^ 63 → (getvch n).length ≤ 8 ∧
      ∀ nMaxNumSize, (getvch n).length ≤ nMaxNumSize →
        ofVch (getvch n) true nMaxNumSize = some n) ∧
    ∀ nMaxNumSize ≤ 8, ∀ vch n, ofVch vch true nMaxNumSize = some n ↔
      vch = getvch n ∧ 2 * n.natAbs < 256 ^ nMaxNumSize := by
  constructor
  · intro n hn
    refine ⟨(length_getvch_le_iff n 8).mpr (by omega), fun nMaxNumSize hlength => ?_⟩
    exact ofVch_minimal_eq_some_iff.mpr ⟨rfl, hlength⟩
  · intro nMaxNumSize _ vch n
    rw [ofVch_minimal_eq_some_iff, length_getvch_le_iff]

end CScriptNum

end Jumpcoin
