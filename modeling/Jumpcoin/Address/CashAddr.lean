import Jumpcoin.Address.Base58
import Jumpcoin.Address.ConvertBits
import Mathlib.Data.Nat.Bitwise

/-!
# CashAddr

`cashaddr.cpp`: groups of five bits as texts with a name in front and a checksum of eight groups.

The checksum is linear in exclusive or, and eight groups appended to nothing are their own checksum.
So the groups that `CreateChecksum` finds for eight zeros turn the checksum of the whole into one.
-/

namespace Jumpcoin

open Codec Radix ConvertBits List Nat

namespace CashAddr

def CHARSET : Bytes := ascii "qpzry9x8gf2tvdw0s3jn54khce6mua7l"

def CHARSET_REV : List Int := [
  -1, -1, -1, -1, -1, -1, -1, -1, -1, -1, -1, -1, -1, -1, -1, -1, -1, -1, -1, -1, -1, -1,
  -1, -1, -1, -1, -1, -1, -1, -1, -1, -1, -1, -1, -1, -1, -1, -1, -1, -1, -1, -1, -1, -1, -1, -1,
  -1, -1, 15, -1, 10, 17, 21, 20, 26, 30, 7, 5, -1, -1, -1, -1, -1, -1, -1, 29, -1, 24, 13, 25, 9,
  8, 23, -1, 18, 22, 31, 27, 19, -1, 1, 0, 3, 16, 11, 28, 12, 14, 6, 4, 2, -1, -1, -1, -1, -1, -1,
  29, -1, 24, 13, 25, 9, 8, 23, -1, 18, 22, 31, 27, 19, -1, 1, 0, 3, 16, 11, 28, 12, 14, 6, 4, 2,
  -1, -1, -1, -1, -1]

/-! ## Checksums -/

def addIf (c0 mask k c : Nat) : Nat :=
  if c0 &&& mask ≠ 0 then c ^^^ k else c

/-- The body of the loop of `PolyMod`; `c` stays below `2 ^ 40`. -/
def polyModStep (c d : Nat) : Nat :=
  let c0 := c >>> 35
  let c := ((c &&& 0x07ffffffff) <<< 5) ^^^ d
  let c := addIf c0 0x01 0x98f2bc8e61 c
  let c := addIf c0 0x02 0x79b76d99e2 c
  let c := addIf c0 0x04 0xf33e5fb3c4 c
  let c := addIf c0 0x08 0xae2eabe2a8 c
  addIf c0 0x10 0x1e4f43e470 c

def polyMod (v : Bytes) : Nat :=
  (v.map UInt8.toNat).foldl polyModStep 1

def lowerCase (c : UInt8) : UInt8 := c ||| 0x20

def expandPrefix (pre : Bytes) : Bytes :=
  pre.map (· &&& 0x1f) ++ [0]

def verifyChecksum (pre values : Bytes) : Bool :=
  polyMod (expandPrefix pre ++ values) == 1

def createChecksum (pre values : Bytes) : Bytes :=
  let mod := polyMod (expandPrefix pre ++ values ++ List.replicate 8 0) ^^^ 1
  (List.range 8).map fun i => UInt8.ofNat ((mod >>> (5 * (7 - i))) &&& 0x1f)

/-! ## Texts -/

def encode (pre values : Bytes) : Bytes :=
  pre ++ 0x3a :: (values ++ createChecksum pre values).map fun c => CHARSET.getD c.toNat 0

structure Scan where
  lower : Bool := false
  upper : Bool := false
  hasNumber : Bool := false
  prefixSize : Nat := 0

def scan : Bytes → Nat → Scan → Option Scan
  | [], _, s => some s
  | c :: rest, i, s =>
    if 0x61 ≤ c ∧ c ≤ 0x7a then scan rest (i + 1) { s with lower := true }
    else if 0x41 ≤ c ∧ c ≤ 0x5a then scan rest (i + 1) { s with upper := true }
    else if 0x30 ≤ c ∧ c ≤ 0x39 then scan rest (i + 1) { s with hasNumber := true }
    else if c = 0x3a then
      if s.hasNumber ∨ i = 0 ∨ s.prefixSize ≠ 0 then none
      else scan rest (i + 1) { s with prefixSize := i }
    else none

def decodeValues : Bytes → Option Bytes
  | [] => some []
  | c :: rest =>
    if 127 < c ∨ CHARSET_REV.getD c.toNat (-1) = -1 then none
    else (decodeValues rest).map (UInt8.ofInt (CHARSET_REV.getD c.toNat (-1)) :: ·)

/-- Decode a cashaddr string; the pair is empty if there is something wrong with it. With a good
checksum of less than eight values the end of the data is out of bounds. -/
def decode (str defaultPrefix : Bytes) : Outcome (Bytes × Bytes) :=
  match scan str 0 { } with
  | none => .returned ([], [])
  | some s =>
    if s.upper && s.lower then .returned ([], [])
    else
      let pre := if s.prefixSize = 0 then defaultPrefix else (str.take s.prefixSize).map lowerCase
      let prefixSize := if s.prefixSize = 0 then 0 else s.prefixSize + 1
      match decodeValues (str.drop prefixSize) with
      | none => .returned ([], [])
      | some values =>
        if !verifyChecksum pre values then .returned ([], [])
        else if values.length < 8 then .halted
        else .returned (pre, values.take (values.length - 8))

/-! ## The checksum is linear -/

variable {c i : Nat}

lemma and_two_pow_ne_zero : c &&& 2 ^ i ≠ 0 ↔ c.testBit i = true := by
  rw [and_two_pow]
  cases c.testBit i <;> simp

variable {mask : Nat}

lemma addIf_xor (hmask : mask = 2 ^ i) (k a b x y : Nat) :
    addIf (a ^^^ b) mask k (x ^^^ y) = addIf a mask k x ^^^ addIf b mask k y := by
  subst hmask
  simp only [addIf, and_two_pow_ne_zero, testBit_xor]
  apply eq_of_testBit_eq
  intro j
  cases a.testBit i <;> cases b.testBit i <;> simp [testBit_xor] <;> grind

lemma polyModStep_xor (c c' d d' : Nat) :
    polyModStep (c ^^^ c') (d ^^^ d') = polyModStep c d ^^^ polyModStep c' d' := by
  have hshift : (((c ^^^ c') &&& 0x07ffffffff) <<< 5) ^^^ (d ^^^ d') =
      (((c &&& 0x07ffffffff) <<< 5) ^^^ d) ^^^ (((c' &&& 0x07ffffffff) <<< 5) ^^^ d') := by
    rw [and_xor_distrib_right, shiftLeft_xor_distrib]
    ac_rfl
  simp only [polyModStep, hshift, shiftRight_xor_distrib]
  rw [addIf_xor (show 0x01 = 2 ^ 0 from rfl), addIf_xor (show 0x02 = 2 ^ 1 from rfl),
    addIf_xor (show 0x04 = 2 ^ 2 from rfl), addIf_xor (show 0x08 = 2 ^ 3 from rfl),
    addIf_xor (show 0x10 = 2 ^ 4 from rfl)]

variable {ds : List Nat}

/-- Exclusive or with the last values is exclusive or with what they are worth alone. -/
lemma foldl_polyModStep_xor {ds' : List Nat} (hlen : ds.length = ds'.length) (c c' : Nat) :
    (List.zipWith (· ^^^ ·) ds ds').foldl polyModStep (c ^^^ c') =
      ds.foldl polyModStep c ^^^ ds'.foldl polyModStep c' := by
  induction ds generalizing ds' c c' with
  | nil =>
    obtain rfl := eq_nil_of_length_eq_zero hlen.symm
    rfl
  | cons d ds ih =>
    obtain _ | ⟨d', ds'⟩ := ds'
    · exact absurd hlen (by simp)
    · simp only [zipWith_cons_cons, foldl_cons, polyModStep_xor]
      exact ih (by simpa using hlen) _ _

lemma zipWith_xor_zeros (ds : List Nat) :
    List.zipWith (· ^^^ ·) (List.replicate ds.length 0) ds = ds := by
  induction ds with
  | nil => rfl
  | cons d ds ih => simp [replicate_succ, ih]

lemma addIf_lt {c0 k n : Nat} (hk : k < 2 ^ n) (hc : c < 2 ^ n) : addIf c0 mask k c < 2 ^ n := by
  unfold addIf
  split_ifs
  · exact xor_lt_two_pow hc hk
  · exact hc

variable {d : Nat}

lemma polyModStep_lt (hd : d < 2 ^ 40) : polyModStep c d < 2 ^ 40 := by
  have hlow : (c &&& 0x07ffffffff) <<< 5 < 2 ^ 40 := by
    have hmask : c &&& 0x07ffffffff < 2 ^ 35 := and_lt_two_pow c (by decide)
    omega
  have hstart := xor_lt_two_pow hlow hd
  exact addIf_lt (by decide) (addIf_lt (by decide) (addIf_lt (by decide)
    (addIf_lt (by decide) (addIf_lt (by decide) hstart))))

/-- As long as nothing leaves the forty bits, the values are only lined up. -/
lemma polyModStep_shift (hc : c < 2 ^ 35) (hd : d < 32) : polyModStep c d = c * 32 + d := by
  have hzero : c >>> 35 = 0 := by
    rw [shiftRight_eq_div_pow, div_eq_of_lt hc]
  have hlow : c &&& 0x07ffffffff = c := by
    rw [show 0x07ffffffff = 2 ^ 35 - 1 by rfl, and_two_pow_sub_one_eq_mod, mod_eq_of_lt hc]
  have hline : (c <<< 5) ^^^ d = 2 ^ 5 * c + d := by
    apply eq_of_testBit_eq
    intro j
    rw [testBit_xor, testBit_shiftLeft, testBit_two_pow_mul_add c hd]
    split_ifs with hj
    · simp [not_le.mpr hj]
    · have hpow : 2 ^ 5 ≤ 2 ^ j := Nat.pow_le_pow_right Nat.two_pos (Nat.not_lt.mp hj)
      simp [testBit_lt_two_pow (hd.trans_le hpow), not_lt.mp hj]
  simp [polyModStep, addIf, hzero, hlow, hline, mul_comm]

lemma foldl_polyModStep_shift (hds : ∀ d ∈ ds, d < 32) (hc : (c + 1) * 32 ^ ds.length ≤ 2 ^ 40) :
    ds.foldl polyModStep c = c * 32 ^ ds.length + value 32 ds := by
  induction ds generalizing c with
  | nil => simp
  | cons d ds ih =>
    have hd := hds d mem_cons_self
    rw [length_cons, pow_succ] at hc
    have hpos : 0 < 32 ^ ds.length := Nat.pow_pos (by decide)
    have hc35 : c < 2 ^ 35 := by
      have : (c + 1) * 32 ≤ (c + 1) * (32 ^ ds.length * 32) :=
        Nat.mul_le_mul_left _ (Nat.le_mul_of_pos_left _ hpos)
      omega
    have hroom : (c * 32 + d + 1) * 32 ^ ds.length ≤ 2 ^ 40 :=
      calc (c * 32 + d + 1) * 32 ^ ds.length ≤ ((c + 1) * 32) * 32 ^ ds.length :=
            Nat.mul_le_mul_right _ (by omega)
        _ = (c + 1) * (32 ^ ds.length * 32) := by ring
        _ ≤ 2 ^ 40 := hc
    rw [foldl_cons, polyModStep_shift hc35 hd,
      ih (fun d' hd' => hds d' (mem_cons_of_mem _ hd')) hroom, value_cons, length_cons]
    ring

/-- The eight groups of a number of forty bits. -/
lemma value_groups {mod : Nat} (h : mod < 2 ^ 40) :
    value 32 ((List.range 8).map fun i => (mod >>> (5 * (7 - i))) &&& 0x1f) = mod := by
  have hmask : ∀ n, n &&& 0x1f = n % 32 := fun n => and_two_pow_sub_one_eq_mod n 5
  simp only [hmask, shiftRight_eq_div_pow, value, List.range, List.range.loop, map_cons,
    map_nil, reverse_cons, reverse_nil, nil_append, cons_append,
    ofDigits_cons, ofDigits_nil]
  omega

lemma toNat_fiveBits (n : Nat) :
    n &&& 0x1f < 32 ∧ (UInt8.ofNat (n &&& 0x1f)).toNat = n &&& 0x1f := by
  have hlt : n &&& 0x1f < 2 ^ 5 := and_lt_two_pow n (by decide)
  exact ⟨hlt, UInt8.toNat_ofNat_of_lt' (hlt.trans (by decide))⟩

variable {check : Bytes}

/-- Up to eight groups at the end make a good checksum just if they stand for one number. -/
lemma verifyChecksum_append_iff (hcheck : Groups 5 check) (hlength : check.length ≤ 8)
    (pre values : Bytes) :
    verifyChecksum pre (values ++ check) = true ↔ groupsValue 5 check =
      polyMod (expandPrefix pre ++ values ++ List.replicate check.length 0) ^^^ 1 := by
  set start := ((expandPrefix pre ++ values).map UInt8.toNat).foldl polyModStep 1 with hstart
  have hrest : polyMod (expandPrefix pre ++ values ++ List.replicate check.length 0) =
      (List.replicate check.length 0).foldl polyModStep start := by
    rw [polyMod, map_append, foldl_append, map_replicate]
    rfl
  have hfive : ∀ d ∈ check.map UInt8.toNat, d < 32 := by simpa [Groups] using hcheck
  have halone : (check.map UInt8.toNat).foldl polyModStep 0 = groupsValue 5 check := by
    have hroom : (0 + 1) * 32 ^ (check.map UInt8.toNat).length ≤ 2 ^ 40 := by
      rw [length_map, zero_add, one_mul]
      exact Nat.pow_le_pow_right (by decide) hlength
    rw [foldl_polyModStep_shift hfive hroom, zero_mul, zero_add]
    rfl
  have hxor : (check.map UInt8.toNat).foldl polyModStep start =
      (List.replicate check.length 0).foldl polyModStep start ^^^ groupsValue 5 check := by
    have hzip : List.zipWith (· ^^^ ·) (List.replicate check.length 0) (check.map UInt8.toNat) =
        check.map UInt8.toNat := by
      rw [← length_map UInt8.toNat]
      exact zipWith_xor_zeros _
    have hsame : (List.replicate check.length 0).length = (check.map UInt8.toNat).length := by simp
    have h := foldl_polyModStep_xor hsame start 0
    rwa [hzip, xor_zero, halone] at h
  rw [verifyChecksum, beq_iff_eq, ← append_assoc, polyMod, map_append, foldl_append,
    ← hstart, hxor, ← hrest]
  constructor
  · intro h
    rw [← h, ← Nat.xor_assoc, Nat.xor_self, Nat.zero_xor]
  · intro h
    rw [h, ← Nat.xor_assoc, Nat.xor_self, Nat.zero_xor]

lemma createChecksum_groups (pre values : Bytes) : Groups 5 (createChecksum pre values) := by
  intro byte hbyte
  obtain ⟨i, -, rfl⟩ := mem_map.mp hbyte
  obtain ⟨hlt, hnat⟩ := toNat_fiveBits
    ((polyMod (expandPrefix pre ++ values ++ List.replicate 8 0) ^^^ 1) >>> (5 * (7 - i)))
  rw [hnat]
  exact hlt

@[simp] lemma length_createChecksum (pre values : Bytes) :
    (createChecksum pre values).length = 8 := by
  simp [createChecksum]

lemma groupsValue_createChecksum (pre values : Bytes) :
    groupsValue 5 (createChecksum pre values) =
      polyMod (expandPrefix pre ++ values ++ List.replicate 8 0) ^^^ 1 := by
  set rest := polyMod (expandPrefix pre ++ values ++ List.replicate 8 0) with hrest
  have hlt : rest ^^^ 1 < 2 ^ 40 := by
    rw [hrest, polyMod, map_append, foldl_append, map_replicate]
    exact xor_lt_two_pow (polyModStep_lt (by decide)) (by decide)
  have hgroups : (createChecksum pre values).map UInt8.toNat =
      (List.range 8).map fun i => ((rest ^^^ 1) >>> (5 * (7 - i))) &&& 0x1f := by
    rw [createChecksum, ← hrest, map_map]
    exact map_congr_left fun i _ => (toNat_fiveBits _).2
  rw [groupsValue, hgroups]
  exact value_groups hlt

lemma verifyChecksum_createChecksum (pre values : Bytes) :
    verifyChecksum pre (values ++ createChecksum pre values) = true :=
  (verifyChecksum_append_iff (createChecksum_groups pre values) (by simp) pre values).mpr
    (by rw [length_createChecksum, groupsValue_createChecksum])

variable {values pre : Bytes}

/-- The eight groups of a good checksum are determined. -/
lemma eq_createChecksum (hcheck : Groups 5 check) (hlength : check.length = 8)
    (h : verifyChecksum pre (values ++ check) = true) : check = createChecksum pre values := by
  have hvalue := (verifyChecksum_append_iff hcheck hlength.le pre values).mp h
  rw [hlength, ← groupsValue_createChecksum] at hvalue
  exact eq_of_groupsValue_eq (by decide) (by simp [hlength]) hcheck
    (createChecksum_groups pre values) hvalue

/-! ## Reading texts -/

def isLower (c : UInt8) : Bool := decide (0x61 ≤ c) && decide (c ≤ 0x7a)
def isUpper (c : UInt8) : Bool := decide (0x41 ≤ c) && decide (c ≤ 0x5a)
def isNumber (c : UInt8) : Bool := decide (0x30 ≤ c) && decide (c ≤ 0x39)

variable {l : Bytes}

/-- Letters and numbers are passed; what they are is noted. -/
lemma scan_alphanumeric (h : ∀ c ∈ l, isLower c || isUpper c || isNumber c) (rest : Bytes)
    (i : Nat) (s : Scan) :
    ∃ s', scan (l ++ rest) i s = scan rest (i + l.length) s' ∧ s'.prefixSize = s.prefixSize ∧
      ((∀ c ∈ l, isUpper c = false) → s'.upper = s.upper) ∧
      ((∀ c ∈ l, isNumber c = false) → s'.hasNumber = s.hasNumber) := by
  induction l generalizing i s with
  | nil => exact ⟨s, rfl, rfl, fun _ => rfl, fun _ => rfl⟩
  | cons c l ih =>
    have hnext : i + (c :: l).length = i + 1 + l.length := by simp only [length_cons]; omega
    have ih := ih fun c' hc' => h c' (mem_cons_of_mem _ hc')
    have hc := h c mem_cons_self
    rw [hnext]
    simp only [isLower, isUpper, isNumber, Bool.or_eq_true, Bool.and_eq_true, decide_eq_true_eq,
      Bool.and_eq_false_iff, decide_eq_false_iff_not, forall_mem_cons] at hc ih ⊢
    by_cases hlower : 0x61 ≤ c ∧ c ≤ 0x7a
    · obtain ⟨s', hs, hsize, hupper, hnumber⟩ := ih (i + 1) { s with lower := true }
      exact ⟨s', by simpa [scan, hlower] using hs, hsize, fun h => hupper h.2,
        fun h => hnumber h.2⟩
    by_cases hcapital : 0x41 ≤ c ∧ c ≤ 0x5a
    · obtain ⟨s', hs, hsize, -, hnumber⟩ := ih (i + 1) { s with upper := true }
      exact ⟨s', by simpa [scan, hlower, hcapital] using hs, hsize, fun h => by tauto,
        fun h => hnumber h.2⟩
    · obtain ⟨s', hs, hsize, hupper, -⟩ := ih (i + 1) { s with hasNumber := true }
      have hdigit : 0x30 ≤ c ∧ c ≤ 0x39 := by tauto
      exact ⟨s', by simpa [scan, hlower, hcapital, hdigit] using hs, hsize, fun h => hupper h.2,
        fun h => by tauto⟩

lemma isLower_facts {c : UInt8} (h : isLower c = true) :
    isUpper c = false ∧ isNumber c = false ∧ lowerCase c = c := by
  have hall : ∀ n : Fin 256, isLower (UInt8.ofFin n) = true → isUpper (UInt8.ofFin n) = false ∧
      isNumber (UInt8.ofFin n) = false ∧ lowerCase (UInt8.ofFin n) = UInt8.ofFin n := by
    decide +kernel
  exact hall c.toFin h

lemma CHARSET_group : ∀ d < 32, CHARSET.getD d 0 ≤ 127 ∧
    CHARSET_REV.getD (CHARSET.getD d 0).toNat (-1) = d ∧
    (isLower (CHARSET.getD d 0) || isUpper (CHARSET.getD d 0) || isNumber (CHARSET.getD d 0)) ∧
    isUpper (CHARSET.getD d 0) = false := by
  decide

lemma decodeValues_eq (h : Groups 5 values) :
    decodeValues (values.map fun c => CHARSET.getD c.toNat 0) = some values := by
  induction values with
  | nil => rfl
  | cons c values ih =>
    obtain ⟨hsmall, hrev, -⟩ := CHARSET_group c.toNat (h c mem_cons_self)
    have hc : UInt8.ofInt (c.toNat : Int) = c := by
      have hmod : ((c.toNat : Int) % 2 ^ 8).toNat = c.toNat := by
        have hlt := c.toNat_lt
        omega
      rw [UInt8.ofInt, hmod, UInt8.ofNat_toNat]
    simp only [map_cons, decodeValues, hrev, ih fun c' hc' => h c' (mem_cons_of_mem _ hc'),
      Option.map_some, hc]
    rw [if_neg]
    rintro (hbig | hminus)
    · exact absurd hsmall (UInt8.not_le.mpr hbig)
    · omega

variable {str : Bytes}

lemma length_decodeValues (h : decodeValues str = some values) : values.length = str.length := by
  induction str generalizing values with
  | nil => simp_all [decodeValues]
  | cons c str ih =>
    simp only [decodeValues] at h
    split_ifs at h
    obtain ⟨rest, hrest, rfl⟩ := Option.map_eq_some_iff.mp h
    simp [ih hrest]

lemma decodeValues_groups (h : decodeValues str = some values) : Groups 5 values := by
  induction str generalizing values with
  | nil => simp_all [decodeValues, Groups]
  | cons c str ih =>
    simp only [decodeValues] at h
    split_ifs at h with hbad
    obtain ⟨rest, hrest, rfl⟩ := Option.map_eq_some_iff.mp h
    have hall : ∀ n < 128, CHARSET_REV.getD n (-1) = -1 ∨
        (UInt8.ofInt (CHARSET_REV.getD n (-1))).toNat < 32 := by decide +kernel
    have hc : c.toNat < 128 := by
      rw [not_or, UInt8.not_lt, UInt8.le_iff_toNat_le] at hbad
      exact lt_succ_of_le hbad.1
    intro byte hbyte
    rcases mem_cons.mp hbyte with rfl | hin
    · exact (hall c.toNat hc).resolve_left fun hminus => hbad (.inr hminus)
    · exact ih hrest byte hin

/-- A name of an address: small letters. -/
structure Name (pre : Bytes) : Prop where
  ne_nil : pre ≠ []
  lower : ∀ c ∈ pre, isLower c = true

/-- The first loop on an encoded text finds the end of the name. -/
lemma scan_encode (hpre : Name pre) (hvalues : Groups 5 values) :
    ∃ s, scan (pre ++ 0x3a :: values.map fun c => CHARSET.getD c.toNat 0) 0 { } = some s ∧
      s.upper = false ∧ s.prefixSize = pre.length := by
  obtain ⟨s, hs, hsize, hupper, hnumber⟩ := scan_alphanumeric
    (fun c hc => by simp [hpre.lower c hc])
    (0x3a :: values.map fun c => CHARSET.getD c.toNat 0) 0 { }
  have hupper := hupper fun c hc => (isLower_facts (hpre.lower c hc)).1
  have hnumber := hnumber fun c hc => (isLower_facts (hpre.lower c hc)).2.1
  have hchars : ∀ c ∈ values.map fun c => CHARSET.getD c.toNat 0,
      (isLower c || isUpper c || isNumber c) = true ∧ isUpper c = false := by
    intro c hc
    obtain ⟨d, hd, rfl⟩ := mem_map.mp hc
    exact (CHARSET_group d.toNat (hvalues d hd)).2.2
  obtain ⟨s', hs', hsize', hupper', -⟩ := scan_alphanumeric (fun c hc => (hchars c hc).1) []
    (0 + pre.length + 1) { s with prefixSize := 0 + pre.length }
  refine ⟨s', ?_, (hupper' fun c hc => (hchars c hc).2).trans hupper, by simpa using hsize'⟩
  rw [append_nil] at hs'
  rw [hs, scan, if_neg (by decide), if_neg (by decide), if_neg (by decide), if_pos rfl, if_neg, hs',
    scan]
  simp only [hnumber, hsize]
  simp [hpre.ne_nil]

lemma decode_encode (hpre : Name pre) (hvalues : Groups 5 values) (defaultPrefix : Bytes) :
    decode (encode pre values) defaultPrefix = .returned (pre, values) := by
  have hall : Groups 5 (values ++ createChecksum pre values) := fun c hc =>
    (mem_append.mp hc).elim (hvalues c) (createChecksum_groups pre values c)
  obtain ⟨s, hscan, hupper, hsize⟩ := scan_encode hpre hall
  have hlower : pre.map lowerCase = pre := by
    conv_rhs => rw [← map_id pre]
    exact map_congr_left fun c hc => (isLower_facts (hpre.lower c hc)).2.2
  have hne : s.prefixSize ≠ 0 := by simpa [hsize] using hpre.ne_nil
  simp only [decode, encode, hscan, hupper, Bool.false_and, Bool.false_eq_true, if_false, hne]
  rw [hsize, take_left, hlower, drop_append, drop_of_length_le (by omega),
    Nat.add_sub_cancel_left, nil_append, drop_succ_cons, drop_zero,
    decodeValues_eq hall]
  simp [verifyChecksum_createChecksum]

/-- What is accepted of a text without a colon: the default name, and all but eight of its
characters. -/
lemma decode_alphanumeric (h : ∀ c ∈ str, isLower c || isUpper c || isNumber c)
    (hlength : 8 ≤ str.length) (defaultPrefix : Bytes) :
    ∃ pre payload, decode str defaultPrefix = .returned (pre, payload) ∧ Groups 5 payload ∧
      (payload = [] ∨ payload.length + 8 = str.length) := by
  obtain ⟨s, hscan, hsize, -⟩ := scan_alphanumeric h [] 0 { }
  rw [append_nil] at hscan
  simp only [decode, hscan, scan, hsize, if_true, drop_zero]
  split_ifs
  · exact ⟨[], [], rfl, by simp [Groups], .inl rfl⟩
  cases hvalues : decodeValues str with
  | none => exact ⟨[], [], rfl, by simp [Groups], .inl rfl⟩
  | some values =>
    have hlen := length_decodeValues hvalues
    simp only [if_neg (show ¬values.length < 8 by omega)]
    split_ifs
    · exact ⟨[], [], rfl, by simp [Groups], .inl rfl⟩
    · refine ⟨_, _, rfl, fun c hc => ?_, .inr ?_⟩
      · exact decodeValues_groups hvalues c (mem_of_mem_take hc)
      · rw [length_take]
        omega

/-! ## Accepted texts -/

def valuePart (str : Bytes) : Bytes :=
  if 0x3a ∈ str then (str.dropWhile (· ≠ 0x3a)).tail else str

variable {s : Scan}

/-- The texts that the first loop lets pass: letters and numbers, with at most one colon, which has
only letters before it. -/
lemma scan_eq_some {s' : Scan} (h : scan l i s = some s') :
    (0x3a ∉ l ∧ s'.prefixSize = s.prefixSize) ∨
      ∃ a b, l = a ++ 0x3a :: b ∧ (∀ c ∈ a, isLower c || isUpper c) ∧ 0x3a ∉ b ∧
        i + a.length ≠ 0 ∧ s'.prefixSize = i + a.length ∧ s.hasNumber = false ∧
        s.prefixSize = 0 := by
  induction l generalizing i s with
  | nil => exact .inl ⟨by simp, by simp_all [scan]⟩
  | cons c l ih =>
    simp only [scan] at h
    have hcolon : isLower c || isUpper c || isNumber c → c ≠ 0x3a := by
      rintro hc rfl
      exact absurd hc (by decide)
    split_ifs at h with hlower hupper hnumber heq hbad
    iterate 2
      rcases ih h with ⟨hnot, hsize⟩ | ⟨a, b, rfl, ha, hb, hne, hsize, hnum, hzero⟩
      · exact .inl ⟨by simp [hnot, (hcolon (by grind [isLower, isUpper])).symm], hsize⟩
      · exact .inr ⟨c :: a, b, rfl, by grind [isLower, isUpper], hb, by simp, by simp; omega, hnum,
          hzero⟩
    · rcases ih h with ⟨hnot, hsize⟩ | ⟨a, b, -, -, -, -, -, hnum, -⟩
      · exact .inl ⟨by simp [hnot, (hcolon (by grind [isNumber])).symm], hsize⟩
      · exact absurd hnum (by simp)
    · subst heq
      rcases ih h with ⟨hnot, hsize⟩ | ⟨a, b, -, -, -, -, -, -, hzero⟩
      · exact .inr ⟨[], l, rfl, by simp, hnot, by simp; omega, by simp [hsize], by simp_all,
          by simp_all⟩
      · exact absurd hzero (by simp; omega)

/-- The name before the colon in small letters, or else the default one. -/
def namePart (str defaultPrefix : Bytes) : Bytes :=
  if 0x3a ∈ str then (str.takeWhile (· ≠ 0x3a)).map lowerCase else defaultPrefix

lemma parts_append {a b : Bytes} (ha : ∀ c ∈ a, isLower c || isUpper c) (defaultPrefix : Bytes) :
    namePart (a ++ 0x3a :: b) defaultPrefix = a.map lowerCase ∧
      valuePart (a ++ 0x3a :: b) = b := by
  have hnot : ∀ c ∈ a, decide (c ≠ 0x3a) = true := by
    intro c hc
    have hletter := ha c hc
    simp only [decide_eq_true_eq]
    rintro rfl
    exact absurd hletter (by decide)
  rw [namePart, valuePart, if_pos (by simp), if_pos (by simp), takeWhile_append_of_pos hnot,
    dropWhile_append_of_pos hnot]
  simp

/-- The first loop finds the name and the text that is decoded. -/
lemma scan_parts (h : scan str 0 { } = some s) (defaultPrefix : Bytes) :
    (if s.prefixSize = 0 then defaultPrefix else (str.take s.prefixSize).map lowerCase) =
        namePart str defaultPrefix ∧
      str.drop (if s.prefixSize = 0 then 0 else s.prefixSize + 1) = valuePart str := by
  rcases scan_eq_some h with ⟨hnot, hsize⟩ | ⟨a, b, rfl, ha, hb, hne, hsize, -⟩
  · simp [namePart, valuePart, hnot, hsize]
  · rw [if_neg (by omega), if_neg (by omega), hsize, (parts_append ha defaultPrefix).1,
      (parts_append ha defaultPrefix).2]
    simp

/-- The values of a text that may be an address, whatever its checksum. -/
def textValues (str : Bytes) : Option Bytes :=
  (scan str 0 { }).bind fun s =>
    if s.upper && s.lower then none else decodeValues (valuePart str)

lemma textValues_eq_some (h : textValues str = some values) :
    ∃ s, scan str 0 { } = some s ∧ decodeValues (valuePart str) = some values := by
  obtain ⟨s, hscan, hvalues⟩ := Option.bind_eq_some_iff.mp h
  exact ⟨s, hscan, (Option.ite_none_left_eq_some.mp hvalues).2⟩

lemma decode_eq (str defaultPrefix : Bytes) :
    decode str defaultPrefix =
      match textValues str with
      | none => .returned ([], [])
      | some values =>
        if !verifyChecksum (namePart str defaultPrefix) values then .returned ([], [])
        else if values.length < 8 then .halted
        else .returned (namePart str defaultPrefix, values.take (values.length - 8)) := by
  cases hscan : scan str 0 { } with
  | none => simp [decode, textValues, hscan]
  | some s =>
    obtain ⟨hname, hpart⟩ := scan_parts hscan defaultPrefix
    cases hcase : s.upper && s.lower <;>
      simp only [decode, textValues, hscan, hcase, hname, hpart, Option.bind_some, if_true,
        Bool.false_eq_true, if_false]

/-- What the values of a text stand for if there is no payload and the checksum is good. -/
def checksumNumber (pre : Bytes) (n : Nat) : Nat :=
  polyMod (expandPrefix pre ++ List.replicate n 0) ^^^ 1

/-- Less than eight values make a good checksum just if they stand for the number of their name. -/
lemma decode_ne_halted_iff (str defaultPrefix : Bytes) :
    decode str defaultPrefix ≠ .halted ↔ ∀ values ∈ textValues str, 8 ≤ values.length ∨
      groupsValue 5 values ≠ checksumNumber (namePart str defaultPrefix) values.length := by
  rw [decode_eq]
  cases htext : textValues str with
  | none => simp
  | some values =>
    obtain ⟨-, -, hvalues⟩ := textValues_eq_some htext
    simp only [Option.mem_some_iff, forall_eq']
    by_cases hlong : 8 ≤ values.length
    · rw [if_neg (show ¬values.length < 8 by omega)]
      split_ifs <;> simp [hlong]
    · have hverify := verifyChecksum_append_iff (decodeValues_groups hvalues) (by omega)
        (namePart str defaultPrefix) []
      rw [nil_append, append_nil, ← checksumNumber] at hverify
      rw [if_pos (show values.length < 8 by omega), or_iff_right hlong, ne_eq, ne_eq, ← hverify]
      cases verifyChecksum (namePart str defaultPrefix) values <;> simp

lemma groupsValue_lt (h : Groups 5 values) : groupsValue 5 values < 32 ^ values.length := by
  have hgroups : ∀ d ∈ values.map UInt8.toNat, d < 32 := by simpa [Groups] using h
  simpa [groupsValue] using value_lt (by decide) hgroups

/-- A text is decoded without leaving the bounds of its values just if it has eight of them, or the
number they stand for is not the one its name makes with as many zeros. With the name of a network,
no text leaves the bounds. -/
theorem decode_inBounds_iff (str defaultPrefix : Bytes) :
    (decode str defaultPrefix ≠ .halted ↔ ∀ values ∈ textValues str, 8 ≤ values.length ∨
      groupsValue 5 values ≠ checksumNumber (namePart str defaultPrefix) values.length) ∧
    (namePart str defaultPrefix ∈ ["jumpcoin", "jumptest", "jumpreg"].map ascii →
      decode str defaultPrefix ≠ .halted) := by
  have hiff := decode_ne_halted_iff str defaultPrefix
  refine ⟨hiff, fun hname => hiff.mpr fun values htext => ?_⟩
  obtain ⟨-, -, hvalues⟩ := textValues_eq_some htext
  have hlarge : ∀ name ∈ ["jumpcoin", "jumptest", "jumpreg"].map ascii, ∀ n < 8,
      32 ^ n ≤ checksumNumber name n := by decide +kernel
  by_contra! hshort
  have hlt := groupsValue_lt (decodeValues_groups hvalues)
  exact absurd (hlarge _ hname _ hshort.1) (hshort.2 ▸ hlt).not_ge

/-- One letter and seven values. -/
theorem decode_outOfBounds : decode (ascii "c:qvdy2z3") (ascii "jumpcoin") = .halted := by
  decide +kernel

end CashAddr

end Jumpcoin
