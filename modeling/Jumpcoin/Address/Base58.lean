import Jumpcoin.Foundation.Check
import Jumpcoin.Foundation.Radix
import Jumpcoin.Primitives.Block
import Mathlib.Data.List.TakeWhile

/-!
# Base58

`base58.cpp`: bytes as texts in base 58, and such texts with a checksum. Texts are the bytes of
their characters.

The buffers of the conversions are lists of digits with the least significant one first, the order
in which the loops walk them.
-/

namespace Jumpcoin

open Codec Radix List Nat

def ascii (text : String) : Bytes :=
  text.toList.map fun c => UInt8.ofNat c.toNat

namespace Base58

/-- All alphanumeric characters except for "0", "I", "O", and "l". -/
def pszBase58 : Bytes := ascii "123456789ABCDEFGHJKLMNPQRSTUVWXYZabcdefghijkmnopqrstuvwxyz"

def isSpace (c : UInt8) : Bool :=
  c == 0x20 || (decide (9 ≤ c) && decide (c ≤ 13))

/-! ## Encoding -/

/-- The inner loop of `EncodeBase58`, `b58 = b58 * 256 + ch`: the digits, the carry and the position
it ends at. -/
def addByte (length : Nat) : Nat → Nat → List Nat → List Nat × Nat × Nat
  | carry, i, [] => ([], carry, i)
  | carry, i, d :: ds =>
    if carry ≠ 0 ∨ i < length then
      let rest := addByte length ((carry + 256 * d) / 58) (i + 1) ds
      ((carry + 256 * d) % 58 :: rest.1, rest.2)
    else (d :: ds, carry, i)

/-- The loop over the bytes: the digits and how many of them are in use. No value if the assertion
fails. -/
def encodeLoop : Bytes → List Nat → Nat → Option (List Nat × Nat)
  | [], b58, length => some (b58, length)
  | ch :: rest, b58, length =>
    let (b58', carry, i) := addByte length ch.toNat 0 b58
    if carry = 0 then encodeLoop rest b58' i else none

def encodeBase58 (vch : Bytes) : Option Bytes := do
  let zeroes := (vch.takeWhile (· = 0)).length
  let rest := vch.dropWhile (· = 0)
  let (b58, length) ← encodeLoop rest (List.replicate (rest.length * 138 / 100 + 1) 0) 0
  some (List.replicate zeroes 0x31 ++
    (trim (b58.take length).reverse).map fun d => pszBase58.getD d 0)

/-! ## Decoding -/

/-- The loop of `DecodeBase58` over the characters: the bytes, and what follows the first space. -/
def decodeLoop : Bytes → List Nat → Outcome (List Nat × Bytes)
  | [], b256 => .returned (b256, [])
  | c :: rest, b256 =>
    if isSpace c then .returned (b256, c :: rest)
    else
      match pszBase58.idxOf? c with
      | none => .refused
      | some digit =>
        let (b256', carry) := mulAdd 256 58 digit b256
        if carry = 0 then decodeLoop rest b256' else .halted

/-- `DecodeBase58`; the text ends at the first null character. -/
def decodeBase58 (str : Bytes) : Outcome Bytes :=
  let psz := (str.takeWhile (· ≠ 0)).dropWhile isSpace
  let zeroes := (psz.takeWhile (· = 0x31)).length
  let psz := psz.dropWhile (· = 0x31)
  match decodeLoop psz (List.replicate (psz.length * 733 / 1000 + 1) 0) with
  | .refused => .refused
  | .halted => .halted
  | .returned (b256, rest) =>
    if (rest.dropWhile isSpace).isEmpty then
      .returned (List.replicate zeroes 0 ++ (trim b256.reverse).map UInt8.ofNat)
    else .refused

/-! ## Checksums -/

def checksum (hashes : Hashes) (vch : Bytes) : Bytes :=
  (writeUInt256 (hashes.hash256 vch)).take 4

def encodeBase58Check (hashes : Hashes) (vchIn : Bytes) : Option Bytes :=
  encodeBase58 (vchIn ++ checksum hashes vchIn)

def decodeBase58Check (hashes : Hashes) (str : Bytes) : Outcome Bytes :=
  match decodeBase58 str with
  | .refused => .refused
  | .halted => .halted
  | .returned vch =>
    let vchRet := vch.take (vch.length - 4)
    if vch.length < 4 then .refused
    else if checksum hashes vchRet = vch.drop (vch.length - 4) then .returned vchRet
    else .refused

/-! ## The loops -/

/-- The characters of digits are no spaces and do not end a text, and they are found again. -/
lemma pszBase58_digit : ∀ d < 58, isSpace (pszBase58.getD d 0) = false ∧
    pszBase58.idxOf? (pszBase58.getD d 0) = some d ∧ pszBase58.getD d 0 ≠ 0 ∧
    (d ≠ 0 → pszBase58.getD d 0 ≠ 0x31) := by
  decide

/-- The inner loop stops where there is nothing left to multiply. -/
lemma addByte_eq {length i : Nat} (carry : Nat) {ds : List Nat}
    (hzero : ∀ d ∈ ds.drop (length - i), d = 0) :
    (addByte length carry i ds).1 = (mulAdd 58 256 carry ds).1 ∧
      (addByte length carry i ds).2.1 = (mulAdd 58 256 carry ds).2 ∧
      i ≤ (addByte length carry i ds).2.2 ∧
      ∀ d ∈ (addByte length carry i ds).1.drop ((addByte length carry i ds).2.2 - i), d = 0 := by
  induction ds generalizing carry i with
  | nil => simp [addByte, mulAdd]
  | cons d ds ih =>
    unfold addByte
    split_ifs with hgo
    · have hzero' : ∀ d' ∈ ds.drop (length - (i + 1)), d' = 0 := by
        intro d' hd'
        rcases lt_or_ge i length with hlt | hge
        · rw [show length - i = length - (i + 1) + 1 by omega, drop_succ_cons] at hzero
          exact hzero d' hd'
        · rw [Nat.sub_eq_zero_of_le hge] at hzero
          exact hzero d' (mem_cons_of_mem _ (mem_of_mem_drop hd'))
      obtain ⟨hdigits, hcarry, hle, hrest⟩ := ih ((carry + 256 * d) / 58) hzero'
      refine ⟨by simp [mulAdd, hdigits], by simp [mulAdd, hcarry], by simp only; omega, ?_⟩
      simp only
      rw [show ∀ k, i + 1 ≤ k → k - i = k - (i + 1) + 1 by omega, drop_succ_cons]
      · exact hrest
      · exact hle
    · obtain ⟨rfl, hge⟩ : carry = 0 ∧ length ≤ i := by omega
      rw [Nat.sub_eq_zero_of_le hge, drop_zero] at hzero
      rw [mulAdd_of_zeros hzero]
      exact ⟨rfl, rfl, le_rfl, by simpa using hzero⟩

structure InUse (b58 : List Nat) (length : Nat) : Prop where
  lt : ∀ d ∈ b58, d < 58
  zero : ∀ d ∈ b58.drop length, d = 0

lemma encodeLoop_eq (vch : Bytes) {b58 : List Nat} {length : Nat} (h : InUse b58 length)
    (hroom : Nat.ofDigits 58 b58 * 256 ^ vch.length + value 256 (vch.map UInt8.toNat) <
      58 ^ b58.length) :
    ∃ b58' length', encodeLoop vch b58 length = some (b58', length') ∧ InUse b58' length' ∧
      Nat.ofDigits 58 b58' =
        Nat.ofDigits 58 b58 * 256 ^ vch.length + value 256 (vch.map UInt8.toNat) := by
  induction vch generalizing b58 length with
  | nil => exact ⟨b58, length, rfl, h, by simp⟩
  | cons ch vch ih =>
    rw [map_cons, value_cons, length_map, length_cons] at hroom ⊢
    obtain ⟨hnone, hvalue⟩ := mulAdd_horner (by decide) hroom
    obtain ⟨hdigits, hcarry, -, hzero⟩ := addByte_eq (i := 0) ch.toNat h.zero
    have hinUse : InUse (addByte length ch.toNat 0 b58).1 (addByte length ch.toNat 0 b58).2.2 :=
      ⟨by rw [hdigits]; exact mulAdd_lt (by decide) _ _, hzero⟩
    rw [← hvalue, ← length_mulAdd (b := 58) (m := 256) ch.toNat b58, ← hdigits] at hroom
    obtain ⟨b58', length', hloop, hinUse', hend⟩ := ih hinUse hroom
    refine ⟨b58', length', ?_, hinUse', by rw [hend, hdigits, hvalue]⟩
    simp only [encodeLoop, hcarry, hnone, if_true]
    exact hloop

lemma decodeLoop_eq {digits b256 : List Nat} (hdigits : ∀ d ∈ digits, d < 58)
    (hlt : ∀ d ∈ b256, d < 256) (tail : Bytes)
    (hroom : Nat.ofDigits 256 b256 * 58 ^ digits.length + value 58 digits < 256 ^ b256.length) :
    ∃ b256', decodeLoop ((digits.map fun d => pszBase58.getD d 0) ++ tail) b256 =
        decodeLoop tail b256' ∧ (∀ d ∈ b256', d < 256) ∧
      Nat.ofDigits 256 b256' = Nat.ofDigits 256 b256 * 58 ^ digits.length + value 58 digits := by
  induction digits generalizing b256 with
  | nil => exact ⟨b256, rfl, hlt, by simp⟩
  | cons digit digits ih =>
    rw [value_cons, length_cons] at hroom ⊢
    obtain ⟨hnone, hvalue⟩ := mulAdd_horner (by decide) hroom
    rw [← hvalue, ← length_mulAdd (b := 256) (m := 58) digit b256] at hroom
    obtain ⟨b256', hloop, hlt', hend⟩ := ih (fun d hd => hdigits d (mem_cons_of_mem _ hd))
      (mulAdd_lt (by decide) _ _) hroom
    refine ⟨b256', ?_, hlt', hend.trans hvalue⟩
    obtain ⟨hspace, hindex, -⟩ := pszBase58_digit digit (hdigits digit mem_cons_self)
    simp only [map_cons, cons_append, decodeLoop, hspace, hindex, hnone, if_true]
    exact hloop

/-- A text is read up to the first character that is no digit; a space ends it there. -/
lemma exists_digits (psz : Bytes) : ∃ (digits : List Nat) (tail : Bytes),
    (∀ d ∈ digits, d < 58) ∧ psz = (digits.map fun d => pszBase58.getD d 0) ++ tail ∧
      ∀ b256, decodeLoop tail b256 = .refused ∨
        (decodeLoop tail b256 = .returned (b256, tail) ∧ ∀ c ∈ tail.head?, isSpace c = true) := by
  induction psz with
  | nil => exact ⟨[], [], by simp [decodeLoop]⟩
  | cons c psz ih =>
    cases hc : pszBase58.idxOf? c with
    | none =>
      refine ⟨[], c :: psz, by simp, rfl, fun b256 => ?_⟩
      by_cases hspace : isSpace c <;> simp [decodeLoop, hspace, hc]
    | some d =>
      obtain ⟨digits, tail, hdigits, rfl, hend⟩ := ih
      obtain ⟨hlt, hget, -⟩ := findIdx?_eq_some_iff_getElem.mp hc
      refine ⟨d :: digits, tail, forall_mem_cons.mpr ⟨hlt, hdigits⟩, ?_, hend⟩
      simp [getElem?_eq_getElem hlt, beq_iff_eq.mp hget]

/-- The buffer has room for every digit of the text, so the assertion holds. -/
lemma decodeLoop_start {digits : List Nat} (hdigits : ∀ d ∈ digits, d < 58) (tail : Bytes)
    {n : Nat} (hn : digits.length ≤ n) :
    ∃ b256, decodeLoop ((digits.map fun d => pszBase58.getD d 0) ++ tail)
        (List.replicate (n * 733 / 1000 + 1) 0) = decodeLoop tail b256 ∧
      trim b256.reverse = (Nat.digits 256 (value 58 digits)).reverse := by
  have hroom : value 58 digits < 256 ^ (n * 733 / 1000 + 1) :=
    calc value 58 digits < 58 ^ digits.length := value_lt (by decide) hdigits
      _ ≤ 58 ^ n := Nat.pow_le_pow_right (by decide) hn
      _ ≤ 256 ^ (n * 733 / 1000 + 1) :=
        pow_le_pow_div (by decide) (by decide) (by decide +kernel) n
  have hstart : ∀ d ∈ List.replicate (n * 733 / 1000 + 1) 0, d < 256 := by simp
  obtain ⟨b256, hloop, hlt, hvalue⟩ := decodeLoop_eq hdigits hstart tail
    (by simpa [ofDigits_replicate_zero] using hroom)
  refine ⟨b256, hloop, ?_⟩
  rw [trim_eq_digits (b := 256) (by decide) (by simpa using hlt)]
  simp [value, hvalue, ofDigits_replicate_zero]

/-! ## Round trip -/

def digits58 (vch : Bytes) : List Nat :=
  (Nat.digits 58 (value 256 (vch.map UInt8.toNat))).reverse

lemma digits58_lt (vch : Bytes) : ∀ d ∈ digits58 vch, d < 58 := fun _ hd =>
  digits_lt_base (by decide) (mem_reverse.mp hd)

lemma value_digits58 (vch : Bytes) : value 58 (digits58 vch) = value 256 (vch.map UInt8.toNat) := by
  simp [value, digits58, ofDigits_digits]

lemma value_bytes_lt (vch : Bytes) : value 256 (vch.map UInt8.toNat) < 256 ^ vch.length := by
  have hlt := value_lt (b := 256) (by decide) (l := vch.map UInt8.toNat) (by
    intro d hd
    obtain ⟨byte, -, rfl⟩ := mem_map.mp hd
    exact byte.toNat_lt)
  simpa using hlt

lemma encodeBase58_eq (vch : Bytes) :
    encodeBase58 vch = some (List.replicate (vch.takeWhile (· = 0)).length 0x31 ++
      (digits58 (vch.dropWhile (· = 0))).map fun d => pszBase58.getD d 0) := by
  set rest := vch.dropWhile (· = 0) with hrest
  have hroom : value 256 (rest.map UInt8.toNat) < 58 ^ (rest.length * 138 / 100 + 1) :=
    (value_bytes_lt rest).trans_le (pow_le_pow_div (by decide) (by decide) (by decide) rest.length)
  have hstart : InUse (List.replicate (rest.length * 138 / 100 + 1) 0) 0 := ⟨by simp, by simp⟩
  obtain ⟨b58, length, hloop, hinUse, hvalue⟩ := encodeLoop_eq rest hstart
    (by simpa [ofDigits_replicate_zero] using hroom)
  have hdigits : trim (b58.take length).reverse = digits58 rest := by
    have hall : trim b58.reverse = trim (b58.take length).reverse := by
      conv_lhs => rw [← take_append_drop length b58, reverse_append]
      exact trim_append_of_zeros (by simpa using hinUse.zero) _
    rw [← hall, trim_eq_digits (b := 58) (by decide) (by simpa using hinUse.lt), digits58]
    simp [value, hvalue, ofDigits_replicate_zero]
  simp only [encodeBase58, ← hrest, hloop, hdigits, Option.bind_eq_bind, Option.bind_some]

lemma span_of_head {p : UInt8 → Bool} {l : Bytes} (h : ∀ c ∈ l.head?, p c = false) :
    l.takeWhile p = [] ∧ l.dropWhile p = l := by
  cases l with
  | nil => exact ⟨rfl, rfl⟩
  | cons c l => simp [h c rfl]

/-- The decoder counts the leading ones and reads the digits after them. -/
lemma decodeBase58_digits (zeroes : Nat) {digits : List Nat} (hdigits : ∀ d ∈ digits, d < 58)
    (hhead : ∀ d ∈ digits.head?, d ≠ 0) :
    decodeBase58 (List.replicate zeroes 0x31 ++ digits.map fun d => pszBase58.getD d 0) =
      .returned (List.replicate zeroes 0 ++
        (Nat.digits 256 (value 58 digits)).reverse.map UInt8.ofNat) := by
  set psz := digits.map fun d => pszBase58.getD d 0 with hpsz
  have hplain : ∀ c ∈ List.replicate zeroes 0x31 ++ psz, c ≠ 0 ∧ isSpace c = false := by
    intro c hc
    rcases mem_append.mp hc with hone | hdigit
    · obtain rfl := eq_of_mem_replicate hone
      decide
    · obtain ⟨d, hd, rfl⟩ := mem_map.mp hdigit
      obtain ⟨hspace, -, hzero, -⟩ := pszBase58_digit d (hdigits d hd)
      exact ⟨hzero, hspace⟩
  have hfirst : ∀ c ∈ psz.head?, c ≠ 0x31 := by
    rw [hpsz, head?_map]
    intro c hc
    obtain ⟨d, hd, rfl⟩ := Option.map_eq_some_iff.mp hc
    exact (pszBase58_digit d (hdigits d (mem_of_head? hd))).2.2.2 (hhead d hd)
  have htext : (List.replicate zeroes 0x31 ++ psz).takeWhile (· ≠ 0) =
      List.replicate zeroes 0x31 ++ psz :=
    takeWhile_eq_self_iff.mpr fun c hc => by simpa using (hplain c hc).1
  have hskip := (span_of_head fun c hc => (hplain c (mem_of_head? hc)).2).2
  have hones : ∀ c ∈ List.replicate zeroes (0x31 : UInt8), decide (c = 0x31) = true :=
    fun c hc => by simpa using eq_of_mem_replicate hc
  obtain ⟨hnone, hrest⟩ := span_of_head (p := (· = 0x31)) (l := psz)
    fun c hc => by simpa using hfirst c hc
  obtain ⟨b256, hloop, hbytes⟩ := decodeLoop_start hdigits [] le_rfl
  rw [← hpsz, append_nil] at hloop
  have hlength : psz.length = digits.length := by simp [hpsz]
  simp only [decodeBase58, htext, hskip, takeWhile_append_of_pos hones,
    dropWhile_append_of_pos hones, hnone, hrest, append_nil, length_replicate,
    hlength, hloop, decodeLoop, hbytes]
  rfl

/-- Bytes without leading zeros are the digits of their value. -/
lemma digits_value_bytes {vch : Bytes} (h : ∀ c ∈ vch.head?, c ≠ 0) :
    (Nat.digits 256 (value 256 (vch.map UInt8.toNat))).reverse = vch.map UInt8.toNat := by
  rw [← trim_eq_digits (by decide)]
  · cases vch with
    | nil => rfl
    | cons c vch => exact trim_of_head (UInt8.toNat_inj.not.mpr (h c rfl))
  · simp only [mem_map, forall_exists_index, and_imp, forall_apply_eq_imp_iff₂]
    exact fun c _ => c.toNat_lt

lemma head_digits (b n : Nat) : ∀ d ∈ (Nat.digits b n).reverse.head?, d ≠ 0 := by
  intro d hd
  rw [head?_reverse] at hd
  have hn : n ≠ 0 := by
    rintro rfl
    simp at hd
  rw [getLast?_eq_some_getLast (digits_ne_nil_iff_ne_zero.mpr hn)] at hd
  obtain rfl := Option.some.inj hd
  exact getLast_digit_ne_zero b hn

lemma head_dropWhile (ch : UInt8) (l : Bytes) : ∀ c ∈ (l.dropWhile (· = ch)).head?, c ≠ ch := by
  intro c hc
  have hnot := head?_dropWhile_not (fun c : UInt8 => decide (c = ch)) l
  rw [hc] at hnot
  simpa using hnot

lemma replicate_takeWhile (ch : UInt8) (l : Bytes) :
    List.replicate (l.takeWhile (· = ch)).length ch = l.takeWhile (· = ch) := by
  refine (eq_replicate_of_mem fun c hc => ?_).symm
  simpa using mem_takeWhile_imp hc

lemma decodeBase58_encodeBase58 {vch str : Bytes} (h : encodeBase58 vch = some str) :
    decodeBase58 str = .returned vch := by
  rw [encodeBase58_eq, Option.some.injEq] at h
  subst h
  have hid : UInt8.ofNat ∘ UInt8.toNat = id := funext fun c => UInt8.ofNat_toNat
  rw [decodeBase58_digits _ (digits58_lt _) (head_digits _ _), value_digits58,
    digits_value_bytes (head_dropWhile 0 vch), replicate_takeWhile, map_map, hid, map_id,
    takeWhile_append_dropWhile]

/-- The bytes of a number in base 58, without leading zeros, are encoded as its digits. -/
lemma encodeBase58_digits (zeroes : Nat) {digits : List Nat} (hdigits : ∀ d ∈ digits, d < 58)
    (hhead : ∀ d ∈ digits.head?, d ≠ 0) :
    encodeBase58 (List.replicate zeroes 0 ++
        (Nat.digits 256 (value 58 digits)).reverse.map UInt8.ofNat) =
      some (List.replicate zeroes 0x31 ++ digits.map fun d => pszBase58.getD d 0) := by
  set bytes := (Nat.digits 256 (value 58 digits)).reverse with hbytes
  have hlt : ∀ d ∈ bytes, d < 256 := fun d hd =>
    digits_lt_base (by decide) (mem_reverse.mp hd)
  have hnat : (bytes.map UInt8.ofNat).map UInt8.toNat = bytes := by
    rw [map_map]
    exact (map_congr_left fun d hd => UInt8.toNat_ofNat_of_lt' (hlt d hd)).trans (map_id _)
  have hfirst : ∀ c ∈ (bytes.map UInt8.ofNat).head?, decide (c = 0) = false := by
    rw [head?_map]
    intro c hc
    obtain ⟨d, hd, rfl⟩ := Option.map_eq_some_iff.mp hc
    have hne := head_digits _ _ d hd
    have hd' := hlt d (mem_of_head? hd)
    simp [← UInt8.toNat_inj, mod_eq_of_lt hd', hne]
  have hzeros : ∀ c ∈ List.replicate zeroes (0 : UInt8), decide (c = 0) = true :=
    fun c hc => by simpa using eq_of_mem_replicate hc
  have hsame : digits58 (bytes.map UInt8.ofNat) = digits := by
    rw [digits58, hnat, hbytes, value, reverse_reverse, ofDigits_digits,
      ← trim_eq_digits (by decide) hdigits]
    cases digits with
    | nil => rfl
    | cons d digits => exact trim_of_head (hhead d rfl)
  obtain ⟨hnone, hrest⟩ := span_of_head hfirst
  rw [encodeBase58_eq, takeWhile_append_of_pos hzeros, dropWhile_append_of_pos hzeros,
    hnone, hrest, hsame, append_nil, length_replicate]

lemma decodeBase58_ne_halted (str : Bytes) : decodeBase58 str ≠ .halted := by
  simp only [decodeBase58]
  generalize ((str.takeWhile (· ≠ 0)).dropWhile isSpace).dropWhile (· = 0x31) = psz
  obtain ⟨digits, tail, hdigits, hpsz, hend⟩ := exists_digits psz
  obtain ⟨b256, hloop, -⟩ := decodeLoop_start hdigits tail
    (show digits.length ≤ psz.length by simp [hpsz])
  rw [← hpsz] at hloop
  rcases hend b256 with href | ⟨hret, -⟩
  · simp [hloop, href]
  · simp only [hloop, hret]
    split <;> simp

/-- What is read from a text without spaces is encoded as the text. -/
lemma encodeBase58_of_decodeBase58 {str vch : Bytes} (hspace : ∀ c ∈ str, isSpace c = false)
    (h : decodeBase58 str = .returned vch) : encodeBase58 vch = some (str.takeWhile (· ≠ 0)) := by
  set text := str.takeWhile (· ≠ 0) with htext
  have hplain : ∀ c ∈ text, isSpace c = false := fun c hc =>
    hspace c (takeWhile_subset _ hc)
  obtain ⟨digits, tail, hdigits, hpsz, hend⟩ := exists_digits (text.dropWhile (· = 0x31))
  have hsplit : text = List.replicate (text.takeWhile (· = 0x31)).length 0x31 ++
      text.dropWhile (· = 0x31) := by
    rw [replicate_takeWhile, takeWhile_append_dropWhile]
  have hskip : text.dropWhile isSpace = text :=
    (span_of_head fun c hc => hplain c (mem_of_head? hc)).2
  obtain rfl : tail = [] := by
    obtain ⟨b256, hloop, -⟩ := decodeLoop_start hdigits tail
      (show digits.length ≤ (text.dropWhile (· = 0x31)).length by simp [hpsz])
    rw [← hpsz] at hloop
    rcases hend b256 with href | ⟨-, hhead⟩
    · simp only [decodeBase58, ← htext, hskip, hloop, href] at h
      cases h
    · refine head?_eq_none_iff.mp (Option.eq_none_iff_forall_not_mem.mpr fun c hc => ?_)
      have hc' := hplain c (by rw [hsplit, hpsz]; simp [mem_of_head? hc])
      rw [hhead c hc] at hc'
      cases hc'
  rw [append_nil] at hpsz
  have hhead : ∀ d ∈ digits.head?, d ≠ 0 := by
    rintro d hd rfl
    refine head_dropWhile 0x31 text 0x31 ?_ rfl
    rw [hpsz, head?_map, hd]
    rfl
  have hsame : decodeBase58 str = decodeBase58 text := by
    simp only [decodeBase58, htext, takeWhile_idem]
  rw [hpsz] at hsplit
  rw [hsame, hsplit, decodeBase58_digits _ hdigits hhead] at h
  obtain rfl := Outcome.returned.inj h
  rw [encodeBase58_digits _ hdigits hhead, ← hsplit]

lemma mem_pszBase58 {vch str : Bytes} (h : encodeBase58 vch = some str) :
    ∀ c ∈ str, c ∈ pszBase58 := by
  rw [encodeBase58_eq, Option.some.injEq] at h
  subst h
  intro c hc
  rcases mem_append.mp hc with hone | hdigit
  · obtain rfl := eq_of_mem_replicate hone
    decide
  · obtain ⟨d, hd, rfl⟩ := mem_map.mp hdigit
    have hall : ∀ d < 58, pszBase58.getD d 0 ∈ pszBase58 := by decide
    exact hall d (digits58_lt _ d hd)

lemma length_digits58 {vch : Bytes} (h : ∀ c ∈ vch.head?, c ≠ 0) :
    vch.length ≤ (digits58 vch).length ∧
      (digits58 vch).length ≤ vch.length * 138 / 100 + 1 := by
  rw [digits58, length_reverse]
  constructor
  · cases vch with
    | nil => exact zero_le _
    | cons c vch =>
      have hc : 0 < c.toNat := pos_of_ne_zero (UInt8.toNat_inj.not.mpr (h c rfl))
      apply (lt_digits_length_iff (by decide) _).mpr
      calc 58 ^ vch.length ≤ 256 ^ vch.length := Nat.pow_le_pow_left (by decide) _
        _ ≤ c.toNat * 256 ^ vch.length := Nat.le_mul_of_pos_left _ hc
        _ ≤ value 256 ((c :: vch).map UInt8.toNat) := by
          rw [map_cons, value_cons, length_map]
          exact le_add_right _ _
  · apply (digits_length_le_iff (by decide) _).mpr
    exact (value_bytes_lt vch).trans_le
      (pow_le_pow_div (by decide) (by decide) (by decide) vch.length)

/-- A text is at least as long as its bytes, and at most 138 for 100 of them. -/
lemma length_encodeBase58 {vch str : Bytes} (h : encodeBase58 vch = some str) :
    vch.length ≤ str.length ∧ str.length ≤ vch.length * 138 / 100 + 1 := by
  rw [encodeBase58_eq, Option.some.injEq] at h
  subst h
  have hbytes : (vch.takeWhile (· = 0)).length + (vch.dropWhile (· = 0)).length = vch.length := by
    rw [← length_append, takeWhile_append_dropWhile]
  obtain ⟨hle, hge⟩ := length_digits58 (head_dropWhile 0 vch)
  rw [length_append, length_replicate, length_map]
  omega

@[simp] lemma length_checksum (hashes : Hashes) (vch : Bytes) :
    (checksum hashes vch).length = 4 := by
  simp [checksum, writeUInt256]

lemma decodeBase58Check_encodeBase58Check {hashes : Hashes} {vchIn str : Bytes}
    (h : encodeBase58Check hashes vchIn = some str) :
    decodeBase58Check hashes str = .returned vchIn := by
  simp [decodeBase58Check, decodeBase58_encodeBase58 h]

end Base58

end Jumpcoin
