import Jumpcoin.Foundation.Codec

/-!
# Variable-length integers

The base-128 integers of the chainstate and undo files (`WriteVarInt` and `ReadVarInt` of
`serialize.h`). The writer runs on the signed or unsigned value it is instantiated with, so it is
modelled on integers; the reader shifts digits into a machine word and loses what does not fit, so
it is modelled on bit vectors of that width.

A nonnegative value of the width is read back, and nothing after it is touched. A negative value
is written as the single byte of its low seven bits and read back as that byte.
-/

namespace Jumpcoin

open Codec Nat

/-! ## The format -/

/-- The loop of `WriteVarInt` from the last digit to the first. `room` is what is left of the
buffer `tmp`, `more` says that a digit follows the one being written. -/
def writeVarIntLoop : Nat → Int → Bool → Bytes → Bytes
  | 0, _, _, tmp => tmp
  | room + 1, n, more, tmp =>
    let digit := UInt8.ofNat (n % 128).toNat ||| (if more then 0x80 else 0x00)
    if n ≤ 0x7F then digit :: tmp
    else writeVarIntLoop room (n / 128 - 1) true (digit :: tmp)

def writeVarInt (w : Nat) (n : Int) : Bytes :=
  writeVarIntLoop ((w + 6) / 7) n false []

def readVarIntLoop {w : Nat} (n : BitVec w) : Reader (BitVec w)
  | [] => none
  | chData :: rest =>
    let m := n <<< 7 ||| BitVec.setWidth w (chData &&& 0x7F).toBitVec
    if chData &&& 0x80 ≠ 0 then readVarIntLoop (m + 1) rest else some (m, rest)

def readVarInt (w : Nat) : Reader (BitVec w) :=
  readVarIntLoop 0

def getSizeOfVarInt (n : Nat) : Nat :=
  if n ≤ 0x7F then 1 else getSizeOfVarInt (n / 128 - 1) + 1

/-- The number a string of bytes encodes by the comment over the format, of whatever size; `n` is
what the digits before say. -/
def varIntNumber (n : Nat) : Reader Nat
  | [] => none
  | chData :: rest =>
    if chData &&& 0x80 ≠ 0 then varIntNumber (n * 128 + (chData &&& 0x7F).toNat + 1) rest
    else some (n * 128 + (chData &&& 0x7F).toNat, rest)

/-! ## One digit -/

variable {w : Nat} {n : Nat}

lemma shiftIn_digit (m d : Nat) (hd : d < 128) :
    BitVec.ofNat w m <<< 7 ||| BitVec.setWidth w (BitVec.ofNat 8 d) =
      BitVec.ofNat w (m * 128 + d) := by
  apply BitVec.eq_of_toNat_eq
  have hor : m <<< 7 ||| d = m * 128 + d := by
    rw [← shiftLeft_add_eq_or_of_lt (show d < 2 ^ 7 by omega), shiftLeft_eq]
  have hd8 : d % 256 = d := by omega
  rw [BitVec.toNat_or, BitVec.toNat_shiftLeft, BitVec.toNat_setWidth, BitVec.toNat_ofNat,
    BitVec.toNat_ofNat, BitVec.toNat_ofNat, hd8, ← hor, or_mod_two_pow]
  congr 1
  rw [shiftLeft_eq, shiftLeft_eq, mod_mul_mod]

/-- A byte is its digit and the bit that says whether another one follows. -/
lemma digit_byte (chData : UInt8) : (chData &&& 0x7F).toNat < 128 ∧
    UInt8.ofNat (chData &&& 0x7F).toNat ||| (if chData &&& 0x80 ≠ 0 then 0x80 else 0) = chData := by
  have hall : ∀ k < 256, (UInt8.ofNat k &&& 0x7F).toNat < 128 ∧
      UInt8.ofNat (UInt8.ofNat k &&& 0x7F).toNat |||
        (if UInt8.ofNat k &&& 0x80 ≠ 0 then 0x80 else 0) = UInt8.ofNat k := by decide +kernel
  simpa only [UInt8.ofNat_toNat] using hall chData.toNat chData.toNat_lt

lemma byte_digit : ∀ d < 128,
    ((UInt8.ofNat d &&& 0x7F).toNat = d ∧ UInt8.ofNat d &&& 0x80 = 0) ∧
    ((UInt8.ofNat d ||| 0x80) &&& 0x7F).toNat = d ∧ (UInt8.ofNat d ||| 0x80) &&& 0x80 ≠ 0 := by
  decide

lemma varIntNumber_last (m d : Nat) (hd : d < 128) (rest : Bytes) :
    varIntNumber m (UInt8.ofNat d :: rest) = some (m * 128 + d, rest) := by
  obtain ⟨⟨hv, hb⟩, -⟩ := byte_digit d hd
  simp [varIntNumber, hv, hb]

lemma varIntNumber_more (m d : Nat) (hd : d < 128) (rest : Bytes) :
    varIntNumber m ((UInt8.ofNat d ||| 0x80) :: rest) = varIntNumber (m * 128 + d + 1) rest := by
  obtain ⟨-, hv, hb⟩ := byte_digit d hd
  simp [varIntNumber, hv, hb]

/-- The reader has the low bits of the number the bytes encode. -/
lemma readVarIntLoop_eq (m : Nat) (bytes : Bytes) : readVarIntLoop (BitVec.ofNat w m) bytes =
    (varIntNumber m bytes).map (Prod.map (BitVec.ofNat w) id) := by
  induction bytes generalizing m with
  | nil => rfl
  | cons chData rest ih =>
    have hdigit : (chData &&& 0x7F).toBitVec = BitVec.ofNat 8 (chData &&& 0x7F).toNat := by simp
    have hsucc := BitVec.ofNat_add (n := w) (m * 128 + (chData &&& 0x7F).toNat) 1
    rw [readVarIntLoop, varIntNumber, hdigit, shiftIn_digit m _ (digit_byte chData).1]
    split_ifs with hmore
    · rw [← ih, hsucc]
      rfl
    · rfl

/-! ## Round trip -/

/-- What is left after the last digit needs one byte of the buffer less. -/
lemma carry_lt {n room : Nat} (hn : n < 128 ^ (room + 1)) : n / 128 - 1 < 128 ^ room := by
  rw [pow_succ'] at hn
  exact lt_of_le_of_lt (Nat.sub_le _ _) (Nat.div_lt_of_lt_mul hn)

lemma digit_cast (n : Nat) : ((n : Int) % 128).toNat = n % 128 := by
  omega

lemma carry_cast (hn : ¬(n : Int) ≤ 0x7F) :
    (n : Int) / 128 - 1 = ((n / 128 - 1 : Nat) : Int) ∧ n / 128 - 1 + 1 = n / 128 := by
  omega

lemma writeVarIntLoop_append (room : Nat) (n : Int) (more : Bool) (tmp rest : Bytes) :
    writeVarIntLoop room n more tmp ++ rest = writeVarIntLoop room n more (tmp ++ rest) := by
  induction room generalizing n more tmp with
  | zero => rfl
  | succ room ih =>
    by_cases hle : n ≤ 0x7F
    · simp [writeVarIntLoop, hle]
    · simp only [writeVarIntLoop, hle, if_false]
      exact ih _ _ _

lemma varIntNumber_first (hn : (n : Int) ≤ 0x7F) (tmp : Bytes) :
    varIntNumber 0 ((UInt8.ofNat (n % 128) ||| 0x80) :: tmp) = varIntNumber (n + 1) tmp := by
  have hmod : n % 128 = n := mod_eq_of_lt (by omega)
  simpa [hmod] using varIntNumber_more 0 n (by omega) tmp

/-- The digits written before a following one leave the reader with the successor of their value,
which undoes the one the writer subtracts. -/
lemma varIntNumber_writeVarIntLoop (room n : Nat) (hn : n < 128 ^ (room + 1)) (tmp : Bytes) :
    varIntNumber 0 (writeVarIntLoop (room + 1) n true tmp) = varIntNumber (n + 1) tmp := by
  induction room generalizing n tmp with
  | zero =>
    have hle : (n : Int) ≤ 0x7F := by simp at hn; omega
    simpa only [writeVarIntLoop, digit_cast, hle, if_true] using varIntNumber_first hle tmp
  | succ room ih =>
    rw [writeVarIntLoop]
    simp only [digit_cast, if_true]
    split_ifs with hle
    · exact varIntNumber_first hle tmp
    · obtain ⟨hcast, hpred⟩ := carry_cast hle
      rw [hcast, ih _ (carry_lt hn), hpred, varIntNumber_more _ _ (mod_lt _ (by decide)),
        div_add_mod']

/-- The buffer of `WriteVarInt` holds every digit of a value of the width. -/
lemma room_for_digits (hw : 0 < w) : ∃ room, (w + 6) / 7 = room + 1 ∧ 2 ^ w ≤ 128 ^ (room + 1) := by
  refine ⟨(w + 6) / 7 - 1, by omega, ?_⟩
  rw [show 128 = 2 ^ 7 from rfl, ← pow_mul]
  exact Nat.pow_le_pow_right (by decide) (by omega)

lemma varIntNumber_writeVarInt (hw : 0 < w) (hn : n < 2 ^ w) (rest : Bytes) :
    varIntNumber 0 (writeVarInt w n ++ rest) = some (n, rest) := by
  obtain ⟨room, hroom, hbig⟩ := room_for_digits hw
  replace hbig := lt_of_lt_of_le hn hbig
  have hlast := varIntNumber_last (n / 128) (n % 128) (mod_lt _ (by decide)) rest
  rw [div_add_mod'] at hlast
  rw [writeVarInt, writeVarIntLoop_append, hroom, List.nil_append]
  simp only [writeVarIntLoop, digit_cast, Bool.false_eq_true, if_false, UInt8.or_zero]
  clear hroom hn
  split_ifs with hle
  · rw [div_eq_of_lt (by omega)] at hlast
    exact hlast
  · obtain ⟨hcast, hpred⟩ := carry_cast hle
    rw [hcast]
    cases room with
    | zero => simp at hbig; omega
    | succ room =>
      refine (varIntNumber_writeVarIntLoop room _ (carry_lt hbig) _).trans ?_
      rw [hpred, hlast]

lemma readVarInt_reads (hw : 0 < w) (hn : n < 2 ^ w) :
    Reads (readVarInt w) (writeVarInt w n) (BitVec.ofNat w n) := by
  intro rest
  exact (readVarIntLoop_eq 0 _).trans (by rw [varIntNumber_writeVarInt hw hn]; rfl)

/-- A byte below 128 stands for itself. -/
lemma readVarInt_reads_digit {b : UInt8} (hb : b.toNat < 128) :
    Reads (readVarInt w) [b] (BitVec.ofNat w b.toNat) := by
  intro rest
  have h := varIntNumber_last 0 b.toNat hb rest
  rw [UInt8.ofNat_toNat, zero_mul, zero_add] at h
  exact (readVarIntLoop_eq 0 _).trans (by rw [List.singleton_append, h]; rfl)

/-- A signed value that is not negative is read back into the signed type. -/
lemma readVarInt_reads_int32 {n : Int32} (hn : 0 ≤ n.toInt) :
    Reads (Int32.ofBitVec <$> readVarInt 32) (writeVarInt 32 n.toInt) n := by
  have hle : 0 ≤ n := by rwa [Int32.le_iff_toInt_le]
  have hcast : n.toInt = (n.toBitVec.toNat : Int) := by
    rw [Int32.toNat_toBitVec_of_le hle, Int32.toInt_eq_toNatClampNeg hle]
  rw [hcast]
  exact (readVarInt_reads (by decide) n.toBitVec.isLt).map (by simp)

/-- A negative value is written as its low seven bits. -/
lemma writeVarInt_of_neg {n : Int} (hw : 0 < w) (hn : n < 0) :
    writeVarInt w n = [UInt8.ofNat (n % 128).toNat] := by
  obtain ⟨room, hroom⟩ : ∃ room, (w + 6) / 7 = room + 1 := ⟨(w + 6) / 7 - 1, by omega⟩
  have hle : n ≤ 0x7F := by omega
  simp [writeVarInt, hroom, writeVarIntLoop, hle]

/-! ## One encoding for each number -/

/-- A number that fits `room` digits is written in `GetSizeOfVarInt` bytes, however large the
buffer is. -/
lemma writeVarIntLoop_room {room n : Nat} (hn : n < 128 ^ (room + 1)) (k : Nat) (more : Bool)
    (tmp : Bytes) :
    writeVarIntLoop (k + (room + 1)) n more tmp = writeVarIntLoop (room + 1) n more tmp ∧
    (writeVarIntLoop (room + 1) n more tmp).length = getSizeOfVarInt n + tmp.length := by
  induction room generalizing n more tmp with
  | zero =>
    have hle : n ≤ 0x7F := by omega
    rw [getSizeOfVarInt]
    simp [writeVarIntLoop, hle]
    omega
  | succ room ih =>
    rw [← add_assoc, writeVarIntLoop, writeVarIntLoop, getSizeOfVarInt]
    by_cases hle : (n : Int) ≤ 0x7F
    · have hle' : n ≤ 0x7F := by omega
      simp [hle, hle']
      omega
    · have hle' : ¬n ≤ 0x7F := by omega
      obtain ⟨hsame, hlength⟩ := ih (carry_lt hn) true
        ((UInt8.ofNat ((n : Int) % 128).toNat ||| (if more then 0x80 else 0)) :: tmp)
      simp only [hle, hle', if_false, (carry_cast hle).1]
      exact ⟨hsame, by rw [hlength, List.length_cons]; omega⟩

/-- `digits` is what the writer puts in front of a digit when the digits before it say `m`. -/
def Written (m : Nat) (digits : Bytes) : Prop :=
  (m = 0 ∧ digits = []) ∨ 0 < m ∧ ∀ room tmp,
    writeVarIntLoop (room + digits.length) ((m - 1 : Nat) : Int) true tmp = digits ++ tmp

lemma Written.writeVarIntLoop {m : Nat} {digits : Bytes} (h : Written m digits) {d : Nat}
    (hd : d < 128) (room : Nat) (more : Bool) (tmp : Bytes) :
    writeVarIntLoop (room + digits.length + 1) ((m * 128 + d : Nat) : Int) more tmp =
      digits ++ (UInt8.ofNat d ||| (if more then 0x80 else 0)) :: tmp := by
  rw [Jumpcoin.writeVarIntLoop, digit_cast, mul_add_mod_self_right, mod_eq_of_lt hd]
  rcases h with ⟨rfl, rfl⟩ | ⟨hm, h⟩
  · rw [if_pos (by omega), List.nil_append]
  · have hle : ¬((m * 128 + d : Nat) : Int) ≤ 0x7F := by omega
    have hcarry : ((m * 128 + d : Nat) : Int) / 128 - 1 = ((m - 1 : Nat) : Int) := by omega
    simp only [hle, if_false, hcarry]
    exact h room _

/-- Whatever bytes encode a number are the ones the writer produces for it. -/
lemma Written.of_varIntNumber {bytes digits : Bytes} {m n : Nat} (h : Written m digits)
    (hn : varIntNumber m bytes = some (n, [])) (room : Nat) :
    Jumpcoin.writeVarIntLoop (room + (digits ++ bytes).length) n false [] = digits ++ bytes := by
  induction bytes generalizing m digits with
  | nil => simp [varIntNumber] at hn
  | cons chData rest ih =>
    obtain ⟨hd, hbyte⟩ := digit_byte chData
    rw [varIntNumber] at hn
    split_ifs at hn with hmore
    · rw [if_pos hmore] at hbyte
      have hnext : Written (m * 128 + (chData &&& 0x7F).toNat + 1) (digits ++ [chData]) := by
        refine Or.inr ⟨by omega, fun room tmp => ?_⟩
        have hstep := h.writeVarIntLoop hd room true tmp
        rw [if_pos rfl, hbyte] at hstep
        simpa [← add_assoc] using hstep
      simpa using ih hnext hn
    · obtain ⟨rfl, rfl⟩ : _ = n ∧ rest = [] := by simpa using hn
      rw [if_neg hmore] at hbyte
      have hstep := h.writeVarIntLoop hd room false []
      simp only [Bool.false_eq_true, if_false, hbyte] at hstep
      simpa [← add_assoc] using hstep

lemma writeVarInt_of_varIntNumber {bytes : Bytes} (hw : 0 < w) (hfit : n < 2 ^ w)
    (hn : varIntNumber 0 bytes = some (n, [])) : writeVarInt w n = bytes := by
  obtain ⟨room, hroom, hbig⟩ := room_for_digits hw
  have hwritten : Written 0 [] := Or.inl ⟨rfl, rfl⟩
  have hlong := hwritten.of_varIntNumber hn (room + 1)
  rw [add_comm, (writeVarIntLoop_room (lt_of_lt_of_le hfit hbig) _ _ _).1] at hlong
  rw [writeVarInt, hroom, hlong, List.nil_append]

/-- Every value is written in `GetSizeOfVarInt` bytes and read back from them. Other bytes are read
as the same value exactly when the number they encode does not fit the type: the reader drops what
it shifts out of the word. -/
theorem readVarInt_unique (hw : 0 < w) (v : BitVec w) :
    (readVarInt w).run (writeVarInt w v.toNat) = some (v, []) ∧
    (writeVarInt w v.toNat).length = getSizeOfVarInt v.toNat ∧
    ∀ bytes, (readVarInt w).run bytes = some (v, []) →
      (bytes = writeVarInt w v.toNat ↔ ∃ n < 2 ^ w, (varIntNumber 0).run bytes = some (n, [])) := by
  obtain ⟨room, hroom, hbig⟩ := room_for_digits hw
  refine ⟨?_, ?_, fun bytes hread => ⟨?_, ?_⟩⟩
  · simpa using readVarInt_reads hw v.isLt []
  · rw [writeVarInt, hroom, (writeVarIntLoop_room (lt_of_lt_of_le v.isLt hbig) 0 _ _).2]
    rfl
  · rintro rfl
    have hn := varIntNumber_writeVarInt hw v.isLt []
    rw [List.append_nil] at hn
    exact ⟨v.toNat, v.isLt, hn⟩
  · rintro ⟨n, hfit, hn⟩
    have hsame := (readVarIntLoop_eq 0 bytes).symm.trans hread
    rw [show varIntNumber 0 bytes = _ from hn] at hsame
    obtain rfl : BitVec.ofNat w n = v := by simpa using hsame
    rw [BitVec.toNat_ofNat, mod_eq_of_lt hfit, writeVarInt_of_varIntNumber hw hfit hn]

theorem readVarInt_unique_word : 0 < 32 ∧
    (readVarInt 32).run (writeVarInt 32 (128#32).toNat) = some (128#32, []) :=
  ⟨by decide, (readVarInt_unique (by decide) 128#32).1⟩

/-- The bytes the format's comment gives for 2^32 are read as a 32-bit zero, which is written as one
byte. -/
theorem readVarInt_wraps :
    (readVarInt 32).run [0x8E, 0xFE, 0xFE, 0xFF, 0x00] = some (0, []) ∧
    writeVarInt 32 (0 : BitVec 32).toNat = [0x00] ∧
    (varIntNumber 0).run [0x8E, 0xFE, 0xFE, 0xFF, 0x00] = some (2 ^ 32, []) := by
  decide

end Jumpcoin
