import Jumpcoin.Foundation.Codec

/-!
# Integers and vectors on the wire

The serializers of `serialize.h` for fixed-width integers, for the compact size that stands in
front of every vector, and for vectors themselves. Each writer comes with the reader of the
same format and the statement that the reader undoes it.
-/

namespace Jumpcoin

open Codec

/-! ## Fixed-width integers -/

def writeUInt32 (n : UInt32) : Bytes :=
  littleEndian 4 n.toNat

def readUInt32 : Reader UInt32 :=
  UInt32.ofNat <$> readLittleEndian 4

lemma readUInt32_reads (n : UInt32) : Reads readUInt32 (writeUInt32 n) n :=
  (readLittleEndian_reads n.toNat_lt).map (by simp)

@[simp] lemma length_writeUInt32 (n : UInt32) : (writeUInt32 n).length = 4 :=
  length_littleEndian _ _

def writeUInt16 (n : UInt16) : Bytes := littleEndian 2 n.toNat

def readUInt16 : Reader UInt16 := UInt16.ofNat <$> readLittleEndian 2

lemma readUInt16_reads (n : UInt16) : Reads readUInt16 (writeUInt16 n) n :=
  (readLittleEndian_reads n.toNat_lt).map (by simp)

def writeUInt64 (n : UInt64) : Bytes := littleEndian 8 n.toNat

def readUInt64 : Reader UInt64 := UInt64.ofNat <$> readLittleEndian 8

lemma readUInt64_reads (n : UInt64) : Reads readUInt64 (writeUInt64 n) n :=
  (readLittleEndian_reads n.toNat_lt).map (by simp)

def writeInt32 (n : Int32) : Bytes :=
  writeUInt32 n.toUInt32

def readInt32 : Reader Int32 :=
  UInt32.toInt32 <$> readUInt32

lemma readInt32_reads (n : Int32) : Reads readInt32 (writeInt32 n) n :=
  (readUInt32_reads n.toUInt32).map (by simp)

def writeInt64 (n : Int64) : Bytes :=
  littleEndian 8 n.toUInt64.toNat

def readInt64 : Reader Int64 :=
  (fun n => (UInt64.ofNat n).toInt64) <$> readLittleEndian 8

lemma readInt64_reads (n : Int64) : Reads readInt64 (writeInt64 n) n :=
  (readLittleEndian_reads n.toUInt64.toNat_lt).map (by simp)

def writeUInt256 (n : BitVec 256) : Bytes :=
  littleEndian 32 n.toNat

def readUInt256 : Reader (BitVec 256) :=
  BitVec.ofNat 256 <$> readLittleEndian 32

lemma readUInt256_reads (n : BitVec 256) : Reads readUInt256 (writeUInt256 n) n :=
  (readLittleEndian_reads n.isLt).map (by simp)

/-! ## Compact sizes -/

def MAX_SIZE : Nat := 0x02000000

def writeCompactSize (nSize : Nat) : Bytes :=
  if nSize < 253 then littleEndian 1 nSize
  else if nSize ≤ 0xffff then 253 :: littleEndian 2 nSize
  else if nSize ≤ 0xffffffff then 254 :: littleEndian 4 nSize
  else 255 :: littleEndian 8 nSize

/-- The value of a compact size whose first byte is known, before the size limit. -/
def readCompactSizeTail (chSize : UInt8) : Reader Nat :=
  if chSize < 253 then pure chSize.toNat
  else if chSize = 253 then do
    let nSizeRet ← readLittleEndian 2
    ensure (253 ≤ nSizeRet)
    pure nSizeRet
  else if chSize = 254 then do
    let nSizeRet ← readLittleEndian 4
    ensure (0x10000 ≤ nSizeRet)
    pure nSizeRet
  else do
    let nSizeRet ← readLittleEndian 8
    ensure (0x100000000 ≤ nSizeRet)
    pure nSizeRet

def readCompactSize : Reader Nat := do
  let chSize ← readByte
  let nSizeRet ← readCompactSizeTail chSize
  ensure (nSizeRet ≤ MAX_SIZE)
  pure nSizeRet

/-- A length read back after the bytes that carry it, when it is canonical. -/
lemma readLength_reads {k n least : Nat} (hn : n < 256 ^ k) (hl : least ≤ n) :
    Reads (do let m ← readLittleEndian k; ensure (least ≤ m); pure m) (littleEndian k n) n :=
  (readLittleEndian_reads hn).bind_nil
    ((ensure_reads (by simpa using hl)).nil_bind (Reads.pure n))

/-- The first byte of a compact size selects the branch that reads the rest. -/
lemma writeCompactSize_cases {n : Nat} (h : n < 2 ^ 64) :
    ∃ chSize tail, writeCompactSize n = chSize :: tail ∧
      Reads (readCompactSizeTail chSize) tail n := by
  unfold writeCompactSize
  split_ifs with h1 h2 h3
  · refine ⟨UInt8.ofNat (n % 256), [], rfl, ?_⟩
    have hn : (UInt8.ofNat (n % 256)).toNat = n := by
      rw [UInt8.toNat_ofNat']
      omega
    have hlt : UInt8.ofNat (n % 256) < 253 := by
      rw [UInt8.lt_iff_toNat_lt, hn]
      exact h1
    simp only [readCompactSizeTail, hlt, if_true, hn]
    exact Reads.pure n
  · exact ⟨253, _, rfl, readLength_reads (by omega) (by omega)⟩
  · exact ⟨254, _, rfl, readLength_reads (by omega) (by omega)⟩
  · exact ⟨255, _, rfl, readLength_reads (by omega) (by omega)⟩

lemma readCompactSize_reads {n : Nat} (h : n ≤ MAX_SIZE) :
    Reads readCompactSize (writeCompactSize n) n := by
  have h64 : n < 2 ^ 64 := lt_of_le_of_lt h (by decide)
  obtain ⟨chSize, tail, hw, ht⟩ := writeCompactSize_cases h64
  rw [hw]
  exact (readByte_reads chSize).bind <|
    ht.bind_nil ((ensure_reads (by simpa using h)).nil_bind (Reads.pure n))

/-- A compact size above the size limit is not read as another one. -/
lemma readCompactSize_recovers {n : Nat} (h : n < 2 ^ 64) :
    Recovers readCompactSize (writeCompactSize n) n := by
  obtain ⟨chSize, tail, hw, ht⟩ := writeCompactSize_cases h
  rw [hw]
  exact (readByte_reads chSize).recovers.bind <|
    ht.recovers.bind_nil ((ensure_recovers _).nil_bind (Recovers.pure n))

/-- A compact size shows where it ends, also above the size limit. -/
lemma writeCompactSize_delimits : Delimits writeCompactSize (· < 2 ^ 64) := by
  refine Reads.delimits (r := readByte >>= readCompactSizeTail) fun n hn => ?_
  obtain ⟨chSize, tail, hw, ht⟩ := writeCompactSize_cases hn
  rw [hw]
  exact (readByte_reads chSize).bind ht

/-! ## Vectors -/

variable {α β : Type} {write : α → Bytes} {read : Reader α} {v : Bytes}

def writeVector (write : α → Bytes) (v : List α) : Bytes :=
  writeCompactSize v.length ++ v.flatMap write

def readVector (read : Reader α) : Reader (List α) := do
  let nSize ← readCompactSize
  readMany read nSize

lemma readVector_reads {write : β → Bytes} {v : List β} {f : β → α}
    (hv : v.length ≤ MAX_SIZE) (h : ∀ x ∈ v, Reads read (write x) (f x)) :
    Reads (readVector read) (writeVector write v) (v.map f) :=
  (readCompactSize_reads hv).bind (readMany_reads v h)

lemma readVector_recovers {v : List α} {f : α → α}
    (hv : v.length < 2 ^ 64) (h : ∀ x ∈ v, Recovers read (write x) (f x)) :
    Recovers (readVector read) (writeVector write v) (v.map f) :=
  (readCompactSize_recovers hv).bind (readMany_recovers v h)

lemma writeVector_delimits {P : α → Prop} (h : Delimits write P) :
    Delimits (writeVector write) fun v => v.length < 2 ^ 64 ∧ ∀ a ∈ v, P a := by
  intro v w hv hw x y heq
  simp only [writeVector, List.append_assoc] at heq
  obtain ⟨hlen, heq⟩ := writeCompactSize_delimits hv.1 hw.1 heq
  exact h.flatMap hlen hv.2 hw.2 heq

/-- A byte vector is stored as one opaque block. -/
def writeByteVector (v : Bytes) : Bytes :=
  writeCompactSize v.length ++ v

def readByteVector : Reader Bytes := do
  let nSize ← readCompactSize
  readBytes nSize

lemma readByteVector_reads (hv : v.length ≤ MAX_SIZE) :
    Reads readByteVector (writeByteVector v) v :=
  (readCompactSize_reads hv).bind (readBytes_reads rfl)

lemma readByteVector_recovers (hv : v.length < 2 ^ 64) :
    Recovers readByteVector (writeByteVector v) v :=
  (readCompactSize_recovers hv).bind (readBytes_reads rfl).recovers

lemma writeByteVector_delimits : Delimits writeByteVector (·.length < 2 ^ 64) := by
  intro v w hv hw x y heq
  simp only [writeByteVector, List.append_assoc] at heq
  obtain ⟨hlen, heq⟩ := writeCompactSize_delimits hv hw heq
  exact List.append_inj heq hlen

end Jumpcoin
