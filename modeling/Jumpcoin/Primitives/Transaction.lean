import Jumpcoin.Foundation.Signed
import Jumpcoin.Serialize.Vector

/-!
# Transactions

The transaction types of `primitives/transaction.h`, the predicates that classify transactions
(coinbase, coinstake, unspendable output), the checked sum of the outputs, and the wire format.

The time field is written only below version 2, so the format is faithful on transactions in wire
form: those whose time is zero from version 2 on, as deserialization leaves them.
-/

namespace Jumpcoin

open Codec List

abbrev Uint256 := BitVec 256

instance : LawfulBEq Uint256 := inferInstance

abbrev CScript := Bytes

abbrev CAmount := Int64

def COIN : CAmount := 100000000

def CENT : CAmount := 1000000

def MAX_MONEY : CAmount := 9223372036854775807

def moneyRange (nValue : CAmount) : Bool :=
  decide (0 ≤ nValue) && decide (nValue ≤ MAX_MONEY)

/-- Every nonnegative amount is in range: the limit is the largest `int64_t`. -/
lemma moneyRange_iff (nValue : CAmount) : moneyRange nValue = true ↔ 0 ≤ nValue.toInt := by
  have hmax : nValue.toInt ≤ 9223372036854775807 := nValue.toInt_le
  simp only [moneyRange, MAX_MONEY, Bool.and_eq_true, decide_eq_true_eq, Int64.le_iff_toInt_le]
  exact ⟨fun h => h.1, fun h => ⟨h, hmax⟩⟩

/-! ## Data -/

/-- A transaction output, named by the transaction that holds it and its position there. -/
structure COutPoint where
  hash : Uint256
  n : UInt32
  deriving DecidableEq, Repr

def COutPoint.isNull (prevout : COutPoint) : Bool :=
  prevout.hash == 0 && prevout.n == 0xffffffff

structure CTxIn where
  prevout : COutPoint
  scriptSig : CScript
  nSequence : UInt32
  deriving DecidableEq, Repr

structure CTxOut where
  nValue : CAmount
  scriptPubKey : CScript
  deriving DecidableEq, Repr

namespace CTxOut

def OP_RETURN : UInt8 := 0x6a

/-- What `SetNull` leaves: the mark of a spent output. -/
def null : CTxOut := ⟨-1, []⟩

def isNull (txout : CTxOut) : Bool :=
  txout.nValue == -1

def isEmpty (txout : CTxOut) : Bool :=
  txout.nValue == 0 && txout.scriptPubKey.isEmpty

def isUnspendable (txout : CTxOut) : Bool :=
  txout.isEmpty || txout.scriptPubKey.head? == some OP_RETURN

@[simp] lemma isNull_null : null.isNull = true := rfl

end CTxOut

structure CTransaction where
  nVersion : Int32
  nTime : UInt32
  vin : List CTxIn
  vout : List CTxOut
  nLockTime : UInt32
  deriving DecidableEq, Repr

namespace CTransaction

def isNull (tx : CTransaction) : Bool :=
  tx.vin.isEmpty && tx.vout.isEmpty

def isCoinBase (tx : CTransaction) : Bool :=
  match tx.vin with
  | [txin] => txin.prevout.isNull
  | _ => false

/-- The coin stake transaction is marked with the first output empty. -/
def isCoinStake (tx : CTransaction) : Bool :=
  match tx.vin, tx.vout with
  | txin :: _, txout :: _ :: _ => !txin.prevout.isNull && txout.isEmpty
  | _, _ => false

lemma isCoinStake_eq_false_of_isCoinBase {tx : CTransaction} (h : tx.isCoinBase = true) :
    tx.isCoinStake = false := by
  unfold isCoinBase at h
  unfold isCoinStake
  grind

/-- The loop of `GetValueOut`; no value where the source throws. -/
def getValueOutLoop (words : Signed.Words) (nValueOut : CAmount) : List CTxOut → Option CAmount
  | [] => some nValueOut
  | txout :: rest =>
    let sum := words.add nValueOut txout.nValue
    if !moneyRange txout.nValue || !moneyRange sum then none else getValueOutLoop words sum rest

def getValueOut (words : Signed.Words) (tx : CTransaction) : Option CAmount :=
  getValueOutLoop words 0 tx.vout

end CTransaction

/-! ## Wire format -/

namespace COutPoint

def serialize (prevout : COutPoint) : Bytes :=
  writeUInt256 prevout.hash ++ writeUInt32 prevout.n

def unserialize : Reader COutPoint := do
  let hash ← readUInt256
  let n ← readUInt32
  pure ⟨hash, n⟩

lemma unserialize_reads (prevout : COutPoint) : Reads unserialize prevout.serialize prevout :=
  (readUInt256_reads _).bind ((readUInt32_reads _).bind_nil (Reads.pure _))

lemma serialize_delimits : Delimits serialize fun _ => True :=
  Reads.delimits fun prevout _ => unserialize_reads prevout

end COutPoint

namespace CTxIn

def serialize (txin : CTxIn) : Bytes :=
  txin.prevout.serialize ++ (writeByteVector txin.scriptSig ++ writeUInt32 txin.nSequence)

def unserialize : Reader CTxIn := do
  let prevout ← COutPoint.unserialize
  let scriptSig ← readByteVector
  let nSequence ← readUInt32
  pure ⟨prevout, scriptSig, nSequence⟩

lemma unserialize_reads {txin : CTxIn} (h : txin.scriptSig.length ≤ MAX_SIZE) :
    Reads unserialize txin.serialize txin :=
  (COutPoint.unserialize_reads _).bind <| (readByteVector_reads h).bind <|
    (readUInt32_reads _).bind_nil (Reads.pure _)

lemma serialize_delimits : Delimits serialize (·.scriptSig.length < 2 ^ 64) := by
  intro txin txin' h h' x y heq
  simp only [serialize, append_assoc] at heq
  obtain ⟨hprevout, heq⟩ := COutPoint.serialize_delimits trivial trivial heq
  obtain ⟨hscript, heq⟩ := writeByteVector_delimits h h' heq
  obtain ⟨hsequence, hrest⟩ := (readUInt32_reads _).unique (readUInt32_reads _) heq
  cases txin
  cases txin'
  subst hprevout hscript hsequence
  exact ⟨rfl, hrest⟩

end CTxIn

namespace CTxOut

def serialize (txout : CTxOut) : Bytes :=
  writeInt64 txout.nValue ++ writeByteVector txout.scriptPubKey

def unserialize : Reader CTxOut := do
  let nValue ← readInt64
  let scriptPubKey ← readByteVector
  pure ⟨nValue, scriptPubKey⟩

lemma unserialize_reads {txout : CTxOut} (h : txout.scriptPubKey.length ≤ MAX_SIZE) :
    Reads unserialize txout.serialize txout :=
  (readInt64_reads _).bind ((readByteVector_reads h).bind_nil (Reads.pure _))

lemma serialize_delimits : Delimits serialize (·.scriptPubKey.length < 2 ^ 64) := by
  intro txout txout' h h' x y heq
  simp only [serialize, append_assoc] at heq
  obtain ⟨hvalue, heq⟩ := (readInt64_reads _).unique (readInt64_reads _) heq
  obtain ⟨hscript, hrest⟩ := writeByteVector_delimits h h' heq
  cases txout
  cases txout'
  subst hvalue hscript
  exact ⟨rfl, hrest⟩

end CTxOut

namespace CTransaction

def serializeTime (nVersion : Int32) (nTime : UInt32) : Bytes :=
  if nVersion < 2 then writeUInt32 nTime else []

def unserializeTime (nVersion : Int32) : Reader UInt32 :=
  if nVersion < 2 then readUInt32 else pure 0

lemma unserializeTime_reads {nVersion : Int32} {nTime : UInt32} (h : ¬nVersion < 2 → nTime = 0) :
    Reads (unserializeTime nVersion) (serializeTime nVersion nTime) nTime := by
  unfold unserializeTime serializeTime
  split_ifs with hv
  · exact readUInt32_reads nTime
  · rw [h hv]
    exact Reads.pure 0

def serialize (tx : CTransaction) : Bytes :=
  writeInt32 tx.nVersion ++ (serializeTime tx.nVersion tx.nTime ++
    (writeVector CTxIn.serialize tx.vin ++ (writeVector CTxOut.serialize tx.vout ++
      writeUInt32 tx.nLockTime)))

def unserialize : Reader CTransaction := do
  let nVersion ← readInt32
  let nTime ← unserializeTime nVersion
  let vin ← readVector CTxIn.unserialize
  let vout ← readVector CTxOut.unserialize
  let nLockTime ← readUInt32
  pure ⟨nVersion, nTime, vin, vout, nLockTime⟩

/-- A transaction as deserialization can produce it: every length fits the format, and the time is
zero from version 2 on. -/
structure WireForm (tx : CTransaction) : Prop where
  time : ¬tx.nVersion < 2 → tx.nTime = 0
  vin : tx.vin.length ≤ MAX_SIZE
  scriptSig : ∀ txin ∈ tx.vin, txin.scriptSig.length ≤ MAX_SIZE
  vout : tx.vout.length ≤ MAX_SIZE
  scriptPubKey : ∀ txout ∈ tx.vout, txout.scriptPubKey.length ≤ MAX_SIZE

instance (tx : CTransaction) : Decidable tx.WireForm :=
  decidable_of_iff
    ((¬tx.nVersion < 2 → tx.nTime = 0) ∧ tx.vin.length ≤ MAX_SIZE ∧
      (∀ txin ∈ tx.vin, txin.scriptSig.length ≤ MAX_SIZE) ∧ tx.vout.length ≤ MAX_SIZE ∧
      ∀ txout ∈ tx.vout, txout.scriptPubKey.length ≤ MAX_SIZE)
    ⟨fun h => ⟨h.1, h.2.1, h.2.2.1, h.2.2.2.1, h.2.2.2.2⟩,
      fun h => ⟨h.time, h.vin, h.scriptSig, h.vout, h.scriptPubKey⟩⟩

lemma unserialize_reads {tx : CTransaction} (h : tx.WireForm) :
    Reads unserialize tx.serialize tx := by
  have hvin := readVector_reads (f := id) h.vin fun txin ht =>
    CTxIn.unserialize_reads (h.scriptSig txin ht)
  have hvout := readVector_reads (f := id) h.vout fun txout ht =>
    CTxOut.unserialize_reads (h.scriptPubKey txout ht)
  rw [map_id] at hvin hvout
  exact (readInt32_reads _).bind <| (unserializeTime_reads h.time).bind <| hvin.bind <|
    hvout.bind <| (readUInt32_reads _).bind_nil (Reads.pure _)

/-- Transactions in wire form with the same bytes are the same. -/
lemma serialize_injective {tx tx' : CTransaction} (h : tx.WireForm) (h' : tx'.WireForm)
    (heq : tx.serialize = tx'.serialize) : tx = tx' :=
  (unserialize_reads h).det (heq ▸ unserialize_reads h')

/-- The sizes that the types in memory allow: positions in the vectors are counted in
`unsigned int`, and so are the bytes of a script. -/
structure Countable (tx : CTransaction) : Prop where
  vin : tx.vin.length < 2 ^ 32
  scriptSig : ∀ txin ∈ tx.vin, txin.scriptSig.length < 2 ^ 32
  vout : tx.vout.length < 2 ^ 32
  scriptPubKey : ∀ txout ∈ tx.vout, txout.scriptPubKey.length < 2 ^ 32

/-- A transaction as it is known to whoever reads it: without a time that is not written. -/
def onWire (tx : CTransaction) : CTransaction :=
  { tx with nTime := if tx.nVersion < 2 then tx.nTime else 0 }

lemma unserializeTime_recovers (nVersion : Int32) (nTime : UInt32) :
    Recovers (unserializeTime nVersion) (serializeTime nVersion nTime)
      (if nVersion < 2 then nTime else 0) := by
  unfold unserializeTime serializeTime
  split_ifs
  · exact (readUInt32_reads nTime).recovers
  · exact Recovers.pure 0

lemma unserialize_recovers {tx : CTransaction} (h : tx.Countable) :
    Recovers unserialize tx.serialize tx.onWire := by
  have hin (txin : CTxIn) (ht : txin ∈ tx.vin) :
      Recovers CTxIn.unserialize txin.serialize (id txin) :=
    (COutPoint.unserialize_reads _).recovers.bind <|
      (readByteVector_recovers ((h.scriptSig txin ht).trans (by decide))).bind <|
        (readUInt32_reads _).recovers.bind_nil (Recovers.pure _)
  have hout (txout : CTxOut) (ht : txout ∈ tx.vout) :
      Recovers CTxOut.unserialize txout.serialize (id txout) :=
    (readInt64_reads _).recovers.bind <|
      (readByteVector_recovers ((h.scriptPubKey txout ht).trans (by decide))).bind_nil
        (Recovers.pure _)
  have hvin := readVector_recovers (h.vin.trans (by decide)) hin
  have hvout := readVector_recovers (h.vout.trans (by decide)) hout
  rw [map_id] at hvin hvout
  exact (readInt32_reads _).recovers.bind <| (unserializeTime_recovers _ _).bind <| hvin.bind <|
    hvout.bind <| (readUInt32_reads _).recovers.bind_nil (Recovers.pure _)

/-- The bytes of a transaction determine all of it but a time that is not written. -/
lemma serialize_determines {tx tx' : CTransaction} (h : tx.Countable)
    (h' : tx'.Countable) {x y : Bytes} (heq : tx.serialize ++ x = tx'.serialize ++ y) :
    tx.nVersion = tx'.nVersion ∧ (tx.nVersion < 2 → tx.nTime = tx'.nTime) ∧ tx.vin = tx'.vin ∧
      tx.vout = tx'.vout ∧ tx.nLockTime = tx'.nLockTime ∧ x = y := by
  have hvin : ∀ {tx : CTransaction}, tx.Countable →
      tx.vin.length < 2 ^ 64 ∧ ∀ txin ∈ tx.vin, txin.scriptSig.length < 2 ^ 64 := fun h =>
    ⟨h.vin.trans (by decide), fun txin ht => (h.scriptSig txin ht).trans (by decide)⟩
  have hvout : ∀ {tx : CTransaction}, tx.Countable →
      tx.vout.length < 2 ^ 64 ∧ ∀ txout ∈ tx.vout, txout.scriptPubKey.length < 2 ^ 64 := fun h =>
    ⟨h.vout.trans (by decide), fun txout ht => (h.scriptPubKey txout ht).trans (by decide)⟩
  have htime : ∀ {nVersion : Int32} {nTime nTime' : UInt32} {x y : Bytes},
      serializeTime nVersion nTime ++ x = serializeTime nVersion nTime' ++ y →
        (nVersion < 2 → nTime = nTime') ∧ x = y := by
    intro nVersion nTime nTime' x y heq
    unfold serializeTime at heq
    split_ifs at heq with hv
    · obtain ⟨htime, hrest⟩ := (readUInt32_reads _).unique (readUInt32_reads _) heq
      exact ⟨fun _ => htime, hrest⟩
    · exact ⟨fun h => absurd h hv, heq⟩
  simp only [serialize, append_assoc] at heq
  obtain ⟨hversion, heq⟩ := (readInt32_reads _).unique (readInt32_reads _) heq
  rw [← hversion] at heq
  obtain ⟨htime, heq⟩ := htime heq
  obtain ⟨hins, heq⟩ := writeVector_delimits CTxIn.serialize_delimits (hvin h) (hvin h') heq
  obtain ⟨houts, heq⟩ := writeVector_delimits CTxOut.serialize_delimits (hvout h) (hvout h') heq
  obtain ⟨hlock, heq⟩ := (readUInt32_reads _).unique (readUInt32_reads _) heq
  exact ⟨hversion, htime, hins, houts, hlock, heq⟩

def getSerializeSize (tx : CTransaction) : Nat :=
  tx.serialize.length

lemma outputs_length_le (tx : CTransaction) :
    (tx.vout.flatMap CTxOut.serialize).length ≤ tx.getSerializeSize := by
  simp only [getSerializeSize, serialize, writeVector, length_append]
  omega

/-- Values that take at least a byte each take at least as many bytes as there are values. -/
lemma length_le_length_flatMap {α : Type} {write : α → Bytes} (h : ∀ a, 1 ≤ (write a).length)
    (l : List α) : l.length ≤ (l.flatMap write).length := by
  rw [length_flatMap]
  refine le_of_eq_of_le (length_map _).symm (length_le_sum_of_one_le _ ?_)
  intro n hn
  obtain ⟨a, -, rfl⟩ := mem_map.mp hn
  exact h a

/-- Every output takes room in the transaction. -/
lemma vout_length_le (tx : CTransaction) : tx.vout.length ≤ tx.getSerializeSize := by
  refine le_trans (length_le_length_flatMap (fun txout => ?_) tx.vout) tx.outputs_length_le
  simp only [CTxOut.serialize, writeInt64, length_append, length_littleEndian]
  omega

lemma vin_length_le (tx : CTransaction) : tx.vin.length ≤ tx.getSerializeSize := by
  have hbytes : (tx.vin.flatMap CTxIn.serialize).length ≤ tx.getSerializeSize := by
    simp only [getSerializeSize, serialize, writeVector, length_append]
    omega
  refine le_trans (length_le_length_flatMap (fun txin => ?_) tx.vin) hbytes
  simp only [CTxIn.serialize, length_append, length_writeUInt32]
  omega

lemma script_length_le {tx : CTransaction} {txout : CTxOut} (h : txout ∈ tx.vout) :
    txout.scriptPubKey.length ≤ tx.getSerializeSize := by
  refine le_trans ?_ tx.outputs_length_le
  rw [length_flatMap]
  refine le_trans ?_ (le_sum_of_mem (mem_map_of_mem h))
  simp only [CTxOut.serialize, writeByteVector, length_append]
  omega

end CTransaction

end Jumpcoin
