import Jumpcoin.Coins.Format
import Jumpcoin.Coins.View
import Jumpcoin.Primitives.Block

/-!
# Undo records

`UpdateCoins` of `main.cpp` spends the inputs of a transaction and adds its outputs, and leaves what
is needed to take it back: the spent outputs, and for the last output of a record also the data of
the record (`undo.h`).

The format keeps an undo record exactly if the height leaves room for the two flags in a 32-bit
word, the version is not negative, the time is zero where it is not written, and the output survives
its own compression. A reader that gives the record back at all has consumed
exactly its bytes, so the same holds for whole blocks (`CBlockUndo.unserialize_reads_iff`).
-/

namespace Jumpcoin

open Codec Option

/-- Undo information for an input: the output spent, and the data of its record if it was the last
one. -/
structure CTxInUndo where
  txout : CTxOut
  fCoinBase : Bool
  fCoinStake : Bool
  nHeight : UInt32
  nVersion : Int32
  nTime : UInt32
  deriving DecidableEq, Repr

structure CTxUndo where
  vprevout : List CTxInUndo
  deriving DecidableEq, Repr

/-- Undo information for a block, for all transactions but the coinbase. -/
structure CBlockUndo where
  vtxundo : List CTxUndo
  deriving DecidableEq, Repr

/-! ## Spending -/

/-- One spent output: the record it belongs to and its position there. -/
structure SpentOutput where
  coins : CCoins
  nPos : Nat
  txout : CTxOut
  /-- the record after the spend -/
  left : CCoins
  deriving DecidableEq, Repr

namespace SpentOutput

def undo (s : SpentOutput) : CTxInUndo :=
  if s.left.vout.isEmpty then
    ⟨s.txout, s.left.fCoinBase, s.left.fCoinStake, s.left.nHeight.toUInt32, s.left.nVersion,
      s.left.nTime⟩
  else ⟨s.txout, false, false, 0, 0, 0⟩

end SpentOutput

namespace CCoinsViewCache

/-- Spend one input; no value where the source asserts that the output is unspent. -/
def spendInput (view : CCoinsViewCache) (txin : CTxIn) :
    Option (SpentOutput × CCoinsViewCache) := do
  let coins := view.modifyCoins txin.prevout.hash
  let nPos := txin.prevout.n.toNat
  let txout ← coins.vout[nPos]?
  let left ← coins.spend nPos
  some (⟨coins, nPos, txout, left⟩, view.setCoins txin.prevout.hash left)

def spendInputs (view : CCoinsViewCache) : List CTxIn →
    Option (List SpentOutput × CCoinsViewCache)
  | [] => some ([], view)
  | txin :: vin => do
    let (s, view') ← view.spendInput txin
    let (rest, view'') ← spendInputs view' vin
    some (s :: rest, view'')

def spendTx (view : CCoinsViewCache) (tx : CTransaction) :
    Option (List SpentOutput × CCoinsViewCache) :=
  if tx.isCoinBase then some ([], view) else view.spendInputs tx.vin

/-- `UpdateCoins`: spend the inputs, leaving undo information, and add the outputs. -/
def updateCoins (hashes : Hashes) (view : CCoinsViewCache) (tx : CTransaction) (nHeight : Nat) :
    Option (CTxUndo × CCoinsViewCache) := do
  let (spent, view') ← view.spendTx tx
  some (⟨spent.map SpentOutput.undo⟩,
    view'.setCoins (tx.getHash hashes) (CCoins.fromTx tx (Int32.ofNat nHeight)))

end CCoinsViewCache

/-! ## The format -/

namespace CTxInUndo

/-- The height with the two flags, in unsigned 32-bit arithmetic. -/
def code (undo : CTxInUndo) : UInt32 :=
  undo.nHeight * 4 + (if undo.fCoinBase then 1 else 0) + (if undo.fCoinStake then 2 else 0)

def serializeVersion (undo : CTxInUndo) : Bytes :=
  if 0 < undo.nHeight then writeVarInt 32 undo.nVersion.toInt else []

def unserializeVersion (nHeight : UInt32) : Reader Int32 :=
  if 0 < nHeight then Int32.ofBitVec <$> readVarInt 32 else pure 0

def serialize (lib : PubKeyLib) (undo : CTxInUndo) : Bytes :=
  writeVarInt 32 undo.code.toNat ++ (undo.serializeVersion ++
    (CTransaction.serializeTime undo.nVersion undo.nTime ++ serializeTxOut lib undo.txout))

def unserialize (lib : PubKeyLib) : Reader CTxInUndo := do
  let nCode ← UInt32.ofBitVec <$> readVarInt 32
  let nVersion ← unserializeVersion (nCode / 4)
  let nTime ← CTransaction.unserializeTime nVersion
  let txout ← unserializeTxOut lib
  pure ⟨txout, CCoins.bit nCode.toNat 0, CCoins.bit nCode.toNat 1, nCode / 4, nVersion, nTime⟩

def MetaKept (undo : CTxInUndo) : Prop :=
  (undo.nHeight = 0 ∧ undo.nVersion = 0) ∨
    (0 < undo.nHeight ∧ undo.nHeight.toNat < 2 ^ 30 ∧ 0 ≤ undo.nVersion.toInt ∧
      (¬undo.nVersion < 2 → undo.nTime = 0))

instance (undo : CTxInUndo) : Decidable undo.MetaKept :=
  inferInstanceAs (Decidable (_ ∨ _))

end CTxInUndo

namespace CTxUndo

def serialize (lib : PubKeyLib) (txundo : CTxUndo) : Bytes :=
  writeVector (CTxInUndo.serialize lib) txundo.vprevout

def unserialize (lib : PubKeyLib) : Reader CTxUndo :=
  CTxUndo.mk <$> readVector (CTxInUndo.unserialize lib)

end CTxUndo

namespace CBlockUndo

def serialize (lib : PubKeyLib) (blockundo : CBlockUndo) : Bytes :=
  writeVector (CTxUndo.serialize lib) blockundo.vtxundo

def unserialize (lib : PubKeyLib) : Reader CBlockUndo :=
  CBlockUndo.mk <$> readVector (CTxUndo.unserialize lib)

/-- `UndoWriteToDisk`: the record and a checksum over it and the hash of the previous block. -/
def checksum (hashes : Hashes) (lib : PubKeyLib) (hashBlock : Uint256) (blockundo : CBlockUndo) :
    Uint256 :=
  hashes.hash256 (writeUInt256 hashBlock ++ blockundo.serialize lib)

def undoWriteToDisk (hashes : Hashes) (lib : PubKeyLib) (blockundo : CBlockUndo)
    (hashBlock : Uint256) : Bytes :=
  blockundo.serialize lib ++ writeUInt256 (blockundo.checksum hashes lib hashBlock)

/-- `UndoReadFromDisk` at the position of a record; no value where the source returns false. -/
def undoReadFromDisk (hashes : Hashes) (lib : PubKeyLib) (file : Bytes) (hashBlock : Uint256) :
    Option CBlockUndo := do
  let (blockundo, rest) ← (unserialize lib).run file
  let (hashChecksum, _) ← readUInt256.run rest
  if hashChecksum = blockundo.checksum hashes lib hashBlock then some blockundo else none

end CBlockUndo

/-! ## What the format keeps -/

namespace CTxInUndo

variable {lib : PubKeyLib} {undo : CTxInUndo} {rest rem : Bytes}

lemma code_toNat (undo : CTxInUndo) :
    undo.code.toNat = (undo.nHeight.toNat * 4 + (if undo.fCoinBase then 1 else 0) +
      (if undo.fCoinStake then 2 else 0)) % 2 ^ 32 := by
  unfold code
  cases undo.fCoinBase <;> cases undo.fCoinStake <;> simp [UInt32.toNat_add, UInt32.toNat_mul]

lemma readCode_reads (undo : CTxInUndo) :
    Reads (UInt32.ofBitVec <$> readVarInt 32) (writeVarInt 32 undo.code.toNat) undo.code :=
  (readVarInt_reads (by decide) undo.code.toNat_lt).map (by apply UInt32.toNat_inj.mp; simp)

/-- The height comes back from the code exactly if it leaves room for the flags. -/
lemma code_div (undo : CTxInUndo) : undo.code / 4 = undo.nHeight ↔ undo.nHeight.toNat < 2 ^ 30 := by
  rw [← UInt32.toNat_inj, UInt32.toNat_div, code_toNat]
  have h4 : (4 : UInt32).toNat = 4 := rfl
  rw [h4]
  cases undo.fCoinBase <;> cases undo.fCoinStake <;> simp <;> omega

lemma code_flags (undo : CTxInUndo) :
    CCoins.bit undo.code.toNat 0 = undo.fCoinBase ∧
      CCoins.bit undo.code.toNat 1 = undo.fCoinStake := by
  rw [code_toNat]
  cases undo.fCoinBase <;> cases undo.fCoinStake <;> simp [CCoins.bit] <;> omega

lemma unserializeVersion_reads (h : undo.MetaKept) :
    Reads (unserializeVersion undo.nHeight) undo.serializeVersion undo.nVersion := by
  unfold unserializeVersion serializeVersion
  rcases h with ⟨hheight, hversion⟩ | ⟨hheight, -, hversion, -⟩
  · rw [hheight, if_neg (by decide), if_neg (by decide), hversion]
    exact Reads.pure 0
  · rw [if_pos hheight, if_pos hheight]
    exact readVarInt_reads_int32 hversion

/-- A record that the format keeps is read back. -/
lemma unserialize_reads (h : undo.MetaKept) (hout : restoreTxOut undo.txout = undo.txout) :
    Reads (unserialize lib) (undo.serialize lib) undo := by
  have hlt : undo.nHeight.toNat < 2 ^ 30 := by
    rcases h with ⟨h0, -⟩ | ⟨-, hlt, -, -⟩
    · simp [h0]
    · exact hlt
  have htime : ¬undo.nVersion < 2 → undo.nTime = 0 := by
    rcases h with ⟨-, h0⟩ | ⟨-, -, -, ht⟩
    · rw [h0]
      exact fun hv => absurd (by decide) hv
    · exact ht
  have hscript : undo.txout.scriptPubKey.length ≤ MAX_SCRIPT_SIZE :=
    restoreScript_eq_self.mp (congrArg CTxOut.scriptPubKey hout)
  have htxout : Reads (unserializeTxOut lib) (serializeTxOut lib undo.txout) undo.txout := by
    have hread := @unserializeTxOut_reads undo.txout lib
      (by unfold MAX_SCRIPT_SIZE at hscript; unfold nSpecialScripts; omega)
    rwa [hout] at hread
  refine (readCode_reads undo).bind ?_
  rw [(code_div undo).mpr hlt, (code_flags undo).1, (code_flags undo).2]
  exact (unserializeVersion_reads h).bind <|
    (CTransaction.unserializeTime_reads htime).bind <| htxout.bind_nil (Reads.pure _)

/-- An output that is given back is one that compression keeps. -/
lemma restoreTxOut_of_run {txout : CTxOut}
    (h : (unserializeTxOut lib).run (serializeTxOut lib txout ++ rest) = some (txout, rem)) :
    restoreTxOut txout = txout := by
  have hscript : txout.scriptPubKey.length ≤ MAX_SCRIPT_SIZE := by
    simp only [unserializeTxOut, run_bind_eq_some, run_pure_eq_some] at h
    obtain ⟨_, _, -, script, _, hrun, rfl, -⟩ := h
    exact length_le_of_unserializeScript hrun
  have hread := @unserializeTxOut_reads txout lib
    (by unfold MAX_SCRIPT_SIZE at hscript; unfold nSpecialScripts; omega) rest
  rw [h] at hread
  exact (Prod.mk.inj (some.inj hread)).1.symm

/-- The version read after the code, and what follows it. -/
lemma version_of_run {α : Type} {f : Int32 → Reader α} {a : α}
    (hf : ∀ nVersion bs, (f nVersion).run bs = some (a, rem) → nVersion = undo.nVersion)
    (h : (unserializeVersion undo.nHeight >>= f).run (undo.serializeVersion ++ rest) =
      some (a, rem)) :
    (undo.nHeight = 0 ∧ undo.nVersion = 0 ∨ 0 < undo.nHeight ∧ 0 ≤ undo.nVersion.toInt) ∧
      (f undo.nVersion).run rest = some (a, rem) := by
  unfold unserializeVersion serializeVersion at h
  split_ifs at h with hheight
  · by_cases hneg : 0 ≤ undo.nVersion.toInt
    · rw [(readVarInt_reads_int32 hneg).run_bind] at h
      exact ⟨.inr ⟨hheight, hneg⟩, h⟩
    · -- a negative version comes back as one digit
      have hlow : (undo.nVersion.toInt % 128).toNat < 128 := by omega
      have hdigit : (UInt8.ofNat (undo.nVersion.toInt % 128).toNat).toNat =
          (undo.nVersion.toInt % 128).toNat := UInt8.toNat_ofNat_of_lt (hlow.trans (by decide))
      have hread : Reads (Int32.ofBitVec <$> readVarInt 32)
          [UInt8.ofNat (undo.nVersion.toInt % 128).toNat] _ :=
        (readVarInt_reads_digit (by omega)).map rfl
      rw [writeVarInt_of_neg (by decide) (by omega), hread.run_bind, hdigit] at h
      have hint : undo.nVersion.toInt = (undo.nVersion.toInt % 128).toNat :=
        (congrArg Int32.toInt (hf _ _ h).symm).trans
          (Int32.toInt_ofNat_of_lt (hlow.trans (by decide)))
      omega
  · have hzero : undo.nHeight = 0 := by
      rw [UInt32.not_lt] at hheight
      exact UInt32.le_zero_iff.mp hheight
    have hv : 0 = undo.nVersion := hf _ _ h
    rw [← hv]
    exact ⟨.inl ⟨hzero, rfl⟩, h⟩

/-- A record that is given back is one that the format keeps. -/
lemma kept_of_run (h : (unserialize lib).run (undo.serialize lib ++ rest) = some (undo, rem)) :
    undo.MetaKept ∧ restoreTxOut undo.txout = undo.txout := by
  rw [unserialize, serialize, List.append_assoc, (readCode_reads undo).run_bind] at h
  have hheight : undo.code / 4 = undo.nHeight := by
    simp only [run_bind_eq_some, run_pure_eq_some] at h
    obtain ⟨_, _, -, _, _, -, _, _, -, heq, -⟩ := h
    exact congrArg CTxInUndo.nHeight heq
  have hlt := (code_div undo).mp hheight
  rw [hheight, (code_flags undo).1, (code_flags undo).2, List.append_assoc] at h
  obtain ⟨hversion, h⟩ := version_of_run (fun nVersion bs hrun => by
    simp only [run_bind_eq_some, run_pure_eq_some] at hrun
    obtain ⟨_, _, -, _, _, -, heq, -⟩ := hrun
    exact congrArg CTxInUndo.nVersion heq) h
  rw [List.append_assoc, (CCoins.unserializeTime_reads_restored _ _).run_bind] at h
  simp only [run_bind_eq_some, run_pure_eq_some] at h
  obtain ⟨txout, _, hrun, heq, rfl⟩ := h
  have htime : (if undo.nVersion < 2 then undo.nTime else 0) = undo.nTime :=
    congrArg CTxInUndo.nTime heq
  obtain rfl : txout = undo.txout := congrArg CTxInUndo.txout heq
  refine ⟨?_, restoreTxOut_of_run hrun⟩
  rcases hversion with hzero | ⟨hpos, hneg⟩
  · exact .inl hzero
  · exact .inr ⟨hpos, hlt, hneg, fun hv => by rw [← htime, if_neg hv]⟩

end CTxInUndo

namespace CTxUndo

variable {lib : PubKeyLib} {txundo : CTxUndo}

lemma unserialize_reads (hlen : txundo.vprevout.length ≤ MAX_SIZE)
    (h : ∀ undo ∈ txundo.vprevout, Reads (CTxInUndo.unserialize lib) (undo.serialize lib) undo) :
    Reads (unserialize lib) (txundo.serialize lib) txundo := by
  have hvec := readVector_reads (f := id) hlen h
  rw [List.map_id] at hvec
  exact hvec.map rfl

lemma reads_of_run (hlen : txundo.vprevout.length ≤ MAX_SIZE) {rest rem : Bytes}
    (h : (unserialize lib).run (txundo.serialize lib ++ rest) = some (txundo, rem)) :
    ∀ undo ∈ txundo.vprevout, Reads (CTxInUndo.unserialize lib) (undo.serialize lib) undo := by
  rw [unserialize, serialize, writeVector, List.append_assoc, StateT.run_map, readVector,
    (readCompactSize_reads hlen).run_bind] at h
  simp only [map_eq_map, map_eq_some_iff, Prod.exists, Prod.mk.injEq] at h
  obtain ⟨vprevout, rem', hrun, rfl, rfl⟩ := h
  refine reads_of_readMany (fun undo _ _ _ hstep => ?_) hrun
  obtain ⟨hmeta, hout⟩ := CTxInUndo.kept_of_run hstep
  exact CTxInUndo.unserialize_reads hmeta hout

end CTxUndo

namespace CBlockUndo

variable {hashes : Hashes} {lib : PubKeyLib} {blockundo : CBlockUndo}

def Fits (blockundo : CBlockUndo) : Prop :=
  blockundo.vtxundo.length ≤ MAX_SIZE ∧ ∀ txundo ∈ blockundo.vtxundo,
    txundo.vprevout.length ≤ MAX_SIZE

def Kept (blockundo : CBlockUndo) : Prop :=
  ∀ txundo ∈ blockundo.vtxundo, ∀ undo ∈ txundo.vprevout,
    undo.MetaKept ∧ restoreTxOut undo.txout = undo.txout

lemma unserialize_reads (hfits : blockundo.Fits) (h : blockundo.Kept) :
    Reads (unserialize lib) (blockundo.serialize lib) blockundo := by
  have hvec := readVector_reads (f := id) hfits.1 fun txundo hmem =>
    @CTxUndo.unserialize_reads lib txundo (hfits.2 txundo hmem) fun undo hundo =>
      CTxInUndo.unserialize_reads (h txundo hmem undo hundo).1 (h txundo hmem undo hundo).2
  rw [List.map_id] at hvec
  exact hvec.map rfl

/-- Undo information that is given back is kept, record by record. -/
lemma kept_of_run (hfits : blockundo.Fits) {rest rem : Bytes}
    (h : (unserialize lib).run (blockundo.serialize lib ++ rest) = some (blockundo, rem)) :
    blockundo.Kept := by
  rw [unserialize, serialize, writeVector, List.append_assoc, StateT.run_map, readVector,
    (readCompactSize_reads hfits.1).run_bind] at h
  simp only [map_eq_map, map_eq_some_iff, Prod.exists, Prod.mk.injEq] at h
  obtain ⟨vtxundo, rem', hrun, rfl, rfl⟩ := h
  have hall := reads_of_readMany (fun txundo hmem rest rem hrun =>
    CTxUndo.unserialize_reads (hfits.2 txundo hmem)
      (CTxUndo.reads_of_run (hfits.2 txundo hmem) hrun)) hrun
  intro txundo hmem undo hundo
  have hread := CTxUndo.reads_of_run (hfits.2 txundo hmem) (hall txundo hmem []) undo hundo
  exact CTxInUndo.kept_of_run (hread [])

lemma unserialize_reads_iff (hfits : blockundo.Fits) :
    Reads (unserialize lib) (blockundo.serialize lib) blockundo ↔ blockundo.Kept :=
  ⟨fun h => kept_of_run hfits (h []), unserialize_reads hfits⟩

/-- The file with the record gives it back exactly if the format keeps it. -/
lemma undoReadFromDisk_iff (hfits : blockundo.Fits) {hashBlock : Uint256} :
    undoReadFromDisk hashes lib (undoWriteToDisk hashes lib blockundo hashBlock) hashBlock =
      some blockundo ↔ blockundo.Kept := by
  constructor
  · intro h
    simp only [undoReadFromDisk, undoWriteToDisk, bind_eq_bind,
      bind_eq_some_iff, Prod.exists] at h
    obtain ⟨blockundo', rest, hrun, hashChecksum, rest', -, hif⟩ := h
    split_ifs at hif
    obtain rfl := some.inj hif
    exact kept_of_run hfits hrun
  · intro h
    have hsum := readUInt256_reads (blockundo.checksum hashes lib hashBlock) []
    rw [List.append_nil] at hsum
    simp [undoReadFromDisk, undoWriteToDisk, unserialize_reads hfits h _, hsum]

end CBlockUndo

end Jumpcoin
