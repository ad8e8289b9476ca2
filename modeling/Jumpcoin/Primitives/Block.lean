import Jumpcoin.Primitives.Transaction

/-!
# Blocks

Block headers and blocks of `primitives/block.h`. A block is identified by the hash of its header:
double SHA-256 from version 7 on and scrypt before. The header commits to the transactions through
the merkle root; nothing in it commits to the block signature.
-/

namespace Jumpcoin

open Codec

/-- The hash functions of the program: `Hash` (double SHA-256) and `scrypt_1024_1_1_256`. -/
structure Hashes where
  hash256 : Bytes → Uint256
  scrypt : Bytes → Uint256

/-- The cached hash of a transaction, `SerializeHash` of it. -/
def CTransaction.getHash (hashes : Hashes) (tx : CTransaction) : Uint256 :=
  hashes.hash256 tx.serialize

structure CBlockHeader where
  nVersion : Int32
  hashPrevBlock : Uint256
  hashMerkleRoot : Uint256
  nTime : UInt32
  nBits : UInt32
  nNonce : UInt32
  deriving DecidableEq, Repr

namespace CBlockHeader

def serialize (header : CBlockHeader) : Bytes :=
  writeInt32 header.nVersion ++ (writeUInt256 header.hashPrevBlock ++
    (writeUInt256 header.hashMerkleRoot ++ (writeUInt32 header.nTime ++
      (writeUInt32 header.nBits ++ writeUInt32 header.nNonce))))

def unserialize : Reader CBlockHeader := do
  let nVersion ← readInt32
  let hashPrevBlock ← readUInt256
  let hashMerkleRoot ← readUInt256
  let nTime ← readUInt32
  let nBits ← readUInt32
  let nNonce ← readUInt32
  pure ⟨nVersion, hashPrevBlock, hashMerkleRoot, nTime, nBits, nNonce⟩

lemma unserialize_reads (header : CBlockHeader) : Reads unserialize header.serialize header :=
  (readInt32_reads _).bind <| (readUInt256_reads _).bind <| (readUInt256_reads _).bind <|
    (readUInt32_reads _).bind <| (readUInt32_reads _).bind <|
      (readUInt32_reads _).bind_nil (Reads.pure _)

/-- The proof-of-work hash is taken over the header in memory, which has the wire layout. -/
def getPoWHash (hashes : Hashes) (header : CBlockHeader) : Uint256 :=
  hashes.scrypt header.serialize

def getHash (hashes : Hashes) (header : CBlockHeader) : Uint256 :=
  if 6 < header.nVersion then hashes.hash256 header.serialize else header.getPoWHash hashes

def getBlockTime (header : CBlockHeader) : Int :=
  header.nTime.toNat

end CBlockHeader

structure CBlock extends CBlockHeader where
  vtx : List CTransaction
  vchBlockSig : Bytes
  /-- memory only: `CheckBlock` has passed -/
  fChecked : Bool
  deriving DecidableEq, Repr

namespace CBlock

section

variable (block : CBlock)

def isProofOfStake : Bool :=
  match block.vtx with
  | _ :: tx :: _ => tx.isCoinStake
  | _ => false

def isProofOfWork : Bool :=
  !block.isProofOfStake

/-- The second transaction, when it makes the block proof-of-stake. -/
def coinStake : Option CTransaction :=
  block.vtx[1]?

def serialize : Bytes :=
  block.toCBlockHeader.serialize ++
    (writeVector CTransaction.serialize block.vtx ++ writeByteVector block.vchBlockSig)

def getSerializeSize : Nat :=
  block.serialize.length

end

lemma isProofOfStake_iff {block : CBlock} :
    block.isProofOfStake = true ↔
      ∃ cb tx rest, block.vtx = cb :: tx :: rest ∧ tx.isCoinStake = true := by
  unfold isProofOfStake
  constructor
  · intro h
    split at h
    next cb tx rest heq => exact ⟨cb, tx, rest, heq, h⟩
    next => cases h
  · rintro ⟨cb, tx, rest, heq, h⟩
    simp [heq, h]

end CBlock

end Jumpcoin
