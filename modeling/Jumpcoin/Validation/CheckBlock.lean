import Jumpcoin.Chain.Index
import Jumpcoin.Consensus.Merkle
import Jumpcoin.Consensus.TxVerify
import Jumpcoin.Script.Script

/-!
# Checks of a block

The checks of `main.cpp` on a block that need no coins: `CheckBlockHeader`, `CheckBlock` with its
signature check, and `ContextualCheckBlock`.

`CheckBlock` is cut into its parts in the order of the source. The parts that read the block
signature are the size limit and the signature check; all others see the header and the
transactions only.
-/

namespace Jumpcoin

open Codec (Bytes littleEndian)
open Check CValidationState

/-- What the checks rest on: the hashes, `CPubKey::Verify` of a signature on a hash, `VerifyScript`
of an input of a transaction under a set of flags (the text of the script error, or no value if it
succeeds), and the arithmetic of the machine. -/
structure Crypto extends Hashes where
  verifyPubKey : Bytes → Uint256 → Bytes → Bool
  verifyScript : Nat → CScript → CTransaction → Nat → Option String
  words : Signed.Words

/-- The time of a transaction, or that of its block if it carries none. -/
def timeOr (nTime : UInt32) (nBlockTime : Int) : Int :=
  if nTime = 0 then nBlockTime else nTime.toNat

def MAX_BLOCK_SIGOPS : Nat := MAX_BLOCK_SIZE / 50

/-- `FutureDrift`, with a loose rule while a network without retargeting is in its first phase. -/
def futureDrift (params : Params) (nActiveHeight : Int) (nTime : Int) : Int :=
  if params.fPowNoRetargeting && decide (nActiveHeight ≤ params.nLastPOWBlock) then
    nTime + 24 * 60 * 60
  else if params.isProtocolV2 nTime then nTime + 15
  else nTime + 10 * 60

def checkCoinStakeTimestamp (params : Params) (nTimeBlock nTimeTx : Int) : Bool :=
  if params.isProtocolV2 nTimeBlock then
    decide (nTimeBlock = nTimeTx) &&
      decide (nTimeTx.toNat &&& params.nStakeTimestampMask.toNat = 0)
  else decide (nTimeBlock = nTimeTx)

def checkStakeBlockTimestamp (params : Params) (nTimeBlock : Int) : Bool :=
  checkCoinStakeTimestamp params nTimeBlock nTimeBlock

/-! ## Header and merkle root -/

def checkBlockHeader (hashes : Hashes) (params : Params) (header : CBlockHeader)
    (fCheckPOW : Bool) : Validate Unit := do
  ensure (!(decide (header.nVersion < 7) && params.isProtocolV2 header.getBlockTime))
    (doSFull 100 REJECT_OBSOLETE "bad-version" false
      ("rejected nVersion=" ++ toString header.nVersion.toInt ++ " block"))
  ensure (!fCheckPOW || checkProofOfWork params.powLimit (header.getPoWHash hashes) header.nBits)
    (doSFull 50 REJECT_INVALID "high-hash" false "proof of work failed")

/-- The merkle part of `CheckBlock`; its failures may be the fault of whoever relayed the block. -/
def checkBlockMerkleRoot (hashes : Hashes) (block : CBlock) (fCheckMerkleRoot : Bool) :
    Validate Unit :=
  if fCheckMerkleRoot then do
    let (hashMerkleRoot2, mutated) := blockMerkleRoot hashes block
    ensure (block.hashMerkleRoot == hashMerkleRoot2)
      (doSFull 100 REJECT_INVALID "bad-txnmrklroot" true "hashMerkleRoot mismatch")
    ensure (!mutated) (doSFull 100 REJECT_INVALID "bad-txns-duplicate" true "duplicate transaction")
  else pure ()

/-! ## Shape -/

def blockSizeOk (block : CBlock) : Bool :=
  !block.vtx.isEmpty && decide (block.vtx.length ≤ MAX_BLOCK_SIZE) &&
    decide (block.getSerializeSize ≤ MAX_BLOCK_SIZE)

def checkBlockSize (block : CBlock) : Validate Unit :=
  ensure (blockSizeOk block)
    (doSFull 100 REJECT_INVALID "bad-jump-length" false "size limits failed")

def checkBlockStake (params : Params) (block : CBlock) (coinBase : CTransaction) : Validate Unit :=
  if block.isProofOfStake then do
    let coinStake ← require block.coinStake
    ensure (checkCoinStakeTimestamp params block.getBlockTime
        (timeOr coinStake.nTime block.getBlockTime))
      (doSFull 50 REJECT_INVALID "bad-cs-time" false "coinstake timestamp violation")
    ensure (decide (coinBase.vout.length = 1) && coinBase.vout.all CTxOut.isEmpty)
      (doSFull 100 REJECT_INVALID "bad-cb-not-empty" false
        "coinbase output not empty for proof-of-stake block")
    ensure coinStake.isCoinStake
      (doSFull 100 REJECT_INVALID "bad-cs-missing" false "second tx is not coinstake")
    ensure ((block.vtx.drop 2).all fun tx => !tx.isCoinStake)
      (doSFull 100 REJECT_INVALID "bad-cs-multiple" false "more than one coinstake")
  else pure ()

/-- The first transaction is a coinbase and no other is, with the rules for times and stakes. -/
def checkBlockShape (params : Params) (nActiveHeight : Int) (block : CBlock) : Validate Unit :=
  match block.vtx with
  | [] => refuse (doSFull 100 REJECT_INVALID "bad-cb-missing" false "first tx is not coinbase")
  | coinBase :: rest => do
    ensure coinBase.isCoinBase
      (doSFull 100 REJECT_INVALID "bad-cb-missing" false "first tx is not coinbase")
    ensure (rest.all fun tx => !tx.isCoinBase)
      (doSFull 100 REJECT_INVALID "bad-cb-multiple" false "more than one coinbase")
    ensure (decide (block.getBlockTime ≤
        futureDrift params nActiveHeight (timeOr coinBase.nTime block.getBlockTime)))
      (doSFull 50 REJECT_INVALID "bad-cb-time" false "coinbase timestamp is too early")
    checkBlockStake params block coinBase

/-! ## Signature -/

def blockSigningKey (scriptPubKey : CScript) : Option Bytes :=
  match solver scriptPubKey with
  | none => none
  | some (.pubkey, vSolutions) => vSolutions.head?
  | some _ => do
    let ((opcode, _), rest) ← getOp.run scriptPubKey
    if opcode ≠ CTxOut.OP_RETURN then none
    else
      let ((_, vchPushValue), _) ← getOp.run rest
      if isCompressedOrUncompressedPubKey vchPushValue then some vchPushValue else none

/-- `CheckBlockSignature` on its inputs: the header, the transactions and the signature. -/
def checkBlockSignature (crypto : Crypto) (block : CBlock) : Bool :=
  if block.isProofOfWork then block.vchBlockSig.isEmpty
  else if block.vchBlockSig.isEmpty then false
  else
    match block.coinStake.bind fun tx => tx.vout[1]? with
    | none => false
    | some txout =>
      match blockSigningKey txout.scriptPubKey with
      | none => false
      | some key => crypto.verifyPubKey key (block.getHash crypto.toHashes) block.vchBlockSig

/-! ## Transactions -/

def checkBlockTransactions (crypto : Crypto) (nBlockTime : Int) : List CTransaction → Validate Unit
  | [] => pure ()
  | tx :: rest => do
    onRefused (checkTransaction crypto.words tx) fun state =>
      markInvalid state.chRejectCode state.strRejectReason
        ("Transaction check failed (tx hash " ++ (tx.getHash crypto.toHashes).toHex ++ ") " ++
          state.strDebugMessage) state
    ensure (decide ((tx.nTime.toNat : Int) ≤ nBlockTime))
      (doSFull 100 REJECT_INVALID "bad-tx-time" false
        "block timestamp earlier than transaction timestamp")
    checkBlockTransactions crypto nBlockTime rest

/-- `GetLegacySigOpCount`: all scripts of a transaction, without pay-to-script-hash. -/
def getSigOpCountWithoutP2SH (tx : CTransaction) : Nat :=
  (tx.vin.map fun txin => getSigOpCount false txin.scriptSig).sum +
    (tx.vout.map fun txout => getSigOpCount false txout.scriptPubKey).sum

def checkBlockSigOps (vtx : List CTransaction) : Validate Unit :=
  ensure (decide ((vtx.map getSigOpCountWithoutP2SH).sum ≤ MAX_BLOCK_SIGOPS))
    (doSFull 100 REJECT_INVALID "bad-jump-sigops" false "out-of-bounds SigOpCount")

/-- `CheckBlock`; the block it returns remembers that it was checked. -/
def checkBlock (crypto : Crypto) (params : Params) (nActiveHeight : Int) (block : CBlock)
    (fCheckPOW fCheckMerkleRoot fCheckSig : Bool) : Validate CBlock :=
  if block.fChecked then pure block
  else do
    checkBlockHeader crypto.toHashes params block.toCBlockHeader
      (fCheckPOW && block.isProofOfWork)
    checkBlockMerkleRoot crypto.toHashes block fCheckMerkleRoot
    checkBlockSize block
    checkBlockShape params nActiveHeight block
    ensure (!fCheckSig || checkBlockSignature crypto block)
      (doSFull 100 REJECT_INVALID "bad-block-signature" false "bad proof-of-stake block signature")
    checkBlockTransactions crypto block.getBlockTime block.vtx
    checkBlockSigOps block.vtx
    pure { block with fChecked := fCheckPOW && fCheckMerkleRoot }

/-! ## The checks refuse or return -/

section Decides

variable {state : CValidationState}

lemma checkBlockHeader_decides (hashes : Hashes) (params : Params) (header : CBlockHeader)
    (fCheckPOW : Bool) : Decides (checkBlockHeader hashes params header fCheckPOW) state :=
  Decides.ensure.bind fun _ => .ensure

lemma checkBlockMerkleRoot_decides (hashes : Hashes) (block : CBlock) (fCheckMerkleRoot : Bool) :
    Decides (checkBlockMerkleRoot hashes block fCheckMerkleRoot) state :=
  .ite (fun _ => Decides.ensure.bind fun _ => .ensure) fun _ => .pure ()

lemma checkBlockShape_decides (params : Params) (nActiveHeight : Int) (block : CBlock) :
    Decides (checkBlockShape params nActiveHeight block) state := by
  have hstake : ∀ coinBase, Decides (checkBlockStake params block coinBase) state := by
    intro coinBase
    refine .ite (fun hpos => ?_) fun _ => .pure ()
    obtain ⟨cb, tx, rest, hvtx, -⟩ := CBlock.isProofOfStake_iff.mp hpos
    rw [show block.coinStake = some tx by simp [CBlock.coinStake, hvtx], require_some, pure_bind]
    exact Decides.ensure.bind fun _ => Decides.ensure.bind fun _ => Decides.ensure.bind fun _ =>
      .ensure
  unfold checkBlockShape
  cases block.vtx with
  | nil => exact .refuse _
  | cons coinBase rest =>
    exact Decides.ensure.bind fun _ => Decides.ensure.bind fun _ => Decides.ensure.bind fun _ =>
      hstake coinBase

lemma checkTransaction_decides (words : Signed.Words) (tx : CTransaction) :
    Decides (checkTransaction words tx) state := by
  have houtputs : ∀ (vout : List CTxOut) userTx nValueOut,
      Decides (checkTransactionOutputs words userTx nValueOut vout) state := by
    intro vout
    induction vout with
    | nil => exact fun _ _ => .pure ()
    | cons txout vout ih =>
      exact fun _ _ => Decides.ensure.bind fun _ => Decides.ensure.bind fun _ =>
        Decides.ensure.bind fun _ => Decides.ensure.bind fun _ => ih _ _
  have hinputs : ∀ (vin : List CTxIn) seen, Decides (checkTransactionInputs seen vin) state := by
    intro vin
    induction vin with
    | nil => exact fun _ => .pure ()
    | cons txin vin ih => exact fun _ => Decides.ensure.bind fun _ => ih _
  exact Decides.ensure.bind fun _ => Decides.ensure.bind fun _ => Decides.ensure.bind fun _ =>
    (houtputs _ _ _).bind fun _ => (hinputs _ _).bind fun _ =>
      .ite (fun _ => .ensure) fun _ => .ensure

lemma checkBlockTransactions_decides (crypto : Crypto) (nBlockTime : Int)
    (vtx : List CTransaction) : Decides (checkBlockTransactions crypto nBlockTime vtx) state := by
  induction vtx with
  | nil => exact .pure ()
  | cons tx vtx ih =>
    exact (checkTransaction_decides _ tx).onRefused.bind fun _ => Decides.ensure.bind fun _ => ih

lemma checkBlock_decides (crypto : Crypto) (params : Params) (nActiveHeight : Int)
    (block : CBlock) (fCheckPOW fCheckMerkleRoot fCheckSig : Bool) :
    Decides (checkBlock crypto params nActiveHeight block fCheckPOW fCheckMerkleRoot fCheckSig)
      state :=
  .ite (fun _ => .pure _) fun _ =>
    (checkBlockHeader_decides _ _ _ _).bind fun _ => (checkBlockMerkleRoot_decides _ _ _).bind
      fun _ => Decides.ensure.bind fun _ => (checkBlockShape_decides _ _ _).bind fun _ =>
        Decides.ensure.bind fun _ => (checkBlockTransactions_decides _ _ _).bind fun _ =>
          Decides.ensure.bind fun _ => .pure _

end Decides

/-! ## Checks in context -/

def isFinalTx (tx : CTransaction) (nBlockHeight nBlockTime : Int) : Bool :=
  tx.nLockTime == 0 ||
    decide ((tx.nLockTime.toNat : Int) <
      if (tx.nLockTime.toNat : Int) < LOCKTIME_THRESHOLD then nBlockHeight else nBlockTime) ||
    tx.vin.all fun txin => txin.nSequence == 0xffffffff

def scriptNum (n : Nat) : Bytes :=
  let result := littleEndian (n.log2 / 8 + 1) n
  if 0x80 ≤ result.getLastD 0 then result ++ [0] else result

def pushHeight (nHeight : Nat) : CScript :=
  if nHeight = 0 then [0]
  else if nHeight ≤ 16 then [UInt8.ofNat (nHeight + (OP_1.toNat - 1))]
  else UInt8.ofNat (scriptNum nHeight).length :: scriptNum nHeight

def coinBaseScript (block : CBlock) : Option CScript :=
  (block.vtx.head?.bind fun tx => tx.vin.head?).map CTxIn.scriptSig

def contextualCheckBlock (params : Params) (block : CBlock) (path : List CBlockIndex) :
    Validate Unit := do
  let nHeight := nextHeight path
  let nLockTimeCutoff ← require
    (if params.isProtocolV3_1 block.getBlockTime then getPastTimeLimit params path
      else some block.getBlockTime)
  ensure (block.vtx.all fun tx => isFinalTx tx nHeight nLockTimeCutoff)
    (doSFull 10 REJECT_INVALID "bad-txns-nonfinal" false "non-final transaction")
  let scriptSig ← require (coinBaseScript block)
  ensure ((pushHeight nHeight).isPrefixOf scriptSig)
    (doSFull 100 REJECT_INVALID "bad-cb-height" false "block height mismatch in coinbase")

end Jumpcoin
