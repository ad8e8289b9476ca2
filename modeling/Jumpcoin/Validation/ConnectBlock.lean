import Jumpcoin.Chain.Paths
import Jumpcoin.Coins.RoundTrip
import Jumpcoin.Coins.Undo
import Jumpcoin.Validation.Stake

/-!
# Connecting a block

`ConnectBlock` of `main.cpp`, in the parts the source runs one after the other: the checks of the
block itself, difficulty and stake, overwritten transactions, the loop over the transactions (which
spends inputs, adds outputs, sums fees and the stake reward, and queues script checks), the reward,
the queued scripts, and the undo information.

The disk operations succeed or fail as `Disk` says.
-/

namespace Jumpcoin

open Codec (Bytes)
open Check CValidationState

/-- The outcome of the disk operations of `ConnectBlock`. -/
structure Disk where
  findUndoPos : Bool
  undoWriteToDisk : Bool
  writeTxIndex : Bool
  deriving DecidableEq, Repr

def Disk.ok : Disk := ⟨true, true, true⟩

def getProofOfWorkSubsidy : CAmount := 5420 * COIN

def getProofOfStakeSubsidy : CAmount := COIN * 2

/-! ## Script flags -/

def standardNotMandatoryVerifyFlags : Nat :=
  SCRIPT_VERIFY_STRICTENC ||| SCRIPT_VERIFY_MINIMALDATA |||
    SCRIPT_VERIFY_DISCOURAGE_UPGRADABLE_NOPS ||| SCRIPT_VERIFY_CLEANSTACK |||
    SCRIPT_VERIFY_MINIMALIF ||| SCRIPT_VERIFY_NULLFAIL ||| SCRIPT_VERIFY_CHECKSEQUENCEVERIFY

def blockScriptFlags (params : Params) (nBlockTime : Int) : Nat :=
  SCRIPT_VERIFY_P2SH ||| SCRIPT_VERIFY_DERSIG ||| SCRIPT_VERIFY_DERKEY ||| SCRIPT_VERIFY_LOW_S |||
    (if params.isProtocolV3 nBlockTime then
      SCRIPT_VERIFY_CHECKLOCKTIMEVERIFY ||| SCRIPT_VERIFY_NULLDUMMY else 0) |||
    (if params.isProtocolV3_1 nBlockTime then SCRIPT_VERIFY_CHECKSEQUENCEVERIFY else 0)

/-! ## Sequence locks -/

section

variable (params : Params) (path : List CBlockIndex)

/-- One input in `CalculateSequenceLocks`, with the lock so far as height and time. No value where
the source reads an ancestor that does not exist. -/
def sequenceLock (lock : Int × Int) (txin : CTxIn) (nCoinHeight : Int) : Option (Int × Int) :=
  let nSequence := txin.nSequence.toNat
  if nSequence.testBit 31 then some lock
  else if nSequence.testBit 22 then do
    let nCoinTime ← getPastTimeLimit params (getAncestorPath path (max (nCoinHeight - 1) 0))
    some (lock.1, max lock.2 (nCoinTime + (nSequence % 2 ^ 16 * 2 ^ 9 : Nat) - 1))
  else some (max lock.1 (nCoinHeight + (nSequence % 2 ^ 16 : Nat) - 1), lock.2)

def sequenceLocksLoop (lock : Int × Int) : List (CTxIn × Int) → Option (Int × Int)
  | [] => some lock
  | (txin, nCoinHeight) :: rest => do
    let lock' ← sequenceLock params path lock txin nCoinHeight
    sequenceLocksLoop lock' rest

/-- `CalculateSequenceLocks` for a transaction of the block at the head of the path. -/
def calculateSequenceLocks (tx : CTransaction)
    (fVerifySequence : Bool) (prevHeights : List Int) : Option (Int × Int) :=
  if 2 ≤ tx.nVersion.toUInt32 ∧ fVerifySequence = true then
    sequenceLocksLoop params path (-1, -1) (tx.vin.zip prevHeights)
  else some (-1, -1)

end

def sequenceLocks (params : Params) (pindex : CBlockIndex) (pprev : List CBlockIndex)
    (tx : CTransaction) (fVerifySequence : Bool) (prevHeights : List Int) : Option Bool := do
  let lockPair ← calculateSequenceLocks params (pindex :: pprev) tx fVerifySequence prevHeights
  let nBlockTime ← getPastTimeLimit params pprev
  some (!(decide ((pindex.nHeight : Int) ≤ lockPair.1) || decide (nBlockTime ≤ lockPair.2)))

/-! ## Inputs -/

structure CScriptCheck where
  scriptPubKey : CScript
  txTo : CTransaction
  nIn : Nat
  nFlags : Nat
  deriving DecidableEq, Repr

def CScriptCheck.error (crypto : Crypto) (check : CScriptCheck) : Option String :=
  crypto.verifyScript check.nFlags check.scriptPubKey check.txTo check.nIn

def scriptChecks (inputs : CCoinsViewCache) (tx : CTransaction) (flags : Nat) :
    Nat → List CTxIn → Option (List CScriptCheck)
  | _, [] => some []
  | nIn, txin :: rest => do
    let coins ← inputs.accessCoins txin.prevout.hash
    let txout ← coins.vout[txin.prevout.n.toNat]?
    let checks ← scriptChecks inputs tx flags (nIn + 1) rest
    some (⟨txout.scriptPubKey, tx, nIn, flags⟩ :: checks)

def CScriptCheck.optionalFlags (check : CScriptCheck) : Nat :=
  check.nFlags &&& standardNotMandatoryVerifyFlags

/-- Run the checks at once, as `CheckInputs` does without check threads. -/
def runScriptChecks (crypto : Crypto) : List CScriptCheck → Validate Unit
  | [] => pure ()
  | check :: rest =>
    match check.error crypto with
    | none => runScriptChecks crypto rest
    | some error =>
      if check.optionalFlags ≠ 0 ∧
          ({ check with nFlags := check.nFlags ^^^ check.optionalFlags }.error crypto).isNone =
            true then
        refuse (markInvalid REJECT_NONSTANDARD
          ("non-mandatory-script-verify-flag (" ++ error ++ ")") "")
      else refuse (doS 100 REJECT_INVALID ("mandatory-script-verify-flag-failed (" ++ error ++ ")"))

def getSpendHeight (chain : ChainState) (inputs : CCoinsViewCache) : Option Int :=
  (chain.mapBlockIndex.lookup inputs.hashBlock).map fun pindexPrev => (pindexPrev.nHeight : Int) + 1

/-- The scripts of a transaction: run at once, or returned for the queue. -/
def checkInputScripts (config : Config) (tx : CTransaction) (inputs : CCoinsViewCache)
    (fScriptChecks : Bool) (flags : Nat) : Validate (List CScriptCheck) :=
  if fScriptChecks then do
    let checks ← require (scriptChecks inputs tx flags 0 tx.vin)
    if config.nScriptCheckThreads = 0 then do
      runScriptChecks config.crypto checks
      pure []
    else pure checks
  else pure []

def checkInputs (config : Config) (chain : ChainState) (tx : CTransaction)
    (inputs : CCoinsViewCache) (fScriptChecks : Bool) (flags : Nat) :
    Validate (List CScriptCheck) :=
  if tx.isCoinBase then pure []
  else do
    let nSpendHeight ← require (getSpendHeight chain inputs)
    checkTxInputs config.crypto.words config.params chain.adjustedTime tx inputs nSpendHeight
    checkInputScripts config tx inputs fScriptChecks flags

/-! ## The loop over the transactions -/

def getP2SHSigOpCount (inputs : CCoinsViewCache) : List CTxIn → Option Nat
  | [] => some 0
  | txin :: rest => do
    let prevout ← inputs.getOutputFor txin.prevout
    let n ← getP2SHSigOpCount inputs rest
    some ((if isPayToScriptHash prevout.scriptPubKey then
      getSigOpCountP2SH prevout.scriptPubKey txin.scriptSig else 0) + n)

/-- `GetTransactionSigOpCount` with pay-to-script-hash enforced, as it is in every block. -/
def getTransactionSigOpCount (tx : CTransaction) (inputs : CCoinsViewCache) : Option Nat :=
  if tx.isCoinBase then some (getSigOpCountWithoutP2SH tx)
  else (getP2SHSigOpCount inputs tx.vin).map (getSigOpCountWithoutP2SH tx + ·)

/-- What the loop of `ConnectBlock` carries from transaction to transaction. -/
structure ConnectLoop where
  view : CCoinsViewCache
  vtxundo : List CTxUndo
  nFees : CAmount
  nActualStakeReward : CAmount
  nSigOpsCount : Nat
  vChecks : List CScriptCheck

/-- What stays the same in the loop. -/
structure ConnectContext where
  config : Config
  chain : ChainState
  block : CBlock
  pindex : CBlockIndex
  /-- the path of `pindex->pprev` -/
  pprev : List CBlockIndex
  fScriptChecks : Bool

namespace ConnectContext

def flags (ctx : ConnectContext) : Nat :=
  blockScriptFlags ctx.config.params ctx.block.getBlockTime

def checkInputsAvailable (ctx : ConnectContext) (view : CCoinsViewCache) (tx : CTransaction) :
    Validate Unit :=
  if tx.isCoinBase then pure ()
  else do
    ensure (view.haveInputs tx) (doS 100 REJECT_INVALID "bad-txns-inputs-missingorspent")
    let prevHeights ← require (tx.vin.mapM fun txin =>
      (view.accessCoins txin.prevout.hash).map fun coins => coins.nHeight.toInt)
    let final ← require (sequenceLocks ctx.config.params ctx.pindex ctx.pprev tx
      (ctx.config.params.isProtocolV3_1 ctx.block.getBlockTime) prevHeights)
    ensure final (doS 100 REJECT_INVALID "bad-txns-nonfinal")

/-- The fees so far and the stake reward, with a transaction counted in. -/
def countFees (words : Signed.Words) (s : ConnectLoop) (tx : CTransaction) :
    Validate (CAmount × CAmount) :=
  if tx.isCoinBase then pure (s.nFees, s.nActualStakeReward)
  else do
    let nValueOut ← require (tx.getValueOut words)
    let nValueIn ← require (s.view.getValueIn words tx)
    pure (if tx.isCoinStake then (s.nFees, words.sub nValueOut nValueIn)
      else (words.add s.nFees (words.sub nValueIn nValueOut), s.nActualStakeReward))

def connectTx (ctx : ConnectContext) (i : Nat) (tx : CTransaction) (s : ConnectLoop) :
    Validate ConnectLoop := do
  ctx.checkInputsAvailable s.view tx
  let nSigOps ← require (getTransactionSigOpCount tx s.view)
  ensure (decide (s.nSigOpsCount + nSigOps ≤ MAX_BLOCK_SIGOPS))
    (doS 100 REJECT_INVALID "bad-jump-sigops")
  let (nFees, nActualStakeReward) ← countFees ctx.config.crypto.words s tx
  let checks ← checkInputs ctx.config ctx.chain tx s.view ctx.fScriptChecks ctx.flags
  let (txundo, view) ← require (s.view.updateCoins ctx.config.hashes tx ctx.pindex.nHeight)
  pure
    { view
      vtxundo := if i = 0 then s.vtxundo else s.vtxundo ++ [txundo]
      nFees
      nActualStakeReward
      nSigOpsCount := s.nSigOpsCount + nSigOps
      vChecks := s.vChecks ++ checks }

def connectTxs (ctx : ConnectContext) : Nat → List CTransaction → ConnectLoop → Validate ConnectLoop
  | _, [], s => pure s
  | i, tx :: rest, s => do
    let s' ← ctx.connectTx i tx s
    connectTxs ctx (i + 1) rest s'

end ConnectContext

/-! ## The block -/

def getLastCheckpoint (chain : ChainState) (checkpoints : List (Int × Uint256)) :
    Option CBlockIndex :=
  checkpoints.reverse.findSome? fun checkpoint => chain.mapBlockIndex.lookup checkpoint.2

/-- Scripts are not run for an ancestor of the last checkpoint. -/
def scriptChecksNeeded (config : Config) (chain : ChainState) (pindex : CBlockIndex) : Bool :=
  match if config.fCheckpointsEnabled then
      getLastCheckpoint chain config.chainparams.checkpoints else none with
  | none => true
  | some pindexLastCheckpoint =>
    match getAncestor (pathOf chain.mapBlockIndex pindexLastCheckpoint) pindex.nHeight with
    | none => true
    | some ancestor => ancestor.hashBlock != pindex.hashBlock

def checkBlockProofOfStake (config : Config) (chain : ChainState) (block : CBlock)
    (pprev : List CBlockIndex) : Validate Unit :=
  if block.isProofOfStake && config.params.isProtocolV3 block.getBlockTime then do
    let pindexPrev ← require pprev.head?
    let coinStake ← require block.coinStake
    checkProofOfStake config chain pindexPrev coinStake block.nBits
      (if coinStake.nTime = 0 then block.nTime else coinStake.nTime)
  else pure ()

/-- Whether transactions that overwrite an unspent one are looked for. -/
def enforceBIP30 (params : Params) (pprev : List CBlockIndex) : Bool :=
  match getAncestor pprev params.BIP34Height with
  | none => true
  | some pindexBIP34height => pindexBIP34height.hashBlock != params.BIP34Hash

def overwrites (hashes : Hashes) (view : CCoinsViewCache) (tx : CTransaction) : Bool :=
  match view.accessCoins (tx.getHash hashes) with
  | some coins => !coins.isPruned
  | none => false

def checkBIP30 (config : Config) (block : CBlock) (pprev : List CBlockIndex)
    (view : CCoinsViewCache) : Validate Unit :=
  ensure (!enforceBIP30 config.params pprev ||
      block.vtx.all fun tx => !overwrites config.hashes view tx)
    (doS 100 REJECT_INVALID "bad-txns-BIP30")

/-- The coinbase of a proof-of-work block and the coinstake of a proof-of-stake block create no more
than the subsidy and the fees. -/
def checkReward (config : Config) (block : CBlock) (s : ConnectLoop) : Validate Unit :=
  if block.isProofOfWork then do
    let coinBase ← require block.vtx.head?
    let nValueOut ← require (coinBase.getValueOut config.crypto.words)
    ensure (!decide (config.crypto.words.add s.nFees getProofOfWorkSubsidy < nValueOut))
      (doS 100 REJECT_INVALID "bad-cb-amount")
  else if config.params.isProtocolV3 block.getBlockTime then
    ensure (!decide (config.crypto.words.add s.nFees getProofOfStakeSubsidy < s.nActualStakeReward))
      (doS 100 REJECT_INVALID "bad-cs-amount")
  else pure ()

def stakeKernel (hashes : Hashes) (block : CBlock) : Option Uint256 :=
  if block.isProofOfStake then
    (block.coinStake.bind fun tx => tx.vin.head?).map fun txin => txin.prevout.hash
  else some (block.getHash hashes)

/-- What a connected block leaves: its entry, the view, and the undo information with the bytes that
were written of it, if they were. -/
structure Connected where
  pindex : CBlockIndex
  view : CCoinsViewCache
  blockundo : CBlockUndo
  undoFile : Option Bytes

/-- The undo part of `ConnectBlock`; `hashPrev` is the hash of the previous block. -/
def writeUndo (config : Config) (disk : Disk) (pindex : CBlockIndex) (hashPrev : Uint256)
    (blockundo : CBlockUndo) : Validate (CBlockIndex × Option Bytes) :=
  if pindex.nStatus.haveUndo then
    pure ({ pindex with nStatus := pindex.nStatus.raiseValidity BLOCK_VALID_SCRIPTS }, none)
  else do
    ensure disk.findUndoPos (markError "out of disk space")
    ensure disk.undoWriteToDisk (markError "Failed to write undo data")
    let nStatus := { pindex.nStatus with haveUndo := true }
    pure ({ pindex with nStatus := nStatus.raiseValidity BLOCK_VALID_SCRIPTS },
      some (blockundo.undoWriteToDisk config.hashes config.keys hashPrev))

section

variable (config : Config) (chain : ChainState) (disk : Disk) (block : CBlock)
  (pindex : CBlockIndex) (pprev : List CBlockIndex)

/-- `ConnectBlock` for a block other than the genesis block, after `CheckBlock`. -/
def connectTransactions (view : CCoinsViewCache) (fJustCheck : Bool) : Validate Connected := do
  ensure (block.nBits == getNextTargetRequired config.params pprev block.isProofOfStake)
    (doS 100 REJECT_INVALID "bad-diffbits")
  checkBlockProofOfStake config chain block pprev
  let pindexPrev ← require pprev.head?
  checkBIP30 config block pprev view
  let ctx : ConnectContext :=
    ⟨config, chain, block, pindex, pprev, scriptChecksNeeded config chain pindex⟩
  let s ← ctx.connectTxs 0 block.vtx ⟨view, [], 0, 0, 0, []⟩
  checkReward config block s
  let kernel ← require (stakeKernel config.hashes block)
  let pindex' := { pindex with nStakeModifier := computeStakeModifier config.hashes pprev kernel }
  ensure (s.vChecks.all fun check => (check.error config.crypto).isNone) (doS 100 0 "")
  if fJustCheck then pure ⟨pindex', s.view, ⟨s.vtxundo⟩, none⟩
  else do
    let (pindex'', undoFile) ← writeUndo config disk pindex' pindexPrev.hashBlock ⟨s.vtxundo⟩
    ensure (!config.fTxIndex || disk.writeTxIndex) (markError "Failed to write transaction index")
    pure ⟨pindex'', s.view.setBestBlock pindex.hashBlock, ⟨s.vtxundo⟩, undoFile⟩

/-- `ConnectBlock`; `pprev` is the path of the predecessor of the entry `pindex`. -/
def connectBlock (view : CCoinsViewCache) (fJustCheck : Bool) : Validate Connected := do
  let block ← checkBlock config.crypto config.params chain.height block (!fJustCheck) (!fJustCheck)
    (!fJustCheck)
  demand (view.hashBlock == (pprev.head?.map CBlockIndex.hashBlock).getD 0)
  if block.getHash config.hashes = config.params.hashGenesisBlock then
    pure ⟨pindex, if fJustCheck then view else view.setBestBlock pindex.hashBlock, ⟨[]⟩, none⟩
  else connectTransactions config chain disk block pindex pprev view fJustCheck

end

/-! ## A small network -/

def toyHash (bytes : Bytes) : Uint256 :=
  BitVec.ofNat 256 (bytes.foldl (fun h b => (h * 257 + b.toNat + 1) % 2 ^ 64) 1)

def toyCrypto : Crypto where
  hash256 := toyHash
  scrypt _ := 0
  verifyPubKey _ _ _ := true
  verifyScript _ _ _ _ := none
  words := .wrapping

/-- A node in regression-test mode, whose genesis block has the hash 100. -/
def toyConfig : Config where
  crypto := toyCrypto
  keys := CCoins.noKeys
  chainparams := regTestParams 100
  fDebug := false
  fCheckpointsEnabled := true
  fTxIndex := false
  nScriptCheckThreads := 0

def toyIndex (hash : Uint256) (pprev : Option Uint256) (nHeight : Nat) (nTime : UInt32) :
    CBlockIndex where
  hashBlock := hash
  pprev
  nHeight
  nChainWork := BitVec.ofNat 256 (nHeight + 1)
  nTx := 1
  nChainTx := nHeight + 1
  nStatus := ⟨BLOCK_VALID_SCRIPTS, true, true, false, false, false⟩
  nStakeModifier := 0
  nTime
  nBits := 0x1f00ffff
  nSequenceId := 0

def toyPath : List CBlockIndex :=
  [toyIndex 101 (some 100) 1 1700000000, toyIndex 100 none 0 1699990000]

def toyChain : ChainState where
  mapBlockIndex := ((∅ : BlockMap).insert 100 (toyIndex 100 none 0 1699990000)).insert 101
    (toyIndex 101 (some 100) 1 1700000000)
  chainActive := [101, 100]
  pcoinsTip := ⟨∅, 101⟩
  mempool := ∅
  blockFiles := ∅
  txIndex := ∅
  adjustedTime := 1700001000

def toyNextIndex : CBlockIndex :=
  { toyIndex 102 (some 101) 2 1700001000 with
    nStatus := ⟨BLOCK_VALID_TRANSACTIONS, true, false, false, false, false⟩ }

def toyCoinBase : CTransaction where
  nVersion := 1
  nTime := 1700001000
  vin := [⟨⟨0, 0xffffffff⟩, [0x52, 0x00], 0xffffffff⟩]
  vout := [⟨0, [0x51]⟩]
  nLockTime := 0

def toySpend : CTransaction where
  nVersion := 1
  nTime := 1700001000
  vin := [⟨⟨7, 0⟩, [], 0xffffffff⟩]
  vout := [⟨1000, [0x51]⟩]
  nLockTime := 0

def toyBlock (vtx : List CTransaction) : CBlock where
  nVersion := 7
  hashPrevBlock := 101
  hashMerkleRoot := (computeMerkleRoot toyCrypto.toHashes
    (vtx.map (·.getHash toyCrypto.toHashes))).1
  nTime := 1700001000
  nBits := 0x1f00ffff
  nNonce := 0
  vtx
  vchBlockSig := []
  fChecked := false

/-- A view with one output, from a transaction of block 1 with a given version. -/
def toyView (nVersion : Int32) : CCoinsViewCache where
  cacheCoins := Finmap.singleton 7 ⟨false, false, [⟨1000, [0x51]⟩], 1, nVersion, 1700000000⟩
  hashBlock := 101

/-- A transaction to be staked, with the header of its block, which has height 1. -/
def toyStaked : CTransaction :=
  { toySpend with vout := [⟨1000, [0x51]⟩, ⟨2000, [0x51]⟩] }

def toyStakedHeader : CBlockHeader where
  nVersion := 7
  hashPrevBlock := 100
  hashMerkleRoot := 0
  nTime := 1700000000
  nBits := 0x1f00ffff
  nNonce := 0

/-- Twelve blocks on the genesis block, the first of them with `toyStakedHeader`. -/
def toyStakePath : List CBlockIndex :=
  let hashAt (nHeight : Nat) : Uint256 :=
    if nHeight = 1 then toyStakedHeader.getHash toyCrypto.toHashes
    else BitVec.ofNat 256 (100 + nHeight)
  (List.range 13).reverse.map fun nHeight =>
    toyIndex (hashAt nHeight) (if nHeight = 0 then none else some (hashAt (nHeight - 1))) nHeight
      (1699999000 + 1000 * UInt32.ofNat (min nHeight 1))

def toyStakeChain (mempool : List CTransaction) : ChainState where
  mapBlockIndex := toyStakePath.foldr (fun pindex m => m.insert pindex.hashBlock pindex) ∅
  chainActive := toyStakePath.map CBlockIndex.hashBlock
  pcoinsTip := ⟨∅, 112⟩
  mempool := mempool.foldr (fun tx m => m.insert (tx.getHash toyCrypto.toHashes) tx) ∅
  blockFiles := ∅
  txIndex := Finmap.singleton (toyStaked.getHash toyCrypto.toHashes) (toyStakedHeader, toyStaked)
  adjustedTime := 1700001008

def toyStakeView : CCoinsViewCache where
  cacheCoins := Finmap.singleton (toyStaked.getHash toyCrypto.toHashes)
    ⟨false, false, toyStaked.vout, 1, 1, 1700000000⟩
  hashBlock := 112

/-- A block that stakes the second output of `toyStaked` and pays itself a reward. -/
def toyStakeBlock (reward : CAmount) : CBlock :=
  let coinBase : CTransaction :=
    { toyCoinBase with
      nTime := 1700001008
      vin := [⟨⟨0, 0xffffffff⟩, [0x5d, 0x00], 0xffffffff⟩]
      vout := [⟨0, []⟩] }
  let coinStake : CTransaction :=
    { toyCoinBase with
      nTime := 1700001008
      vin := [⟨⟨toyStaked.getHash toyCrypto.toHashes, 1⟩, [], 0xffffffff⟩]
      vout := [⟨0, []⟩, ⟨2000 + reward, 33 :: (List.replicate 33 2 ++ [0xac])⟩] }
  { toyBlock [coinBase, coinStake] with
    hashPrevBlock := 112
    nTime := 1700001008
    nBits := getCompact mainConsensus.posLimitV2
    vchBlockSig := [0] }

def toyStakeIndex : CBlockIndex :=
  { toyIndex 113 (some 112) 13 1700001008 with
    nStatus := ⟨BLOCK_VALID_TRANSACTIONS, true, false, false, false, true⟩ }

/-- A node in regression-test mode with an index of transactions. -/
def toyStakeConfig : Config :=
  { toyConfig with fTxIndex := true }

end Jumpcoin
