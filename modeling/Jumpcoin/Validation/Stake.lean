import Jumpcoin.Validation.CheckBlock

/-!
# Proof of stake

The check that a coinstake was entitled to make a block (`pos.cpp`), and the state of the chain it
reads: `GetTransaction` of `main.cpp` looks for the staked transaction in the memory pool, in the
transaction index, and in the block that the coins database points to.

A transaction found in the memory pool comes without a block. The check then returns false, and
only with `fDebug` set does it say why.
-/

namespace Jumpcoin

open Codec (Bytes)
open Check CValidationState

/-- What a node is started with. -/
structure Config where
  crypto : Crypto
  keys : PubKeyLib
  chainparams : CChainParams
  fDebug : Bool
  fCheckpointsEnabled : Bool
  fTxIndex : Bool
  nScriptCheckThreads : Nat

namespace Config

abbrev params (config : Config) : Params := config.chainparams.consensus

abbrev hashes (config : Config) : Hashes := config.crypto.toHashes

end Config

/-- The global state that validation reads. The active chain lists its blocks with the tip first;
the block files are addressed by the entry they belong to. -/
structure ChainState where
  mapBlockIndex : BlockMap
  chainActive : List Uint256
  pcoinsTip : CCoinsViewCache
  /-- the heights in records of `pcoinsTip` without an unspent output that are in its cache -/
  prunedCoins : List (Uint256 × Int32) := []
  mempool : Finmap fun _ : Uint256 => CTransaction
  blockFiles : Finmap fun _ : Uint256 => CBlock
  txIndex : Finmap fun _ : Uint256 => CBlockHeader × CTransaction
  adjustedTime : Int
  deriving DecidableEq

namespace ChainState

def height (chain : ChainState) : Int :=
  (chain.chainActive.length : Int) - 1

def tip (chain : ChainState) : Option CBlockIndex :=
  chain.chainActive.head?.bind chain.mapBlockIndex.lookup

def atHeight (chain : ChainState) (nHeight : Int) : Option CBlockIndex :=
  if nHeight < 0 then none
  else chain.chainActive.reverse[nHeight.toNat]?.bind chain.mapBlockIndex.lookup

/-- The height in the record that `pcoinsTip->AccessCoins` finds. A record without an unspent
output is found, too, until the cache is flushed. -/
def coinsHeight (chain : ChainState) (hash : Uint256) : Option Int32 :=
  match chain.pcoinsTip.accessCoins hash with
  | some coins => some coins.nHeight
  | none => chain.prunedCoins.lookup hash

end ChainState

/-! ## Looking up a transaction -/

section

variable (config : Config) (chain : ChainState)

def readBlockFromDisk (pindex : CBlockIndex) : Option CBlock := do
  let block ← if pindex.nStatus.haveData then chain.blockFiles.lookup pindex.hashBlock else none
  let hash := block.getHash config.hashes
  if (hash != config.params.hashGenesisBlock && block.isProofOfWork) &&
      !checkProofOfWork config.params.powLimit (block.getPoWHash config.hashes) block.nBits
    then none
  else if hash != pindex.hashBlock then none
  else some { block with fChecked := false }

/-- The slow part of `GetTransaction`: find the block through the coins database and scan it. -/
def getTransactionSlow (hash : Uint256) : Option (CTransaction × Uint256) := do
  let nHeight ← chain.coinsHeight hash
  let pindexSlow ← if 0 < nHeight then chain.atHeight nHeight.toInt else none
  let block ← readBlockFromDisk config chain pindexSlow
  let tx ← block.vtx.find? fun tx => tx.getHash config.hashes == hash
  some (tx, pindexSlow.hashBlock)

/-- `GetTransaction` with the slow lookup allowed: the transaction and the hash of its block, which
stays null for a transaction in the memory pool. -/
def getTransaction (hash : Uint256) : Option (CTransaction × Uint256) :=
  match chain.mempool.lookup hash with
  | some tx => some (tx, 0)
  | none =>
    match if config.fTxIndex then chain.txIndex.lookup hash else none with
    | some (header, tx) =>
      if tx.getHash config.hashes != hash then none else some (tx, header.getHash config.hashes)
    | none => getTransactionSlow config chain hash

end

/-! ## The kernel -/

def computeStakeModifier (hashes : Hashes) (path : List CBlockIndex) (kernel : Uint256) : Uint256 :=
  match path with
  | [] => 0
  | pindexPrev :: _ => hashPair hashes kernel pindexPrev.nStakeModifier

def checkStakeKernelHash (hashes : Hashes) (pindexPrev : CBlockIndex) (nBits : UInt32)
    (blockFromTime : UInt32) (prevoutValue : CAmount) (prevout : COutPoint) (nTimeTx : UInt32) :
    Bool :=
  if nTimeTx < blockFromTime then false
  else if prevoutValue = 0 then false
  else
    let bnTarget := (setCompact nBits).bnTarget * BitVec.ofNat 256 prevoutValue.toUInt64.toNat
    let hashProofOfStake := hashes.hash256 (writeUInt256 pindexPrev.nStakeModifier ++
      (writeUInt32 blockFromTime ++ (writeUInt256 prevout.hash ++ (writeUInt32 prevout.n ++
        writeUInt32 nTimeTx))))
    !decide (bnTarget < hashProofOfStake)

def verifySignature (crypto : Crypto) (txFrom txTo : CTransaction) (txin : CTxIn) : Bool :=
  match txFrom.vout[txin.prevout.n.toNat]? with
  | none => false
  | some txout =>
    txin.prevout.hash == txFrom.getHash crypto.toHashes &&
      (crypto.verifyScript 0 txout.scriptPubKey txTo 0).isNone

/-- The value of the staked output; `VerifySignature` has checked that it exists. -/
def stakedValue (txPrev : CTransaction) (prevout : COutPoint) : Option CAmount :=
  txPrev.vout[prevout.n.toNat]?.map CTxOut.nValue

/-- The end of `CheckProofOfStake`, with the staked transaction and its block at hand. -/
def checkStakedOutput (config : Config) (pindexPrev : CBlockIndex) (tx : CTransaction)
    (txin : CTxIn) (nBits nTimeTx : UInt32) (txPrev : CTransaction) (pblockindex : CBlockIndex) :
    Validate Unit := do
  ensure (txin.prevout.hash == txPrev.getHash config.hashes) (doS 100 0 "")
  ensure (verifySignature config.crypto txPrev tx txin) (doS 100 0 "")
  ensure (!decide ((pindexPrev.nHeight : Int) + 1 - pblockindex.nHeight <
    config.params.nCoinbaseMaturity)) (doS 100 0 "")
  let nValue ← require (stakedValue txPrev txin.prevout)
  ensure (checkStakeKernelHash config.hashes pindexPrev nBits
    (if txPrev.nTime = 0 then pblockindex.nTime else txPrev.nTime) nValue txin.prevout nTimeTx)
    (doS 1 0 "")

def checkProofOfStake (config : Config) (chain : ChainState) (pindexPrev : CBlockIndex)
    (tx : CTransaction) (nBits nTimeTx : UInt32) : Validate Unit := do
  ensure tx.isCoinStake id
  let txin ← require tx.vin.head?
  match getTransaction config chain txin.prevout.hash with
  | none => refuse (doS 100 0 "")
  | some (txPrev, hashBlock) =>
    match chain.mapBlockIndex.lookup hashBlock with
    | none => if config.fDebug then refuse (doS 100 0 "") else refuse id
    | some pblockindex =>
      checkStakedOutput config pindexPrev tx txin nBits nTimeTx txPrev pblockindex

end Jumpcoin
