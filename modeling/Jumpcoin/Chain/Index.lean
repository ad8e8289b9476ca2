import Jumpcoin.Chain.Target
import Jumpcoin.Consensus.Params
import Jumpcoin.Primitives.Block
import Mathlib.Data.Finmap
import Mathlib.Data.List.Sort

/-!
# The block index

`CBlockIndex` of `chain.h`, the map of all known entries, and the functions that walk from an entry
to its ancestors: median time, ancestors by height, and the difficulty of the next block
(`pow.cpp`).

The predecessor of an entry is named by its hash. A function of the source that takes a pointer to
an entry and follows `pprev` takes here the path of that entry: the entry and its ancestors, the
entry itself first. The null pointer is the empty path.
-/

namespace Jumpcoin

/-- The bits of `nStatus`: the validity level (`BLOCK_VALID_MASK`) and the flags. -/
structure BlockStatus where
  nValid : Nat
  haveData : Bool
  haveUndo : Bool
  failedValid : Bool
  failedChild : Bool
  proofOfStake : Bool
  deriving DecidableEq, Repr

def BLOCK_VALID_TREE : Nat := 2
def BLOCK_VALID_TRANSACTIONS : Nat := 3
def BLOCK_VALID_SCRIPTS : Nat := 5

namespace BlockStatus

def empty : BlockStatus := ⟨0, false, false, false, false, false⟩

/-- `nStatus & BLOCK_FAILED_MASK`. -/
def failed (status : BlockStatus) : Bool :=
  status.failedValid || status.failedChild

def isValid (status : BlockStatus) (nUpTo : Nat) : Bool :=
  !status.failed && decide (nUpTo ≤ status.nValid)

def raiseValidity (status : BlockStatus) (nUpTo : Nat) : BlockStatus :=
  if !status.failed && decide (status.nValid < nUpTo) then { status with nValid := nUpTo }
  else status

end BlockStatus

structure CBlockIndex where
  hashBlock : Uint256
  pprev : Option Uint256
  nHeight : Nat
  nChainWork : Uint256
  nTx : Nat
  nChainTx : Nat
  nStatus : BlockStatus
  nStakeModifier : Uint256
  nTime : UInt32
  nBits : UInt32
  nSequenceId : Nat
  deriving DecidableEq, Repr

namespace CBlockIndex

/-- The entry for a header, before it is linked to its predecessor. -/
def ofHeader (hash : Uint256) (header : CBlockHeader) : CBlockIndex where
  hashBlock := hash
  pprev := none
  nHeight := 0
  nChainWork := 0
  nTx := 0
  nChainTx := 0
  nStatus := .empty
  nStakeModifier := 0
  nTime := header.nTime
  nBits := header.nBits
  nSequenceId := 0

def getBlockTime (pindex : CBlockIndex) : Int :=
  pindex.nTime.toNat

def isProofOfStake (pindex : CBlockIndex) : Bool :=
  pindex.nStatus.proofOfStake

def getBlockProof (pindex : CBlockIndex) : Uint256 :=
  Jumpcoin.getBlockProof pindex.nBits

end CBlockIndex

/-! ## Paths -/

/-- `mapBlockIndex`. -/
abbrev BlockMap := Finmap fun _ : Uint256 => CBlockIndex

/-- Follow `pprev` at most as often as the bound says. -/
def ancestry (mapBlockIndex : BlockMap) : Nat → Option Uint256 → List CBlockIndex
  | 0, _ => []
  | fuel + 1, pprev =>
    match pprev.bind mapBlockIndex.lookup with
    | none => []
    | some pindex => pindex :: ancestry mapBlockIndex fuel pindex.pprev

/-- An entry and its ancestors; the height of the entry bounds their number. -/
def pathOf (mapBlockIndex : BlockMap) (pindex : CBlockIndex) : List CBlockIndex :=
  pindex :: ancestry mapBlockIndex pindex.nHeight pindex.pprev

def nextHeight : List CBlockIndex → Nat
  | [] => 0
  | pindexPrev :: _ => pindexPrev.nHeight + 1

def getAncestor (path : List CBlockIndex) (height : Int) : Option CBlockIndex :=
  match path with
  | [] => none
  | pindex :: _ =>
    if (pindex.nHeight : Int) < height ∨ height < 0 then none
    else path.find? fun pindexWalk => decide ((pindexWalk.nHeight : Int) = height)

/-- `GetLastBlockIndex`: the path of the last block of a kind, or of the first block. -/
def getLastBlockIndex (fProofOfStake : Bool) : List CBlockIndex → List CBlockIndex
  | pindex :: pprev :: rest =>
    if pindex.isProofOfStake ≠ fProofOfStake then getLastBlockIndex fProofOfStake (pprev :: rest)
    else pindex :: pprev :: rest
  | path => path

def nMedianTimeSpan : Nat := 11

def getMedianTimePast (path : List CBlockIndex) : Option Int :=
  let times := ((path.take nMedianTimeSpan).map CBlockIndex.getBlockTime).insertionSort (· ≤ ·)
  times[times.length / 2]?

def getPastTimeLimit (params : Params) (path : List CBlockIndex) : Option Int :=
  match path with
  | [] => none
  | pindex :: _ =>
    if params.isProtocolV2 pindex.getBlockTime then some pindex.getBlockTime
    else getMedianTimePast path

/-! ## Difficulty -/

def getTargetLimit (params : Params) (nTime : Int) (fProofOfStake : Bool) : Uint256 :=
  if fProofOfStake then
    if params.isProtocolV2 nTime then params.posLimitV2 else params.posLimit
  else params.powLimit

/-- `CalculateNextTargetRequired`. The factor is cut to 32 bits by the overload of `operator*=`
that the source selects, and the divisor is taken as a 64-bit word. -/
def calculateNextTargetRequired (params : Params) (pindexLast : CBlockIndex)
    (nFirstBlockTime : Int) (fProofOfStake : Bool) : UInt32 :=
  if if fProofOfStake then params.fPoSNoRetargeting else params.fPowNoRetargeting then
    pindexLast.nBits
  else
    let nTime := pindexLast.getBlockTime
    let nTargetSpacing :=
      if params.isProtocolV2 nTime then params.nTargetSpacing else params.nTargetSpacingV1
    let nActualSpacing := nTime - nFirstBlockTime
    let nActualSpacing :=
      if params.isProtocolV1RetargetingFixed nTime && decide (nActualSpacing < 0) then
        nTargetSpacing
      else nActualSpacing
    let nActualSpacing :=
      if params.isProtocolV3 nTime && decide (nTargetSpacing * 10 < nActualSpacing) then
        nTargetSpacing * 10
      else nActualSpacing
    let bnTargetLimit := getTargetLimit params nTime fProofOfStake
    let nInterval := params.nTargetTimespan.tdiv nTargetSpacing
    let factor := ((nInterval - 1) * nTargetSpacing + nActualSpacing + nActualSpacing) % 2 ^ 32
    let divisor := ((nInterval + 1) * nTargetSpacing) % 2 ^ 64
    let bnNew := (setCompact pindexLast.nBits).bnTarget * BitVec.ofInt 256 factor /
      BitVec.ofInt 256 divisor
    getCompact (if bnNew == 0 || decide (bnTargetLimit < bnNew) then bnTargetLimit else bnNew)

def getNextTargetRequired (params : Params) (path : List CBlockIndex) (fProofOfStake : Bool) :
    UInt32 :=
  match path with
  | [] => getCompact params.powLimit
  | pindexLast :: _ =>
    let nTargetLimit :=
      getCompact (getTargetLimit params pindexLast.getBlockTime fProofOfStake)
    match getLastBlockIndex fProofOfStake path with
    | pindexPrev :: pprev :: rest =>
      match getLastBlockIndex fProofOfStake (pprev :: rest) with
      | pindexPrevPrev :: _ :: _ =>
        calculateNextTargetRequired params pindexPrev pindexPrevPrev.getBlockTime fProofOfStake
      | _ => nTargetLimit
    | _ => nTargetLimit

end Jumpcoin
