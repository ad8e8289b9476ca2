import Jumpcoin.Coins.Undo
import Jumpcoin.Consensus.Validation

/-!
# Disconnecting a block

`DisconnectBlock` of `main.cpp`: the transactions of a block are taken back in reverse order, their
outputs removed and their inputs restored from the undo information. It returns false, with nothing
in the validation state, where the undo information is missing, cannot be read, or does not fit the
block, and where the coins are not those the block left.
-/

namespace Jumpcoin

open Codec (Bytes)
open Check CValidationState

/-- A step of taking back, and whether all was as expected. -/
structure Undone where
  view : CCoinsViewCache
  fClean : Bool

def setOutput (vout : List CTxOut) (nPos : Nat) (txout : CTxOut) : List CTxOut :=
  (vout ++ List.replicate (nPos + 1 - vout.length) CTxOut.null).set nPos txout

def applyTxInUndo (view : CCoinsViewCache) (undo : CTxInUndo) (out : COutPoint) : Undone :=
  let coins := view.modifyCoins out.hash
  let restored : CCoins :=
    if undo.nHeight ≠ 0 then
      { CCoins.empty with
        fCoinBase := undo.fCoinBase
        fCoinStake := undo.fCoinStake
        nHeight := undo.nHeight.toInt32
        nVersion := undo.nVersion
        nTime := undo.nTime }
    else coins
  { view := view.setCoins out.hash
      { restored with vout := setOutput restored.vout out.n.toNat undo.txout }
    -- a record is pruned exactly where its last output was the one spent
    fClean := (coins.isPruned == decide (undo.nHeight ≠ 0)) &&
      !restored.isAvailable out.n.toNat }

def restoreInputs : CCoinsViewCache → List (CTxIn × CTxInUndo) → Undone
  | view, [] => ⟨view, true⟩
  | view, (txin, undo) :: rest =>
    let later := restoreInputs view rest
    let this := applyTxInUndo later.view undo txin.prevout
    ⟨this.view, later.fClean && this.fClean⟩

def removeOutputs (hashes : Hashes) (view : CCoinsViewCache) (tx : CTransaction) (nHeight : Nat) :
    Undone :=
  let hash := tx.getHash hashes
  let outs := (view.modifyCoins hash).clearUnspendable
  let outsBlock := CCoins.fromTx tx (Int32.ofNat nHeight)
  let outs := if outsBlock.nVersion < 0 then { outs with nVersion := outsBlock.nVersion } else outs
  ⟨view.setCoins hash CCoins.empty, outs.equals outsBlock⟩

def disconnectTx (hashes : Hashes) (nHeight : Nat) (tx : CTransaction) (txundo : CTxUndo)
    (later : Undone) : Option Undone :=
  if txundo.vprevout.length ≠ tx.vin.length then none
  else
    let removed := removeOutputs hashes later.view tx nHeight
    let restored := restoreInputs removed.view (tx.vin.zip txundo.vprevout)
    some ⟨restored.view, later.fClean && removed.fClean && restored.fClean⟩

def disconnectTxs (hashes : Hashes) (nHeight : Nat) (view : CCoinsViewCache) :
    List (CTransaction × CTxUndo) → Option Undone
  | [] => some ⟨view, true⟩
  | (tx, txundo) :: rest => do
    let later ← disconnectTxs hashes nHeight view rest
    disconnectTx hashes nHeight tx txundo later

def disconnectTransactions (hashes : Hashes) (nHeight : Nat) (block : CBlock)
    (blockUndo : CBlockUndo) (view : CCoinsViewCache) : Option CCoinsViewCache :=
  match block.vtx with
  | [] => none
  | coinBase :: rest => do
    if blockUndo.vtxundo.length ≠ rest.length then none
    else do
      let later ← disconnectTxs hashes nHeight view (rest.zip blockUndo.vtxundo)
      let removed := removeOutputs hashes later.view coinBase nHeight
      if later.fClean && removed.fClean then some removed.view else none

/-- `DisconnectBlock` for the block with hash `hash` and a predecessor with hash `hashPrev`; the
undo file, if there is one, is given by its bytes. -/
def disconnectBlock (hashes : Hashes) (keys : PubKeyLib) (block : CBlock) (hash hashPrev : Uint256)
    (nHeight : Nat) (undoFile : Option Bytes) (view : CCoinsViewCache) :
    Validate CCoinsViewCache := do
  demand (hash == view.hashBlock)
  match undoFile.bind fun bytes => CBlockUndo.undoReadFromDisk hashes keys bytes hashPrev with
  | none => refuse id
  | some blockUndo =>
    match disconnectTransactions hashes nHeight block blockUndo view with
    | none => refuse id
    | some view' => pure (view'.setBestBlock hashPrev)

end Jumpcoin
