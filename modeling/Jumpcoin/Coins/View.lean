import Jumpcoin.Coins.Record
import Jumpcoin.Foundation.Totals

/-!
# The coins view

`CCoinsViewCache` over its backing store, as the one map the validation code sees through it. The
cache marks a deleted entry by a pruned record, and every reader treats a pruned record and a
missing one alike (`HaveCoins`, `IsAvailable` and the duplicate check all look for an unspent
output), so the map keeps unspent records only.
-/

namespace Jumpcoin

structure CCoinsViewCache where
  cacheCoins : Finmap fun _ : Uint256 => CCoins
  hashBlock : Uint256
  deriving DecidableEq

namespace CCoinsViewCache

section

variable (view : CCoinsViewCache) (txid : Uint256)

def accessCoins : Option CCoins :=
  view.cacheCoins.lookup txid

/-- `ModifyCoins` starts from the record held, or from an empty one. -/
def modifyCoins : CCoins :=
  (view.accessCoins txid).getD CCoins.empty

/-- The end of a modification: the record is cleaned up, and dropped if nothing in it is unspent. -/
def setCoins (coins : CCoins) : CCoinsViewCache :=
  let coins := coins.cleanup
  { view with cacheCoins :=
      if coins.isPruned then view.cacheCoins.erase txid else view.cacheCoins.insert txid coins }

end

section

variable (view : CCoinsViewCache)

def setBestBlock (hashBlock : Uint256) : CCoinsViewCache :=
  { view with hashBlock }

def getOutputFor (prevout : COutPoint) : Option CTxOut := do
  let coins ← view.accessCoins prevout.hash
  let txout ← coins.vout[prevout.n.toNat]?
  if txout.isNull then none else some txout

def haveInput (prevout : COutPoint) : Bool :=
  match view.accessCoins prevout.hash with
  | some coins => coins.isAvailable prevout.n.toNat
  | none => false

def haveInputs (tx : CTransaction) : Bool :=
  tx.isCoinBase || tx.vin.all fun txin => view.haveInput txin.prevout

/-- The sum of `GetValueIn`; no value where the source asserts that an input is available. -/
def getValueInLoop (words : Signed.Words) (nResult : CAmount) : List CTxIn → Option CAmount
  | [] => some nResult
  | txin :: rest => do
    let txout ← view.getOutputFor txin.prevout
    getValueInLoop words (words.add nResult txout.nValue) rest

def getValueIn (words : Signed.Words) (tx : CTransaction) : Option CAmount :=
  if tx.isCoinBase then some 0 else view.getValueInLoop words 0 tx.vin

end

/-! ## Reading after writing -/

variable {view : CCoinsViewCache} {txid txid' : Uint256} {coins : CCoins}

lemma accessCoins_setCoins_self :
    (view.setCoins txid coins).accessCoins txid =
      if coins.cleanup.isPruned then none else some coins.cleanup := by
  simp only [accessCoins, setCoins]
  split_ifs <;> simp

lemma accessCoins_setCoins_of_ne (h : txid' ≠ txid) :
    (view.setCoins txid coins).accessCoins txid' = view.accessCoins txid' := by
  simp only [accessCoins, setCoins]
  split_ifs
  · exact Finmap.lookup_erase_ne h
  · exact Finmap.lookup_insert_of_ne _ h

end CCoinsViewCache

end Jumpcoin
