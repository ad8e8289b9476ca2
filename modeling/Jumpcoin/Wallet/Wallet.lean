import Jumpcoin.Foundation.Worklist
import Jumpcoin.Validation.CheckBlock
import Mathlib.Data.List.AList

/-!
# The wallet

`wallet/wallet.cpp`: the transactions of the wallet, which of them spend which outputs, and what of
it is given up, counts as balance and can be spent.

The active chain is a list of blocks, the tip first. A wallet transaction names the block that
holds it, or the block whose transactions it conflicts with; its depth is read from the active chain
each time. Routines that can fail an assertion or throw have no value then.

`mapTxSpends` is a list of pairs. Reading `mapWallet` with `[]` makes an entry where there is none,
as in the source.
-/

namespace Jumpcoin

open Codec

/-! ## Wallet transactions -/

abbrev IsMineType := UInt8

def ISMINE_NO : IsMineType := 0
def ISMINE_WATCH_SOLVABLE : IsMineType := 2
def ISMINE_WATCH_ONLY : IsMineType := 3
def ISMINE_SPENDABLE : IsMineType := 4

/-- Constant used in hashBlock to indicate tx has been abandoned. -/
def ABANDON_HASH : Uint256 := 1

/-- A transaction with a bunch of additional info that only the owner cares about. A cached amount
is missing while its flag is false. -/
structure CWalletTx where
  tx : CTransaction
  hashBlock : Uint256 := 0
  /-- An nIndex == -1 means that hashBlock (in nonzero) refers to the earliest block in the chain we
  know this or any in-wallet dependency conflicts with. -/
  nIndex : Int := -1
  debitCached : Option CAmount := none
  watchDebitCached : Option CAmount := none
  availableCreditCached : Option CAmount := none
  deriving DecidableEq

namespace CWalletTx

def hashUnset (wtx : CWalletTx) : Bool :=
  wtx.hashBlock == 0 || wtx.hashBlock == ABANDON_HASH

def isAbandoned (wtx : CWalletTx) : Bool :=
  wtx.hashBlock == ABANDON_HASH

def markDirty (wtx : CWalletTx) : CWalletTx :=
  { wtx with debitCached := none, watchDebitCached := none, availableCreditCached := none }

/-- Depth of the transaction in the chain: negative if it conflicts with a transaction this deep,
zero if it is in no block of the chain. -/
def getDepthInMainChain (hashes : Hashes) (chain : List CBlock) (wtx : CWalletTx) : Int :=
  if wtx.hashUnset then 0
  else
    match chain.findIdx? (fun block => block.getHash hashes == wtx.hashBlock) with
    | none => 0
    | some i => (if wtx.nIndex = -1 then -1 else 1) * (i + 1)

/-- The updates that `AddToWallet` makes to an entry from a transaction it is given again. -/
def merge (wtx wtxIn : CWalletTx) : CWalletTx :=
  let wtx :=
    if !wtxIn.hashUnset ∧ wtxIn.hashBlock ≠ wtx.hashBlock then
      { wtx with hashBlock := wtxIn.hashBlock }
    else wtx
  -- If no longer abandoned, update
  let wtx :=
    if wtxIn.hashBlock = 0 ∧ wtx.isAbandoned then { wtx with hashBlock := wtxIn.hashBlock }
    else wtx
  if wtxIn.nIndex ≠ -1 ∧ wtxIn.nIndex ≠ wtx.nIndex then { wtx with nIndex := wtxIn.nIndex }
  else wtx

end CWalletTx

/-! ## The wallet and its surroundings -/

structure CWallet where
  mapWallet : AList fun _ : Uint256 => CWalletTx
  mapTxSpends : List (COutPoint × Uint256)
  setLockedCoins : List COutPoint

/-- What the wallet depends on and does not change: its keys, the hash functions and settings. -/
structure WalletContext where
  hashes : Hashes
  isMine : CScript → IsMineType
  nCoinbaseMaturity : Int
  bSpendZeroConfChange : Bool

/-- What the wallet reads from the rest of the node. -/
structure Surroundings where
  chain : List CBlock
  inMempool : Uint256 → Bool
  adjustedTime : Int

namespace CWallet

def empty : CWallet := ⟨∅, [], []⟩

def lookup (w : CWallet) (hash : Uint256) : Option CWalletTx :=
  w.mapWallet.lookup hash

def set (w : CWallet) (hash : Uint256) (wtx : CWalletTx) : CWallet :=
  { w with mapWallet := w.mapWallet.insert hash wtx }

def markDirty (w : CWallet) (hash : Uint256) : CWallet :=
  match w.lookup hash with
  | none => w
  | some wtx => w.set hash wtx.markDirty

def markInputsDirty (w : CWallet) (vin : List CTxIn) : CWallet :=
  vin.foldl (fun w txin => w.markDirty txin.prevout.hash) w

/-- Outpoint is spent if any non-conflicted transaction spends it. -/
def isSpent (hashes : Hashes) (chain : List CBlock) (w : CWallet) (outpoint : COutPoint) : Bool :=
  w.mapTxSpends.any fun entry => entry.1 == outpoint &&
    match w.lookup entry.2 with
    | none => false
    | some wtx =>
      let depth := wtx.getDepthInMainChain hashes chain
      decide (0 < depth) || (depth == 0 && !wtx.isAbandoned)

/-! ## Whose is it -/

section

variable (ctx : WalletContext) (w : CWallet)

def getDebitIn (filter : IsMineType) (txin : CTxIn) : CAmount :=
  match w.lookup txin.prevout.hash with
  | none => 0
  | some prev =>
    match prev.tx.vout[txin.prevout.n.toNat]? with
    | none => 0
    | some txout => if ctx.isMine txout.scriptPubKey &&& filter ≠ 0 then txout.nValue else 0

def getDebitLoop (filter : IsMineType) (nDebit : CAmount) : List CTxIn → Option CAmount
  | [] => some nDebit
  | txin :: rest =>
    let sum := nDebit + w.getDebitIn ctx filter txin
    if !moneyRange sum then none else getDebitLoop filter sum rest

def getDebit (tx : CTransaction) (filter : IsMineType) : Option CAmount :=
  w.getDebitLoop ctx filter 0 tx.vin

end

/-! ## Spends -/

def spendsOf (hash : Uint256) (tx : CTransaction) : List (COutPoint × Uint256) :=
  -- Coinbases don't spend anything!
  if tx.isCoinBase then [] else tx.vin.map fun txin => (txin.prevout, hash)

def addToSpends (w : CWallet) (hash : Uint256) (tx : CTransaction) : CWallet :=
  { w with mapTxSpends := w.mapTxSpends ++ spendsOf hash tx }

/-! ## Abandoned transactions -/

/-- The order of `std::map<uint256, ...>`: that of the bytes in memory. -/
def memoryLe (a b : Uint256) : Prop :=
  writeUInt256 a ≤ writeUInt256 b

instance : DecidableRel memoryLe := fun a b =>
  inferInstanceAs (Decidable (writeUInt256 a ≤ writeUInt256 b))

/-- As many visits as there can be: the first transaction and those in `mapTxSpends`. -/
def traversalFuel (w : CWallet) : Nat :=
  w.mapTxSpends.length + 1

def spendersOf (w : CWallet) (now : Uint256) : List Uint256 :=
  (w.mapTxSpends.filter fun entry => entry.1.hash == now).map Prod.snd

/-- The entries that the inner loop of `AbandonTransaction` goes over. It starts at the first spend
of `hashTx`, also for the transactions that depend on it, and ends where the hash is not `now`. -/
def spendersFrom (w : CWallet) (hashTx now : Uint256) : List Uint256 :=
  if memoryLe hashTx now ∧
      ∀ entry ∈ w.mapTxSpends, memoryLe hashTx entry.1.hash → memoryLe now entry.1.hash then
    w.spendersOf now
  else []

def abandonVisit (hashes : Hashes) (sur : Surroundings) (hashTx now : Uint256) (w : CWallet) :
    Option (CWallet × List Uint256) :=
  match w.lookup now with
  | none => none
  | some wtx =>
    let currentconfirm := wtx.getDepthInMainChain hashes sur.chain
    -- If the orig tx was not in block, none of its spends can be
    if 0 < currentconfirm then none
    else if currentconfirm = 0 ∧ wtx.isAbandoned = false then
      -- If the orig tx was not in block/mempool, none of its spends can be in mempool
      if sur.inMempool (wtx.tx.getHash hashes) then none
      else
        let w' := w.set now { wtx.markDirty with nIndex := -1, hashBlock := ABANDON_HASH }
        some (w'.markInputsDirty wtx.tx.vin, w.spendersFrom hashTx now)
    else some (w, [])

def abandonTransaction (hashes : Hashes) (sur : Surroundings) (w : CWallet) (hashTx : Uint256) :
    Option (Bool × CWallet) :=
  match w.lookup hashTx with
  | none => none
  | some origtx =>
    -- Can't mark abandoned if confirmed or in mempool
    if 0 < origtx.getDepthInMainChain hashes sur.chain ∨
        sur.inMempool (origtx.tx.getHash hashes) = true then
      some (false, w)
    else
      (Worklist.run memoryLe (abandonVisit hashes sur hashTx) w.traversalFuel [hashTx] [] w).map
        fun w' => (true, w')

/-! ## Following the chain -/

/-- `AddToWallet` of a transaction that does not come from the wallet file. -/
def addToWallet (hashes : Hashes) (w : CWallet) (wtxIn : CWalletTx) : CWallet :=
  let hash := wtxIn.tx.getHash hashes
  match w.lookup hash with
  | none => (w.set hash wtxIn.markDirty).addToSpends hash wtxIn.tx
  | some wtx => w.set hash (wtx.merge wtxIn).markDirty

section

variable (ctx : WalletContext)

/-! ## Amounts -/

def getBlocksToMaturity (chain : List CBlock) (wtx : CWalletTx) : Int :=
  if !(wtx.tx.isCoinBase || wtx.tx.isCoinStake) then 0
  else max 0 (ctx.nCoinbaseMaturity + 1 - wtx.getDepthInMainChain ctx.hashes chain)

def getCredit (txout : CTxOut) (filter : IsMineType) : Option CAmount :=
  if !moneyRange txout.nValue then none
  else some (if ctx.isMine txout.scriptPubKey &&& filter ≠ 0 then txout.nValue else 0)

/-- The loop of `GetAvailableCredit` over the outputs from position `i` on. -/
def creditLoop (spent : UInt32 → Bool) (nCredit : CAmount) (i : UInt32) :
    List CTxOut → Option CAmount
  | [] => some nCredit
  | txout :: rest =>
    if spent i then creditLoop spent nCredit (i + 1) rest
    else do
      let credit ← getCredit ctx txout ISMINE_SPENDABLE
      if !moneyRange (nCredit + credit) then none
      else creditLoop spent (nCredit + credit) (i + 1) rest

def unspentCredit (chain : List CBlock) (w : CWallet) (tx : CTransaction) : Option CAmount :=
  creditLoop ctx (fun i => w.isSpent ctx.hashes chain ⟨tx.getHash ctx.hashes, i⟩) 0 0 tx.vout

def getAvailableCredit (chain : List CBlock) (w : CWallet)
    (wtx : CWalletTx) : Option (CAmount × CWalletTx) :=
  -- Must wait until coinbase is safely deep enough in the chain before valuing it
  if (wtx.tx.isCoinBase || wtx.tx.isCoinStake) &&
      decide (0 < getBlocksToMaturity ctx chain wtx) then
    some (0, wtx)
  else
    match wtx.availableCreditCached with
    | some nAvailableCreditCached => some (nAvailableCreditCached, wtx)
    | none => do
      let nCredit ← w.unspentCredit ctx chain wtx.tx
      some (nCredit, { wtx with availableCreditCached := some nCredit })

/-- `CWalletTx::GetDebit(ISMINE_ALL)`, and the entry with its caches filled. -/
def getDebitAll (w : CWallet) (wtx : CWalletTx) : Option (CAmount × CWalletTx) :=
  if wtx.tx.vin.isEmpty then some (0, wtx)
  else do
    let nDebit ←
      match wtx.debitCached with
      | some nDebitCached => some nDebitCached
      | none => w.getDebit ctx wtx.tx ISMINE_SPENDABLE
    let nWatchDebit ←
      match wtx.watchDebitCached with
      | some nWatchDebitCached => some nWatchDebitCached
      | none => w.getDebit ctx wtx.tx ISMINE_WATCH_ONLY
    some (nDebit + nWatchDebit,
      { wtx with debitCached := some nDebit, watchDebitCached := some nWatchDebit })

/-- Whether inputs are all from us; the position of a parent's output is not checked. -/
def inputsTrusted (w : CWallet) : List CTxIn → Option Bool
  | [] => some true
  | txin :: rest =>
    match w.lookup txin.prevout.hash with
    | none => some false
    | some parent => do
      let parentOut ← parent.tx.vout[txin.prevout.n.toNat]?
      if ctx.isMine parentOut.scriptPubKey ≠ ISMINE_SPENDABLE then some false
      else inputsTrusted w rest

end

def checkFinalTx (sur : Surroundings) (tx : CTransaction) : Bool :=
  isFinalTx tx sur.chain.length sur.adjustedTime

section

variable (ctx : WalletContext) (sur : Surroundings)

/-- Whether an entry is trusted, and the entry with its caches filled. -/
def isTrusted (w : CWallet) (wtx : CWalletTx) : Option (Bool × CWalletTx) :=
  let nDepth := wtx.getDepthInMainChain ctx.hashes sur.chain
  -- Quick answer in most cases
  if !checkFinalTx sur wtx.tx then some (false, wtx)
  else if 1 ≤ nDepth then some (true, wtx)
  else if nDepth < 0 then some (false, wtx)
  else if !ctx.bSpendZeroConfChange then some (false, wtx)
  else do
    let (nDebit, wtx) ← w.getDebitAll ctx wtx
    if !decide (0 < nDebit) then some (false, wtx)
    -- Don't trust unconfirmed transactions from us unless they are in the mempool.
    else if !sur.inMempool (wtx.tx.getHash ctx.hashes) then some (false, wtx)
    else do
      let trusted ← w.inputsTrusted ctx wtx.tx.vin
      some (trusted, wtx)

def getBalanceLoop : List Uint256 → CAmount → CWallet → Option (CAmount × CWallet)
  | [], nTotal, w => some (nTotal, w)
  | hash :: rest, nTotal, w =>
    match w.lookup hash with
    | none => getBalanceLoop rest nTotal w
    | some wtx => do
      let (trusted, wtx) ← w.isTrusted ctx sur wtx
      let w := w.set hash wtx
      if !trusted then getBalanceLoop rest nTotal w
      else do
        let (nCredit, wtx) ← w.getAvailableCredit ctx sur.chain wtx
        getBalanceLoop rest (nTotal + nCredit) (w.set hash wtx)

def getBalance (w : CWallet) : Option (CAmount × CWallet) :=
  w.getBalanceLoop ctx sur w.mapWallet.keys 0

end

/-! ## Available coins -/

/-- An output that is listed: its transaction, its position and its depth, and whether it can be
spent. -/
structure COutput where
  outpoint : COutPoint
  nDepth : Int
  fSpendable : Bool
  deriving DecidableEq

/-- The part of `CCoinControl` that the list of coins depends on. -/
structure CoinSelection where
  fAllowOtherInputs : Bool
  fAllowWatchOnly : Bool
  setSelected : List COutPoint

section

variable (ctx : WalletContext) (sur : Surroundings) (w : CWallet)

def availableCoinsOf (coinControl : Option CoinSelection) (fIncludeZeroValue : Bool)
    (wtxid : Uint256) (pcoin : CWalletTx) : List COutput :=
  let nDepth := pcoin.getDepthInMainChain ctx.hashes sur.chain
  pcoin.tx.vout.zipIdx.filterMap fun (txout, i) =>
    let outpoint : COutPoint := ⟨wtxid, UInt32.ofNat i⟩
    let mine := ctx.isMine txout.scriptPubKey
    if !w.isSpent ctx.hashes sur.chain outpoint && mine != ISMINE_NO &&
        !w.setLockedCoins.contains outpoint && (decide (0 < txout.nValue) || fIncludeZeroValue) &&
        (match coinControl with
          | none => true
          | some control => control.setSelected.isEmpty || control.fAllowOtherInputs ||
              control.setSelected.contains outpoint) then
      some ⟨outpoint, nDepth,
        mine &&& ISMINE_SPENDABLE != ISMINE_NO ||
          (match coinControl with
            | none => false
            | some control => control.fAllowWatchOnly &&
                mine &&& ISMINE_WATCH_SOLVABLE != ISMINE_NO)⟩
    else none

/-- `AvailableCoins`; the caches that `IsTrusted` fills are left out of the result. -/
def availableCoins (fOnlyConfirmed : Bool) (coinControl : Option CoinSelection)
    (fIncludeZeroValue : Bool) : Option (List COutput) :=
  w.mapWallet.entries.foldlM (fun vCoins entry => do
    let pcoin : CWalletTx := entry.2
    let nDepth := pcoin.getDepthInMainChain ctx.hashes sur.chain
    if !checkFinalTx sur pcoin.tx then some vCoins
    else do
      let trusted ←
        if fOnlyConfirmed then (w.isTrusted ctx sur pcoin).map Prod.fst else some true
      if !trusted then some vCoins
      else if (pcoin.tx.isCoinBase || pcoin.tx.isCoinStake) &&
          decide (0 < getBlocksToMaturity ctx sur.chain pcoin) then some vCoins
      else if nDepth < 0 then some vCoins
      -- We should not consider coins which aren't at least in our mempool
      else if nDepth == 0 && !sur.inMempool (pcoin.tx.getHash ctx.hashes) then some vCoins
      else some (vCoins ++
        w.availableCoinsOf ctx sur coinControl fIncludeZeroValue entry.1 pcoin)) []

def availableCoinsForStaking : List COutput :=
  w.mapWallet.entries.flatMap fun entry =>
    let pcoin : CWalletTx := entry.2
    let nDepth := pcoin.getDepthInMainChain ctx.hashes sur.chain
    if nDepth < 1 then []
    else if nDepth < ctx.nCoinbaseMaturity then []
    else if 0 < getBlocksToMaturity ctx sur.chain pcoin then []
    else pcoin.tx.vout.zipIdx.filterMap fun (txout, i) =>
      let outpoint : COutPoint := ⟨entry.1, UInt32.ofNat i⟩
      let mine := ctx.isMine txout.scriptPubKey
      if !w.isSpent ctx.hashes sur.chain outpoint && mine != ISMINE_NO &&
          !w.setLockedCoins.contains outpoint && decide (0 < txout.nValue) then
        some ⟨outpoint, nDepth,
          mine &&& ISMINE_SPENDABLE != ISMINE_NO || mine &&& ISMINE_WATCH_SOLVABLE != ISMINE_NO⟩
      else none

end

end CWallet

end Jumpcoin
