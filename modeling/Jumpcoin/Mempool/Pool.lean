import Jumpcoin.Foundation.BackIndex
import Jumpcoin.Foundation.Table
import Jumpcoin.Primitives.Block

/-!
# The memory pool

`CTxMemPool` of `txmempool.cpp`: the transactions that may be included in the next block, with their
links to the transactions of the pool that they spend from, and with the totals over their ancestors
and descendants.

An entry is found by the hash that its transaction carries, and this hash also stands for the
entry's iterator, except in `vTxHashes`: this vector is not told when an entry goes, and an iterator
in it names a `node` of the container, which is not used again. Sets of iterators are lists without
repetition; their order, by hash in the source, has no influence on what is modelled. A failed
assertion and the use of an iterator whose entry is gone give no value.

Left out are the counter of updates, the fee estimator, the measured memory usage, and the time, the
lock points and the priority of a transaction.
-/

namespace Jumpcoin

/-! ## Entries -/

structure CTxMemPoolEntry where
  tx : CTransaction
  hash : Uint256
  nFee : CAmount
  nTxSize : UInt64
  sigOpCount : Int64
  feeDelta : Int64
  nCountWithDescendants : UInt64
  nSizeWithDescendants : UInt64
  nModFeesWithDescendants : CAmount
  nCountWithAncestors : UInt64
  nSizeWithAncestors : UInt64
  nModFeesWithAncestors : CAmount
  nSigOpCountWithAncestors : Int64
  /-- Index in the pool's `vTxHashes`. -/
  vTxHashesIdx : Nat
  /-- The node of the container that holds the entry. -/
  node : Nat
  deriving DecidableEq

namespace CTxMemPoolEntry

def new (hashes : Hashes) (tx : CTransaction) (nFee : CAmount) (sigOpCount : Int64) :
    CTxMemPoolEntry where
  tx := tx
  hash := tx.getHash hashes
  nFee := nFee
  nTxSize := tx.getSerializeSize.toUInt64
  sigOpCount := sigOpCount
  feeDelta := 0
  nCountWithDescendants := 1
  nSizeWithDescendants := tx.getSerializeSize.toUInt64
  nModFeesWithDescendants := nFee
  nCountWithAncestors := 1
  nSizeWithAncestors := tx.getSerializeSize.toUInt64
  nModFeesWithAncestors := nFee
  nSigOpCountWithAncestors := sigOpCount
  vTxHashesIdx := 0
  node := 0

section

variable (e : CTxMemPoolEntry)

def getModifiedFee : CAmount :=
  e.nFee + e.feeDelta

def updateFeeDelta (newFeeDelta : Int64) : CTxMemPoolEntry :=
  { e with
    nModFeesWithDescendants := e.nModFeesWithDescendants + (newFeeDelta - e.feeDelta)
    nModFeesWithAncestors := e.nModFeesWithAncestors + (newFeeDelta - e.feeDelta)
    feeDelta := newFeeDelta }

def updateDescendantState (modifySize : Int64) (modifyFee : CAmount)
    (modifyCount : Int64) : CTxMemPoolEntry :=
  { e with
    nSizeWithDescendants := e.nSizeWithDescendants + modifySize.toUInt64
    nModFeesWithDescendants := e.nModFeesWithDescendants + modifyFee
    nCountWithDescendants := e.nCountWithDescendants + modifyCount.toUInt64 }

def descendantStateOk : Bool :=
  decide (0 < e.nSizeWithDescendants.toInt64) && decide (0 < e.nCountWithDescendants.toInt64)

/-- The number of signature operations is passed as an `int`. -/
def updateAncestorState (modifySize : Int64) (modifyFee : CAmount)
    (modifyCount : Int64) (modifySigOps : Int64) : CTxMemPoolEntry :=
  { e with
    nSizeWithAncestors := e.nSizeWithAncestors + modifySize.toUInt64
    nModFeesWithAncestors := e.nModFeesWithAncestors + modifyFee
    nCountWithAncestors := e.nCountWithAncestors + modifyCount.toUInt64
    nSigOpCountWithAncestors := e.nSigOpCountWithAncestors + modifySigOps.toInt32.toInt64 }

def ancestorStateOk : Bool :=
  decide (0 < e.nSizeWithAncestors.toInt64) && decide (0 < e.nCountWithAncestors.toInt64) &&
    decide (0 ≤ e.nSigOpCountWithAncestors.toInt32)

end

end CTxMemPoolEntry

/-! ## The pool -/

structure TxLinks where
  parents : List Uint256
  children : List Uint256
  deriving DecidableEq

structure CTxMemPool where
  mapTx : Table CTxMemPoolEntry.hash
  mapLinks : Uint256 → Option TxLinks
  /-- The transaction of the pool that spends an output. -/
  mapNextTx : COutPoint → Option Uint256
  /-- The fee deltas. -/
  mapDeltas : Uint256 → Option CAmount
  /-- All transaction hashes and iterators of `mapTx`, in random order. -/
  vTxHashes : List (Uint256 × Nat)
  totalTxSize : UInt64
  /-- The next node that the container takes. -/
  nextNode : Nat

namespace CTxMemPool

def new : CTxMemPool where
  mapTx := .empty
  mapLinks := fun _ => none
  mapNextTx := fun _ => none
  mapDeltas := fun _ => none
  vTxHashes := []
  totalTxSize := 0
  nextNode := 0

def exists? (pool : CTxMemPool) (hash : Uint256) : Bool :=
  pool.mapTx.contains hash

lemma hash_ite_mem {set : List Uint256} {f : CTxMemPoolEntry → CTxMemPoolEntry}
    (hf : ∀ e, (f e).hash = e.hash) (e : CTxMemPoolEntry) :
    (if e.hash ∈ set then f e else e).hash = e.hash := by
  split_ifs
  exacts [hf e, rfl]

section

variable (pool : CTxMemPool)

/-- `mapTx.modify` for each entry of a set, with what the modification asserts. -/
def modifyEntries (set : List Uint256) (f : CTxMemPoolEntry → CTxMemPoolEntry)
    (hf : ∀ e, (f e).hash = e.hash) (ok : CTxMemPoolEntry → Bool) : Option CTxMemPool :=
  let mapTx := pool.mapTx.modify (fun e => if e.hash ∈ set then f e else e) (hash_ite_mem hf)
  if mapTx.entries.all fun e => !decide (e.hash ∈ set) || ok e then
    some { pool with mapTx := mapTx }
  else none

/-! ### Links -/

/-- The links of an entry are changed; `mapLinks[entry]` makes them if there are none. -/
def modifyLinks (entry : Uint256) (f : TxLinks → TxLinks) : CTxMemPool :=
  { pool with
    mapLinks := fun hash =>
      if hash = entry then some (f ((pool.mapLinks entry).getD ⟨[], []⟩)) else pool.mapLinks hash }

def updateChild (entry child : Uint256) (add : Bool) : CTxMemPool :=
  pool.modifyLinks entry fun links =>
    { links with
      children := if add then links.children.insert child else links.children.erase child }

def updateParent (entry parent : Uint256) (add : Bool) : CTxMemPool :=
  pool.modifyLinks entry fun links =>
    { links with
      parents := if add then links.parents.insert parent else links.parents.erase parent }

def getMemPoolParents (entry : Uint256) : Option (List Uint256) :=
  (pool.mapLinks entry).map TxLinks.parents

/-! ### Totals -/

/-- The entries of a set; no value if an iterator is invalid. -/
def entriesOf (set : List Uint256) : Option (List CTxMemPoolEntry) :=
  set.mapM pool.mapTx.find?

def updateAncestorsOf (add : Bool) (hash : Uint256)
    (setAncestors : List Uint256) : Option CTxMemPool := do
  let parentIters ← pool.getMemPoolParents hash
  let it ← pool.mapTx.find? hash
  let pool := parentIters.foldl (fun pool piter => pool.updateChild piter hash add) pool
  let updateCount : Int64 := if add then 1 else -1
  let updateSize := updateCount * it.nTxSize.toInt64
  let updateFee := updateCount * it.getModifiedFee
  pool.modifyEntries setAncestors
    (fun e => e.updateDescendantState updateSize updateFee updateCount) (fun _ => rfl)
    CTxMemPoolEntry.descendantStateOk

def updateEntryForAncestors (hash : Uint256) (setAncestors : List Uint256) : Option CTxMemPool := do
  let ancestors ← pool.entriesOf setAncestors
  let updateCount := (UInt64.ofNat setAncestors.length).toInt64
  let updateSize := (ancestors.map fun e => e.nTxSize.toInt64).sum
  let updateFee := (ancestors.map CTxMemPoolEntry.getModifiedFee).sum
  let updateSigOpsCount := (ancestors.map CTxMemPoolEntry.sigOpCount).sum
  pool.modifyEntries [hash]
    (fun e => e.updateAncestorState updateSize updateFee updateCount updateSigOpsCount)
    (fun _ => rfl) CTxMemPoolEntry.ancestorStateOk

/-! ### Adding and removing -/

/-- `mapTx.insert(entry).first`; nothing changes if there is an entry with the hash. -/
def insertEntry (entry : CTxMemPoolEntry) : CTxMemPool :=
  if pool.exists? entry.hash then pool
  else
    { pool with
      mapTx := pool.mapTx.insert { entry with node := pool.nextNode }
      nextNode := pool.nextNode + 1 }

def insertLinks (hash : Uint256) : CTxMemPool :=
  { pool with
    mapLinks := fun h =>
      if h = hash then (pool.mapLinks h).or (some ⟨[], []⟩) else pool.mapLinks h }

def applyDelta (hash : Uint256) : CTxMemPool :=
  match pool.mapDeltas hash with
  | none => pool
  | some delta =>
    if delta = 0 then pool
    else
      { pool with
        mapTx := pool.mapTx.modify
          (fun e => if e.hash = hash then e.updateFeeDelta delta else e) (by
          intro e
          split_ifs <;> rfl) }

/-- The outputs that a transaction spends; one that is spent already keeps its spender. -/
def insertSpends (tx : CTransaction) (hash : Uint256) : CTxMemPool :=
  { pool with
    mapNextTx := fun prevout =>
      if prevout ∈ tx.vin.map CTxIn.prevout then (pool.mapNextTx prevout).or (some hash)
      else pool.mapNextTx prevout }

def linkParents (tx : CTransaction) (hash : Uint256) : CTxMemPool :=
  (tx.vin.map fun txin => txin.prevout.hash).dedup.foldl
    (fun pool phash => if pool.exists? phash then pool.updateParent hash phash true else pool) pool

/-- `vTxHashes.emplace_back(hash, newit)`, and the position goes to the entry. -/
def pushHash (newit : CTxMemPoolEntry) : CTxMemPool :=
  { pool with
    vTxHashes := pool.vTxHashes ++ [(newit.hash, newit.node)]
    mapTx := pool.mapTx.modify
      (fun e => if e.node = newit.node then { e with vTxHashesIdx := pool.vTxHashes.length } else e)
      (by
        intro e
        split_ifs <;> rfl) }

def addUnchecked (entry : CTxMemPoolEntry) (setAncestors : List Uint256) : Option CTxMemPool := do
  let pool := ((pool.insertEntry entry).insertLinks entry.hash).applyDelta entry.hash
  let newit ← pool.mapTx.find? entry.hash
  let pool := (pool.insertSpends newit.tx newit.hash).linkParents newit.tx newit.hash
  let pool ← pool.updateAncestorsOf true newit.hash setAncestors
  let pool ← pool.updateEntryForAncestors newit.hash setAncestors
  let pool := { pool with totalTxSize := pool.totalTxSize + entry.nTxSize }
  some (pool.pushHash newit)

/-- The last iterator takes the place of the removed one; the entry it names must be there to be
told. -/
def dropHash (it : CTxMemPoolEntry) : Option CTxMemPool :=
  if 1 < pool.vTxHashes.length then
    match pool.vTxHashes.getLast? with
    | none => none
    | some back =>
      if it.vTxHashesIdx < pool.vTxHashes.length ∧ ∃ e ∈ pool.mapTx.entries, e.node = back.2 then
        some { pool with
          vTxHashes := BackIndex.swapRemove pool.vTxHashes it.vTxHashesIdx
          mapTx := pool.mapTx.modify
            (fun e => if e.node = back.2 then { e with vTxHashesIdx := it.vTxHashesIdx } else e)
            (by
              intro e
              split_ifs <;> rfl) }
      else none
  else some { pool with vTxHashes := [] }

def removeUnchecked (hash : Uint256) : Option CTxMemPool := do
  let it ← pool.mapTx.find? hash
  let pool ← pool.dropHash it
  some { pool with
    mapNextTx := fun prevout =>
      if prevout ∈ it.tx.vin.map CTxIn.prevout then none else pool.mapNextTx prevout
    totalTxSize := pool.totalTxSize - it.nTxSize
    mapLinks := fun h => if h = hash then none else pool.mapLinks h
    mapTx := pool.mapTx.erase hash }

def clear : CTxMemPool :=
  { pool with
    mapLinks := fun _ => none
    mapTx := .empty
    mapNextTx := fun _ => none
    totalTxSize := 0 }

end

end CTxMemPool

end Jumpcoin
