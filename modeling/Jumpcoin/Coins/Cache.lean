import Jumpcoin.Coins.View

/-!
# The coins caches

`CCoinsViewCache` as it is: records with flags over another view, which may be a cache again, down
to the database. A record is `DIRTY` if it may differ from the view below, and `FRESH` if the view
below has no unspent record of that transaction; what is not dirty need not be written on a flush,
and what is fresh and spent can be dropped.

A modifier is created, used and destroyed in one step. How much memory the vectors of a record take
depends on how they came about, so every record in a cache carries the amount, and `alloc` says what
a copy of a record takes.
-/

namespace Jumpcoin

structure CCoinsCacheEntry where
  coins : CCoins
  /-- `DynamicMemoryUsage` of the record -/
  nUsage : Nat
  dirty : Bool
  fresh : Bool
  deriving DecidableEq

/-- One `CCoinsViewCache`, without the view below it. -/
structure CoinsCache where
  cacheCoins : Finmap fun _ : Uint256 => CCoinsCacheEntry
  hashBlock : Uint256
  cachedCoinsUsage : Int
  deriving DecidableEq

/-- The database; only records with unspent outputs can be serialized, and reading one cleans it. -/
structure CCoinsViewDB where
  coins : Finmap fun _ : Uint256 => CCoins
  bestBlock : Uint256
  unspent : ∀ txid record, coins.lookup txid = some record →
    record.Clean ∧ record.isPruned = false

/-- A stack of caches over a database. -/
inductive CoinsView where
  | db (store : CCoinsViewDB)
  | cache (cache : CoinsCache) (base : CoinsView)

/-- Vectors without elements take no memory. -/
def CCoins.usage (coins : CCoins) (nAllocated : Nat) : Nat :=
  if coins.vout = [] then 0 else nAllocated

/-- What a reader makes of a record: one that is spent is as good as none. -/
def CCoins.unspent? (coins : CCoins) : Option CCoins :=
  if coins.isPruned then none else some coins

namespace CoinsCache

def empty : CoinsCache := ⟨∅, 0, 0⟩

/-- The end of `FetchCoins`: a record that was found in the view below is kept. -/
def fetched (alloc : CCoins → Nat) (cache : CoinsCache) (txid : Uint256) (tmp : CCoins) :
    CoinsCache :=
  let nUsage := tmp.usage (alloc tmp)
  { cache with
    cacheCoins := cache.cacheCoins.insert txid ⟨tmp, nUsage, false, tmp.isPruned⟩
    cachedCoinsUsage := cache.cachedCoinsUsage + nUsage }

section

variable (cache : CoinsCache) (txid : Uint256)

/-- The destructor of `CCoinsModifier` after the record was changed; `nOldUsage` is the
`cachedCoinUsage` of the modifier. -/
def modified (entry : CCoinsCacheEntry)
    (change : CCoins → CCoins) (nAllocated nOldUsage : Nat) : CoinsCache :=
  let coins := (change entry.coins).cleanup
  let nUsage := coins.usage nAllocated
  if entry.fresh && coins.isPruned then
    { cache with
      cacheCoins := cache.cacheCoins.erase txid
      cachedCoinsUsage := cache.cachedCoinsUsage - nOldUsage }
  else
    { cache with
      cacheCoins := cache.cacheCoins.insert txid { entry with coins, nUsage }
      cachedCoinsUsage := cache.cachedCoinsUsage - nOldUsage + nUsage }

def modifyNewCoins (coinbase : Bool) (change : CCoins → CCoins) (nAllocated : Nat) : CoinsCache :=
  let fresh := ((cache.cacheCoins.lookup txid).map CCoinsCacheEntry.fresh).getD false
  cache.modified txid ⟨CCoins.empty, 0, true, !coinbase || fresh⟩ change nAllocated 0

def uncache : CoinsCache :=
  match cache.cacheCoins.lookup txid with
  | some entry =>
    if !entry.dirty && !entry.fresh then
      { cache with
        cacheCoins := cache.cacheCoins.erase txid
        cachedCoinsUsage := cache.cachedCoinsUsage - entry.nUsage }
    else cache
  | none => cache

end

def writeEntry (cache : CoinsCache) (written : Uint256 × CCoinsCacheEntry) : CoinsCache :=
  let (txid, entry) := written
  if entry.dirty then
    match cache.cacheCoins.lookup txid with
    | none =>
      if entry.fresh && entry.coins.isPruned then cache
      else
        { cache with
          cacheCoins := cache.cacheCoins.insert txid { entry with dirty := true }
          cachedCoinsUsage := cache.cachedCoinsUsage + entry.nUsage }
    | some itUs =>
      if itUs.fresh && entry.coins.isPruned then
        { cache with
          cacheCoins := cache.cacheCoins.erase txid
          cachedCoinsUsage := cache.cachedCoinsUsage - itUs.nUsage }
      else
        { cache with
          cacheCoins := cache.cacheCoins.insert txid
            { entry with dirty := true, fresh := itUs.fresh }
          cachedCoinsUsage := cache.cachedCoinsUsage - itUs.nUsage + entry.nUsage }
  else cache

end CoinsCache

namespace CCoinsViewDB

def erase (store : CCoinsViewDB) (txid : Uint256) : CCoinsViewDB where
  coins := store.coins.erase txid
  bestBlock := store.bestBlock
  unspent := by
    intro txid' record h
    by_cases heq : txid' = txid
    · rw [heq, Finmap.lookup_erase] at h
      cases h
    · rw [Finmap.lookup_erase_ne heq] at h
      exact store.unspent txid' record h

/-- Write a record with unspent outputs; what can be read back is the cleaned record. -/
def insert (store : CCoinsViewDB) (txid : Uint256) (coins : CCoins)
    (hunspent : coins.isPruned = false) : CCoinsViewDB where
  coins := store.coins.insert txid coins.cleanup
  bestBlock := store.bestBlock
  unspent := by
    intro txid' record h
    rcases lookup_insert_cases h with ⟨-, rfl⟩ | ⟨-, h⟩
    · exact ⟨CCoins.cleanup_clean coins, (CCoins.isPruned_cleanup coins).trans hunspent⟩
    · exact store.unspent txid' record h

/-- One turn of the loop of `BatchWrite`. -/
def writeEntry (store : CCoinsViewDB) (written : Uint256 × CCoinsCacheEntry) : CCoinsViewDB :=
  let (txid, entry) := written
  if entry.dirty then
    if h : entry.coins.isPruned = false then store.insert txid entry.coins h else store.erase txid
  else store

end CCoinsViewDB

namespace CoinsView

variable (alloc : CCoins → Nat)

/-- `FetchCoins` and with it `GetCoins` and `AccessCoins`: every cache on the way keeps a copy. -/
def getCoins (txid : Uint256) : CoinsView → Option CCoins × CoinsView
  | db store => (store.coins.lookup txid, db store)
  | cache top base =>
    match top.cacheCoins.lookup txid with
    | some entry => (some entry.coins, cache top base)
    | none =>
      match base.getCoins txid with
      | (none, base') => (none, cache top base')
      | (some tmp, base') => (some tmp, cache (top.fetched alloc txid tmp) base')

/-- `HaveCoins`, which looks at the number of outputs only. -/
def haveCoins (txid : Uint256) (view : CoinsView) : Bool × CoinsView :=
  let (coins, view') := view.getCoins alloc txid
  (coins.any fun coins => !coins.vout.isEmpty, view')

def modifyCoins (txid : Uint256) (change : CCoins → CCoins) (nAllocated : Nat)
    (top : CoinsCache) (base : CoinsView) : CoinsView :=
  match top.cacheCoins.lookup txid with
  | some entry =>
    cache (top.modified txid { entry with dirty := true } change nAllocated entry.nUsage) base
  | none =>
    match base.getCoins alloc txid with
    | (none, base') =>
      cache (top.modified txid ⟨CCoins.empty, 0, true, true⟩ change nAllocated 0) base'
    | (some coins, base') =>
      cache (top.modified txid ⟨coins, coins.usage (alloc coins), true, coins.isPruned⟩ change
        nAllocated 0) base'

def getBestBlock : CoinsView → Uint256 × CoinsView
  | db store => (store.bestBlock, db store)
  | cache top base =>
    if top.hashBlock = 0 then
      let (hashBlock, base') := base.getBestBlock
      (hashBlock, cache { top with hashBlock } base')
    else (top.hashBlock, cache top base)

/-- `BatchWrite` of entries in the order in which the map of the writing cache lists them. -/
def batchWrite (mapCoins : List (Uint256 × CCoinsCacheEntry)) (hashBlockIn : Uint256) :
    CoinsView → CoinsView
  | db store =>
    let store' := mapCoins.foldl CCoinsViewDB.writeEntry store
    db (if hashBlockIn = 0 then store' else { store' with bestBlock := hashBlockIn })
  | cache top base =>
    cache { mapCoins.foldl CoinsCache.writeEntry top with hashBlock := hashBlockIn } base

def flush (mapCoins : List (Uint256 × CCoinsCacheEntry)) (top : CoinsCache) (base : CoinsView) :
    CoinsView :=
  cache { top with cacheCoins := ∅, cachedCoinsUsage := 0 } (base.batchWrite mapCoins top.hashBlock)

def backend : CoinsView → CoinsView
  | db store => db store
  | cache _ base => base

end CoinsView

end Jumpcoin
