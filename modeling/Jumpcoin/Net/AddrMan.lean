import Jumpcoin.Foundation.BackIndex
import Jumpcoin.Foundation.OrderedMap
import Jumpcoin.Serialize.Vector

/-!
# The address manager

`CAddrMan` of `addrman.cpp` and `addrman.h`: the table of known peers. An address has an id; the
new addresses are in up to 8 of the 1024 buckets of `vvNew`, those that a connection was made to in
one of the 256 buckets of `vvTried`. `vRandom` lists the ids in random order.

The functions that choose a bucket and a position are parameters, and so is what is routable. Random
choices and the current time are arguments. A call gives no value if an assertion fails, if the
counter of ids overflows, or if `mapInfo` has no entry for an id that is looked up.
-/

namespace Jumpcoin

open Codec

abbrev CNetAddr := BitVec 128

structure CService where
  ip : CNetAddr
  port : UInt16
  deriving DecidableEq

structure CAddress extends CService where
  nServices : UInt64
  nTime : UInt32
  deriving DecidableEq

structure CAddrInfo extends CAddress where
  /-- Last try, in memory only. -/
  nLastTry : Int64
  /-- Last counted attempt, in memory only. -/
  nLastCountAttempt : Int64
  /-- Where knowledge about this address first came from. -/
  source : CNetAddr
  nLastSuccess : Int64
  nAttempts : Int32
  /-- Reference count in the new buckets, in memory only. -/
  nRefCount : Int
  fInTried : Bool
  /-- Position in `vRandom`. -/
  nRandomPos : Int
  deriving DecidableEq

def ADDRMAN_TRIED_BUCKET_COUNT : Nat := 256
def ADDRMAN_NEW_BUCKET_COUNT : Nat := 1024
def ADDRMAN_BUCKET_SIZE : Nat := 64
def ADDRMAN_NEW_BUCKETS_PER_ADDRESS : Int := 8
def ADDRMAN_HORIZON_DAYS : Int := 30
def ADDRMAN_RETRIES : Int := 3
def ADDRMAN_MAX_FAILURES : Int := 10
def ADDRMAN_MIN_FAIL_DAYS : Int := 7
def ADDRMAN_GETADDR_MAX_PCT : Nat := 23
def ADDRMAN_GETADDR_MAX : Nat := 2500

/-- The hashes that select buckets and positions, with the key as the first argument, and the
addresses that are routable. -/
structure AddrHashes where
  triedBucket : BitVec 256 → CService → UInt64
  newBucket : BitVec 256 → CNetAddr → CNetAddr → UInt64
  bucketPosition : BitVec 256 → Bool → Nat → CService → UInt64
  isRoutable : CNetAddr → Bool

namespace CAddrInfo

def new (addrIn : CAddress) (addrSource : CNetAddr) : CAddrInfo where
  toCAddress := addrIn
  nLastTry := 0
  nLastCountAttempt := 0
  source := addrSource
  nLastSuccess := 0
  nAttempts := 0
  nRefCount := 0
  fInTried := false
  nRandomPos := -1

/-- The default constructor; `CAddress` has this time and no services. -/
def null : CAddrInfo := new ⟨⟨0, 0⟩, 0, 100000000⟩ 0

def isTerrible (info : CAddrInfo) (nNow : Int) : Bool :=
  if info.nLastTry ≠ 0 ∧ nNow - 60 ≤ info.nLastTry.toInt then false
  else if nNow + 10 * 60 < info.nTime.toNat then true
  else if info.nTime = 0 ∨ ADDRMAN_HORIZON_DAYS * 24 * 60 * 60 < nNow - info.nTime.toNat then true
  else if info.nLastSuccess = 0 ∧ ADDRMAN_RETRIES ≤ info.nAttempts.toInt then true
  else decide (ADDRMAN_MIN_FAIL_DAYS * 24 * 60 * 60 < nNow - info.nLastSuccess.toInt ∧
    ADDRMAN_MAX_FAILURES ≤ info.nAttempts.toInt)

end CAddrInfo

namespace AddrHashes

def getTriedBucket (h : AddrHashes) (nKey : BitVec 256) (addr : CService) : Nat :=
  (h.triedBucket nKey addr).toNat % ADDRMAN_TRIED_BUCKET_COUNT

def getNewBucket (h : AddrHashes) (nKey : BitVec 256) (ip src : CNetAddr) : Nat :=
  (h.newBucket nKey ip src).toNat % ADDRMAN_NEW_BUCKET_COUNT

def getBucketPosition (h : AddrHashes) (nKey : BitVec 256) (fNew : Bool) (nBucket : Nat)
    (addr : CService) : Nat :=
  (h.bucketPosition nKey fNew nBucket addr).toNat % ADDRMAN_BUCKET_SIZE

end AddrHashes

/-- Buckets with their positions; `none` stands for -1. -/
abbrev Buckets := Nat → Nat → Option Nat

def Buckets.put (vv : Buckets) (bucket pos : Nat) (id : Option Nat) : Buckets :=
  fun b p => if b = bucket ∧ p = pos then id else vv b p

structure CAddrMan where
  /-- The next id. -/
  nIdCount : Nat
  mapInfo : OrderedMap Nat CAddrInfo
  mapAddr : CNetAddr → Option Nat
  vRandom : List Nat
  nTried : Int
  vvTried : Buckets
  nNew : Int
  vvNew : Buckets
  nLastGood : Int64
  nKey : BitVec 256

namespace CAddrMan

variable (h : AddrHashes)

/-- `Clear`, with the new random key; `mapInfo` and `mapAddr` stay as they are. -/
def clear (s : CAddrMan) (nKey : BitVec 256) : CAddrMan where
  nIdCount := 0
  mapInfo := s.mapInfo
  mapAddr := s.mapAddr
  vRandom := []
  nTried := 0
  vvTried := fun _ _ => none
  nNew := 0
  vvNew := fun _ _ => none
  nLastGood := 1
  nKey := nKey

def new (nKey : BitVec 256) : CAddrMan :=
  clear ⟨0, .empty, fun _ => none, [], 0, fun _ _ => none, 0, fun _ _ => none, 0, 0⟩ nKey

def modifyInfo (s : CAddrMan) (nId : Nat) (f : CAddrInfo → CAddrInfo) : CAddrMan :=
  { s with mapInfo := s.mapInfo.modify nId f }

def find (s : CAddrMan) (addr : CNetAddr) : Option (Nat × CAddrInfo) := do
  let nId ← s.mapAddr addr
  let info ← s.mapInfo.find? nId
  some (nId, info)

def enter (s : CAddrMan) (nId : Nat) (info : CAddrInfo) : CAddrMan :=
  { s with
    mapInfo := s.mapInfo.set nId { info with nRandomPos := s.vRandom.length }
    mapAddr := fun ip => if ip = info.ip then some nId else s.mapAddr ip
    vRandom := s.vRandom ++ [nId] }

/-- The id is an `int`, and so is the counter, which must not overflow. -/
def create (s : CAddrMan) (addr : CAddress) (addrSource : CNetAddr) : Option CAddrMan :=
  if s.nIdCount < 2 ^ 31 - 1 then
    some ({ s with nIdCount := s.nIdCount + 1 }.enter s.nIdCount (.new addr addrSource))
  else none

def swapRandom (s : CAddrMan) (nRndPos1 nRndPos2 : Nat) : Option CAddrMan :=
  if nRndPos1 = nRndPos2 then some s
  else
    match s.vRandom[nRndPos1]?, s.vRandom[nRndPos2]? with
    | some nId1, some nId2 =>
      if (s.mapInfo.find? nId1).isSome ∧ (s.mapInfo.find? nId2).isSome then
        some { (s.modifyInfo nId1 fun info => { info with nRandomPos := nRndPos2 }).modifyInfo nId2
            fun info => { info with nRandomPos := nRndPos1 } with
          vRandom := BackIndex.swap s.vRandom nRndPos1 nRndPos2 }
      else none
    | _, _ => none

def toUnsigned (i : Int) : Nat := (i % 2 ^ 32).toNat

/-- The last id leaves `vRandom`, after it has changed places with the deleted one. -/
def delete (s : CAddrMan) (nId : Nat) : Option CAddrMan := do
  let info ← s.mapInfo.find? nId
  guard (info.fInTried = false)
  guard (info.nRefCount = 0)
  guard (s.vRandom ≠ [])
  let s ← s.swapRandom (toUnsigned info.nRandomPos) (s.vRandom.length - 1)
  some { s with
    vRandom := s.vRandom.dropLast
    mapAddr := fun ip => if ip = info.ip then none else s.mapAddr ip
    mapInfo := s.mapInfo.erase nId
    nNew := s.nNew - 1 }

def dropReference (s : CAddrMan) (nId nUBucket nUBucketPos : Nat) : CAddrMan :=
  { s.modifyInfo nId fun info => { info with nRefCount := info.nRefCount - 1 } with
    vvNew := s.vvNew.put nUBucket nUBucketPos none }

def addReference (s : CAddrMan) (nId nUBucket nUBucketPos : Nat) : CAddrMan :=
  { s.modifyInfo nId fun info => { info with nRefCount := info.nRefCount + 1 } with
    vvNew := s.vvNew.put nUBucket nUBucketPos (some nId) }

def clearNew (s : CAddrMan) (nUBucket nUBucketPos : Nat) : Option CAddrMan :=
  match s.vvNew nUBucket nUBucketPos with
  | none => some s
  | some nIdDelete => do
    let infoDelete ← s.mapInfo.find? nIdDelete
    guard (0 < infoDelete.nRefCount)
    let s := s.dropReference nIdDelete nUBucket nUBucketPos
    if infoDelete.nRefCount = 1 then s.delete nIdDelete else some s

/-! ## Promotion -/

def leaveBucket (nId : Nat) (addr : CService) (s : CAddrMan) (bucket : Nat) : CAddrMan :=
  let pos := h.getBucketPosition s.nKey true bucket addr
  if s.vvNew bucket pos = some nId then s.dropReference nId bucket pos else s

section

variable (s : CAddrMan)

def leaveTried (nIdEvict nKBucket nKBucketPos : Nat) : CAddrMan :=
  { s.modifyInfo nIdEvict fun info => { info with fInTried := false } with
    vvTried := s.vvTried.put nKBucket nKBucketPos none
    nTried := s.nTried - 1 }

/-- An entry gets a reference in the new bucket it belongs to, in place of what is there. -/
def returnToNew (nIdEvict : Nat) (infoOld : CAddrInfo) : Option CAddrMan := do
  let nUBucket := h.getNewBucket s.nKey infoOld.ip infoOld.source
  let nUBucketPos := h.getBucketPosition s.nKey true nUBucket infoOld.toCService
  let s ← s.clearNew nUBucket nUBucketPos
  guard (s.vvNew nUBucket nUBucketPos = none)
  guard (s.mapInfo.find? nIdEvict).isSome
  some { s.modifyInfo nIdEvict fun info => { info with nRefCount := 1 } with
    vvNew := s.vvNew.put nUBucket nUBucketPos (some nIdEvict)
    nNew := s.nNew + 1 }

def evictTried (nKBucket nKBucketPos : Nat) : Option CAddrMan :=
  match s.vvTried nKBucket nKBucketPos with
  | none => some s
  | some nIdEvict => do
    let infoOld ← s.mapInfo.find? nIdEvict
    (s.leaveTried nIdEvict nKBucket nKBucketPos).returnToNew h nIdEvict infoOld

def enterTried (nId nKBucket nKBucketPos : Nat) : CAddrMan :=
  { s.modifyInfo nId fun info => { info with fInTried := true } with
    vvTried := s.vvTried.put nKBucket nKBucketPos (some nId)
    nTried := s.nTried + 1 }

def moveToTried (nId : Nat) (info : CAddrInfo) : Option CAddrMan := do
  let s := { s with nNew := s.nNew - 1 }
  guard ((s.mapInfo.find? nId).map CAddrInfo.nRefCount = some 0)
  let nKBucket := h.getTriedBucket s.nKey info.toCService
  let nKBucketPos := h.getBucketPosition s.nKey false nKBucket info.toCService
  let s ← s.evictTried h nKBucket nKBucketPos
  guard (s.vvTried nKBucket nKBucketPos = none)
  some (s.enterTried nId nKBucket nKBucketPos)

def makeTried (nId : Nat) : Option CAddrMan := do
  let info ← s.mapInfo.find? nId
  let s := (List.range ADDRMAN_NEW_BUCKET_COUNT).foldl (leaveBucket h nId info.toCService) s
  s.moveToTried h nId info

end

def noteSuccess (nTime : Int64) (info : CAddrInfo) : CAddrInfo :=
  { info with nLastSuccess := nTime, nLastTry := nTime, nAttempts := 0 }

/-- `Good_`; `nRnd` is the bucket with which the search for a reference starts. -/
def good_ (s : CAddrMan) (addr : CService) (nTime : Int64) (nRnd : Nat) : Option CAddrMan :=
  let s := { s with nLastGood := nTime }
  match s.find addr.ip with
  | none => some s
  | some (nId, info) =>
    if info.toCService ≠ addr then some s
    else
      let s := s.modifyInfo nId (noteSuccess nTime)
      if info.fInTried then some s
      else if (List.range ADDRMAN_NEW_BUCKET_COUNT).any fun n =>
          let nB := (n + nRnd) % ADDRMAN_NEW_BUCKET_COUNT
          s.vvNew nB (h.getBucketPosition s.nKey true nB addr) = some nId then s.makeTried h nId
      else some s

/-! ## Addition -/

def penalize (nTimePenalty : Int) (nTime : UInt32) : UInt32 :=
  UInt32.ofNat (max 0 ((nTime.toNat : Int) - nTimePenalty)).toNat

/-- What is taken over from an address that is known already; `nNow` is the adjusted time. -/
def refresh (info : CAddrInfo) (addr : CAddress) (nTimePenalty nNow : Int) : CAddrInfo :=
  let nUpdateInterval : Int :=
    if nNow - addr.nTime.toNat < 24 * 60 * 60 then 60 * 60 else 24 * 60 * 60
  let nTime :=
    if addr.nTime ≠ 0 ∧ (info.nTime = 0 ∨
        (info.nTime.toNat : Int) < addr.nTime.toNat - nUpdateInterval - nTimePenalty) then
      penalize nTimePenalty addr.nTime
    else info.nTime
  { info with nTime := nTime, nServices := info.nServices ||| addr.nServices }

/-- Nothing new is known, the entry was tried, it has enough references, or the stochastic test
fails: `nRandom` is drawn below `2 ^ nRefCount`. -/
def keepsReferences (info : CAddrInfo) (addr : CAddress) (nRandom : Nat) : Bool :=
  decide (addr.nTime = 0 ∨ (info.nTime ≠ 0 ∧ addr.nTime ≤ info.nTime)) || info.fInTried ||
    decide (info.nRefCount = ADDRMAN_NEW_BUCKETS_PER_ADDRESS) ||
    decide (1 < 2 ^ info.nRefCount.toNat ∧ nRandom ≠ 0)

def givesWay (infoExisting : CAddrInfo) (nRefCount nNow : Int) : Bool :=
  infoExisting.isTerrible nNow || decide (1 < infoExisting.nRefCount ∧ nRefCount = 0)

/-- The end of `Add_`: a reference in the bucket for the source, if there is room. -/
def insertNew (s : CAddrMan) (nId : Nat) (source : CNetAddr) (nNow : Int) : Option CAddrMan := do
  let info ← s.mapInfo.find? nId
  let nUBucket := h.getNewBucket s.nKey info.ip source
  let nUBucketPos := h.getBucketPosition s.nKey true nUBucket info.toCService
  match s.vvNew nUBucket nUBucketPos with
  | none => some (s.addReference nId nUBucket nUBucketPos)
  | some nIdExisting =>
    if nIdExisting = nId then some s
    else do
      let infoExisting ← s.mapInfo.find? nIdExisting
      if givesWay infoExisting info.nRefCount nNow then do
        let s ← s.clearNew nUBucket nUBucketPos
        some (s.addReference nId nUBucket nUBucketPos)
      else if info.nRefCount = 0 then s.delete nId
      else some s

def add_ (s : CAddrMan) (addr : CAddress) (source : CNetAddr) (nTimePenalty nNow : Int)
    (nRandom : Nat) : Option (Bool × CAddrMan) :=
  if h.isRoutable addr.ip = false then some (false, s)
  else
    match s.find addr.ip with
    | some (nId, info) =>
      let info := refresh info addr nTimePenalty nNow
      let s := s.modifyInfo nId fun _ => info
      if keepsReferences info addr nRandom then some (false, s)
      else (s.insertNew h nId source nNow).map (false, ·)
    | none => do
      let nId := s.nIdCount
      let s ← s.create addr source
      let s := { s.modifyInfo nId fun info =>
          { info with nTime := penalize nTimePenalty info.nTime } with
        nNew := s.nNew + 1 }
      (s.insertNew h nId source nNow).map (true, ·)

/-! ## Updates of one entry -/

section

variable (s : CAddrMan) (addr : CService)

/-- An entry is changed, if it is for exactly the service. -/
def update (f : CAddrInfo → CAddrInfo) : CAddrMan :=
  match s.find addr.ip with
  | none => s
  | some (nId, info) => if info.toCService ≠ addr then s else s.modifyInfo nId f

def attempt_ (fCountFailure : Bool) (nTime : Int64) : CAddrMan :=
  s.update addr fun info =>
    if fCountFailure ∧ info.nLastCountAttempt < s.nLastGood then
      { info with nLastTry := nTime, nLastCountAttempt := nTime, nAttempts := info.nAttempts + 1 }
    else { info with nLastTry := nTime }

def connected_ (nTime : Int64) : CAddrMan :=
  s.update addr fun info =>
    if 20 * 60 < nTime.toInt - info.nTime.toNat then { info with nTime := nTime.toUInt64.toUInt32 }
    else info

def setServices_ (nServices : UInt64) : CAddrMan :=
  s.update addr fun info => { info with nServices := nServices }

end

/-! ## Selection -/

/-- The loop of `GetAddr_`: the turns that are left, `n`, and what was gathered. -/
def getAddrLoop (nNow : Int) (random : Nat → Nat) (nNodes : Nat) :
    Nat → Nat → CAddrMan → List CAddress → Option (List CAddress × CAddrMan)
  | 0, _, s, vAddr => some (vAddr, s)
  | turns + 1, n, s, vAddr =>
    if nNodes ≤ vAddr.length then some (vAddr, s)
    else do
      let nRndPos := random n % (s.vRandom.length - n) + n
      let s ← s.swapRandom n nRndPos
      let nId ← s.vRandom[n]?
      let ai ← s.mapInfo.find? nId
      getAddrLoop nNow random nNodes turns (n + 1) s
        (if ai.isTerrible nNow then vAddr else vAddr ++ [ai.toCAddress])

/-- `GetAddr_`; turn `n` draws `random n` below the number of ids that are left. -/
def getAddr_ (s : CAddrMan) (nNow : Int) (random : Nat → Nat) : Option (List CAddress × CAddrMan) :=
  let nNodes := min (ADDRMAN_GETADDR_MAX_PCT * s.vRandom.length / 100) ADDRMAN_GETADDR_MAX
  getAddrLoop nNow random nNodes s.vRandom.length 0 s []

end CAddrMan

/-! ## Serialization -/

/-- What is stored of an entry. -/
structure StoredAddrInfo extends CAddress where
  source : CNetAddr
  nLastSuccess : Int64
  nAttempts : Int32
  deriving DecidableEq

def CAddrInfo.stored (info : CAddrInfo) : StoredAddrInfo :=
  ⟨info.toCAddress, info.source, info.nLastSuccess, info.nAttempts⟩

/-- `s >> info`: what is in memory only stays. -/
def CAddrInfo.restore (info : CAddrInfo) (stored : StoredAddrInfo) : CAddrInfo :=
  { info with
    toCAddress := stored.toCAddress
    source := stored.source
    nLastSuccess := stored.nLastSuccess
    nAttempts := stored.nAttempts }

def writeNetAddr (ip : CNetAddr) : Bytes := littleEndian 16 ip.toNat

def readNetAddr : Reader CNetAddr := BitVec.ofNat 128 <$> readLittleEndian 16

def writePort (port : UInt16) : Bytes :=
  [UInt8.ofNat (port.toNat / 256), UInt8.ofNat (port.toNat % 256)]

def readPort : Reader UInt16 := do
  let high ← readByte
  let low ← readByte
  pure (UInt16.ofNat (high.toNat * 256 + low.toNat))

namespace StoredAddrInfo

/-- On disk an address carries the version of the client. -/
def serialize (nVersion : Int32) (info : StoredAddrInfo) : Bytes :=
  writeInt32 nVersion ++ (writeUInt32 info.nTime ++ (writeUInt64 info.nServices ++
    (writeNetAddr info.ip ++ (writePort info.port ++ (writeNetAddr info.source ++
      (writeInt64 info.nLastSuccess ++ writeInt32 info.nAttempts))))))

def unserialize : Reader StoredAddrInfo := do
  let _ ← readInt32
  let nTime ← readUInt32
  let nServices ← readUInt64
  let ip ← readNetAddr
  let port ← readPort
  let source ← readNetAddr
  let nLastSuccess ← readInt64
  let nAttempts ← readInt32
  pure ⟨⟨⟨ip, port⟩, nServices, nTime⟩, source, nLastSuccess, nAttempts⟩

end StoredAddrInfo

/-- What a file of addresses holds. -/
structure PeersData where
  nVersion : UInt8
  nKey : BitVec 256
  nNew : Int32
  nTried : Int32
  nUBuckets : Int32
  newInfos : List StoredAddrInfo
  triedInfos : List StoredAddrInfo
  /-- For each bucket the indexes of the new entries in it. -/
  buckets : List (List Int32)
  deriving DecidableEq

namespace PeersData

def writeBucket (indexes : List Int32) : Bytes :=
  writeInt32 (Int32.ofNat indexes.length) ++ indexes.flatMap writeInt32

def readBucket : Reader (List Int32) := do
  let nSize ← readInt32
  readMany readInt32 nSize.toInt.toNat

/-- The number of buckets is stored with a bit that makes version 0 refuse it. -/
def maskBuckets (nVersion : UInt8) (nUBuckets : Int32) : Int32 :=
  if nVersion ≠ 0 then nUBuckets ^^^ 1073741824 else nUBuckets

def serialize (nClientVersion : Int32) (data : PeersData) : Bytes :=
  [data.nVersion] ++ ([32] ++ (writeUInt256 data.nKey ++ (writeInt32 data.nNew ++
    (writeInt32 data.nTried ++ (writeInt32 (maskBuckets data.nVersion data.nUBuckets) ++
      (data.newInfos.flatMap (StoredAddrInfo.serialize nClientVersion) ++
        (data.triedInfos.flatMap (StoredAddrInfo.serialize nClientVersion) ++
          data.buckets.flatMap writeBucket)))))))

/-- The stream is read entry by entry; that the number of entries is limited is checked first. -/
def unserialize : Reader PeersData := do
  let nVersion ← readByte
  let nKeySize ← readByte
  ensure (nKeySize = 32)
  let nKey ← readUInt256
  let nNew ← readInt32
  let nTried ← readInt32
  let nUBuckets ← readInt32
  ensure (nNew.toInt ≤ ADDRMAN_NEW_BUCKET_COUNT * ADDRMAN_BUCKET_SIZE)
  ensure (nTried.toInt ≤ ADDRMAN_TRIED_BUCKET_COUNT * ADDRMAN_BUCKET_SIZE)
  let newInfos ← readMany StoredAddrInfo.unserialize nNew.toInt.toNat
  let triedInfos ← readMany StoredAddrInfo.unserialize nTried.toInt.toNat
  let buckets ← readMany readBucket (maskBuckets nVersion nUBuckets).toInt.toNat
  pure ⟨nVersion, nKey, nNew, nTried, maskBuckets nVersion nUBuckets, newInfos, triedInfos,
    buckets⟩

end PeersData

namespace CAddrMan

variable (h : AddrHashes)

/-- `mapUnkIds`: the number of entries with references before each entry. -/
def mapUnkIds : Nat → List (Nat × CAddrInfo) → List (Nat × Nat)
  | _, [] => []
  | nIds, (nId, info) :: rest =>
    (nId, nIds) :: mapUnkIds (if info.nRefCount ≠ 0 then nIds + 1 else nIds) rest

def newInfos (s : CAddrMan) : List CAddrInfo :=
  (s.mapInfo.entries.map Prod.snd).filter fun info => info.nRefCount ≠ 0

def triedInfos (s : CAddrMan) : List CAddrInfo :=
  (s.mapInfo.entries.map Prod.snd).filter CAddrInfo.fInTried

def bucketIndexes (s : CAddrMan) (bucket : Nat) : List Int32 :=
  ((List.range ADDRMAN_BUCKET_SIZE).filterMap (s.vvNew bucket)).map fun nId =>
    Int32.ofNat (((mapUnkIds 0 s.mapInfo.entries).lookup nId).getD 0)

def peersData (s : CAddrMan) : PeersData where
  nVersion := 1
  nKey := s.nKey
  nNew := Int32.ofInt s.nNew
  nTried := Int32.ofInt s.nTried
  nUBuckets := Int32.ofNat ADDRMAN_NEW_BUCKET_COUNT
  newInfos := s.newInfos.map CAddrInfo.stored
  triedInfos := s.triedInfos.map CAddrInfo.stored
  buckets := (List.range ADDRMAN_NEW_BUCKET_COUNT).map s.bucketIndexes

/-- `Serialize`; before each entry it asserts that the counter has not been reached. -/
def serialize (s : CAddrMan) (nClientVersion : Int32) : Option Bytes := do
  guard (∀ nIds < s.newInfos.length, (nIds : Int) ≠ s.nNew)
  guard (∀ nIds < s.triedInfos.length, (nIds : Int) ≠ s.nTried)
  some (s.peersData.serialize nClientVersion)

/-! ### Reading -/

def loadNew (data : PeersData) (s : CAddrMan) (n : Nat) (stored : StoredAddrInfo) : CAddrMan :=
  let info := ((s.mapInfo.find? n).getD .null).restore stored
  let s := s.enter n info
  if data.nVersion ≠ 1 ∨ data.nUBuckets.toInt ≠ ADDRMAN_NEW_BUCKET_COUNT then
    let nUBucket := h.getNewBucket s.nKey info.ip info.source
    let nUBucketPos := h.getBucketPosition s.nKey true nUBucket info.toCService
    if s.vvNew nUBucket nUBucketPos = none then s.addReference n nUBucket nUBucketPos else s
  else s

/-- An entry of the tried table; it is lost if its place is taken. -/
def loadTried (s : CAddrMan) (stored : StoredAddrInfo) : CAddrMan :=
  let info := { CAddrInfo.null.restore stored with fInTried := true }
  let nKBucket := h.getTriedBucket s.nKey info.toCService
  let nKBucketPos := h.getBucketPosition s.nKey false nKBucket info.toCService
  if s.vvTried nKBucket nKBucketPos = none then
    { s.enter s.nIdCount info with
      vvTried := s.vvTried.put nKBucket nKBucketPos (some s.nIdCount)
      nIdCount := s.nIdCount + 1 }
  else { s with nTried := s.nTried - 1 }

def loadReference (data : PeersData) (bucket : Nat) (s : CAddrMan) (nIndex : Int32) :
    Option CAddrMan :=
  if 0 ≤ nIndex.toInt ∧ nIndex.toInt < s.nNew then do
    let n := nIndex.toInt.toNat
    let info ← s.mapInfo.find? n
    let nUBucketPos := h.getBucketPosition s.nKey true bucket info.toCService
    if data.nVersion = 1 ∧ data.nUBuckets.toInt = ADDRMAN_NEW_BUCKET_COUNT ∧
        s.vvNew bucket nUBucketPos = none ∧ info.nRefCount < ADDRMAN_NEW_BUCKETS_PER_ADDRESS then
      some (s.addReference n bucket nUBucketPos)
    else some s
  else some s

def pruneEntry (s : CAddrMan) (nId : Nat) : Option CAddrMan := do
  let info ← s.mapInfo.find? nId
  if info.fInTried = false ∧ info.nRefCount = 0 then s.delete nId else some s

def load (s : CAddrMan) (data : PeersData) : Option CAddrMan := do
  let s := { s.clear data.nKey with nNew := data.nNew.toInt, nTried := data.nTried.toInt }
  let s := data.newInfos.zipIdx.foldl (fun s entry => s.loadNew h data entry.2 entry.1) s
  let s := { s with nIdCount := data.nNew.toInt.toNat }
  let s := data.triedInfos.foldl (loadTried h) s
  let s ← data.buckets.zipIdx.foldlM
    (fun s bucket => bucket.1.foldlM (loadReference h data bucket.2) s) s
  (s.mapInfo.entries.map Prod.fst).foldlM pruneEntry s

def unserialize (s : CAddrMan) (bytes : Bytes) : Option CAddrMan := do
  let (data, _) ← PeersData.unserialize.run bytes
  s.load h data

/-! ## The consistency check -/

def failUnless (ok : Bool) (code : Int) : Except Int Unit :=
  if ok then .ok () else .error code

def checkInfo (s : CAddrMan) (n : Nat) (info : CAddrInfo) : Except Int Unit := do
  if info.fInTried then
    failUnless (info.nLastSuccess ≠ 0) (-1)
    failUnless (info.nRefCount = 0) (-2)
  else
    failUnless (0 ≤ info.nRefCount ∧ info.nRefCount ≤ ADDRMAN_NEW_BUCKETS_PER_ADDRESS) (-3)
    failUnless (info.nRefCount ≠ 0) (-4)
  failUnless ((s.mapAddr info.ip).getD 0 = n) (-5)
  failUnless (0 ≤ info.nRandomPos ∧ s.vRandom[info.nRandomPos.toNat]? = some n) (-14)
  failUnless (0 ≤ info.nLastTry.toInt) (-6)
  failUnless (0 ≤ info.nLastSuccess.toInt) (-8)

def setTried (s : CAddrMan) : List Nat :=
  (s.mapInfo.entries.filter fun e => e.2.fInTried).map Prod.fst

def mapNew (s : CAddrMan) : List (Nat × Int) :=
  (s.mapInfo.entries.filter fun e => !e.2.fInTried).map fun e => (e.1, e.2.nRefCount)

def cells (bucketCount : Nat) : List (Nat × Nat) :=
  (List.range bucketCount).product (List.range ADDRMAN_BUCKET_SIZE)

def checkTriedCell (s : CAddrMan) (setTried : List Nat) (cell : Nat × Nat) :
    Except Int (List Nat) :=
  match s.vvTried cell.1 cell.2 with
  | none => .ok setTried
  | some nId => do
    failUnless (setTried.contains nId) (-11)
    let addr := ((s.mapInfo.find? nId).getD .null).toCService
    failUnless (h.getTriedBucket s.nKey addr = cell.1) (-17)
    failUnless (h.getBucketPosition s.nKey false cell.1 addr = cell.2) (-18)
    .ok (setTried.erase nId)

/-- `--mapNew[nId]`, and the entry goes when it is 0. -/
def countDown (mapNew : List (Nat × Int)) (nId : Nat) : List (Nat × Int) :=
  (mapNew.map fun e => if e.1 = nId then (e.1, e.2 - 1) else e).filter fun e =>
    ¬(e.1 = nId ∧ e.2 = 0)

def checkNewCell (s : CAddrMan) (mapNew : List (Nat × Int)) (cell : Nat × Nat) :
    Except Int (List (Nat × Int)) :=
  match s.vvNew cell.1 cell.2 with
  | none => .ok mapNew
  | some nId => do
    failUnless (mapNew.any fun e => e.1 = nId) (-12)
    let addr := ((s.mapInfo.find? nId).getD .null).toCService
    failUnless (h.getBucketPosition s.nKey true cell.1 addr = cell.2) (-19)
    .ok (countDown mapNew nId)

def checkAll (s : CAddrMan) : Except Int Unit := do
  failUnless ((s.vRandom.length : Int) = s.nTried + s.nNew) (-7)
  s.mapInfo.entries.forM fun e => s.checkInfo e.1 e.2
  failUnless ((s.setTried.length : Int) = s.nTried) (-9)
  failUnless ((s.mapNew.length : Int) = s.nNew) (-10)
  let setTried ← (cells ADDRMAN_TRIED_BUCKET_COUNT).foldlM (s.checkTriedCell h) s.setTried
  let mapNew ← (cells ADDRMAN_NEW_BUCKET_COUNT).foldlM (s.checkNewCell h) s.mapNew
  failUnless (setTried = []) (-13)
  failUnless (mapNew = []) (-15)
  failUnless (s.nKey ≠ 0) (-16)

def check_ (s : CAddrMan) : Int :=
  match s.checkAll h with
  | .ok () => 0
  | .error code => code

end CAddrMan

end Jumpcoin
