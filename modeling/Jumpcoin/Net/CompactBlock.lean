import Jumpcoin.Mempool.Pool
import Jumpcoin.Validation.CheckBlock

/-!
# Compact blocks

`CBlockHeaderAndShortTxIDs` and `PartiallyDownloadedBlock` of `blockencodings.cpp`: a block is sent
as its header, short ids of its transactions and some transactions in full, and the receiver finds
the rest in its memory pool or asks for it.

The short ids are computed with keys that depend on the header and a nonce. The receiver puts the
transactions sent in full into their places and assigns the places that are left to the short ids,
in order. The place of a short id is kept in 16 bits, and so is the number of places to skip.

What `std::unordered_map` reports as the size of a bucket depends on the implementation and is a
parameter. A computation that does not return, or that uses an index or an iterator that is not
valid, gives no value.
-/

namespace Jumpcoin

open Codec Option

/-- The functions that short ids are computed with: SHA-256 and SipHash. -/
structure ShortIdHashes where
  sha256 : Bytes → Uint256
  sipHashUint256 : UInt64 → UInt64 → Uint256 → UInt64

structure PrefilledTransaction where
  /-- The distance from the place after the last prefilled transaction. -/
  index : UInt16
  tx : CTransaction
  deriving DecidableEq

structure CBlockHeaderAndShortTxIDs where
  header : CBlockHeader
  nonce : UInt64
  vchBlockSig : Bytes
  shorttxids : List UInt64
  prefilledtxn : List PrefilledTransaction
  deriving DecidableEq

/-! ## Short ids -/

def shortTxIDSelector (fns : ShortIdHashes) (header : CBlockHeader) (nonce : UInt64) :
    UInt64 × UInt64 :=
  let shorttxidhash := fns.sha256 (header.serialize ++ writeUInt64 nonce)
  (UInt64.ofNat shorttxidhash.toNat, UInt64.ofNat (shorttxidhash.toNat / 2 ^ 64))

def getShortID (fns : ShortIdHashes) (header : CBlockHeader) (nonce : UInt64) (txhash : Uint256) :
    UInt64 :=
  let (k0, k1) := shortTxIDSelector fns header nonce
  fns.sipHashUint256 k0 k1 txhash &&& 0xffffffffffff

namespace CBlockHeaderAndShortTxIDs

/-- The constructor from a block; it throws on a block without transactions. -/
def ofBlock (fns : ShortIdHashes) (hashes : Hashes) (nonce : UInt64) (block : CBlock) :
    Option CBlockHeaderAndShortTxIDs :=
  match block.vtx with
  | [] => none
  | coinbase :: rest => some {
      header := block.toCBlockHeader
      nonce := nonce
      vchBlockSig := block.vchBlockSig
      shorttxids := rest.map fun tx =>
        getShortID fns block.toCBlockHeader nonce (tx.getHash hashes)
      prefilledtxn := [⟨0, coinbase⟩] }

def blockTxCount (cmpctblock : CBlockHeaderAndShortTxIDs) : Nat :=
  cmpctblock.shorttxids.length + cmpctblock.prefilledtxn.length

end CBlockHeaderAndShortTxIDs

/-! ## Serialization -/

def writeShortID (id : UInt64) : Bytes :=
  writeUInt32 (UInt32.ofNat (id.toNat % 2 ^ 32)) ++
    writeUInt16 (UInt16.ofNat (id.toNat / 2 ^ 32 % 2 ^ 16))

def readShortID : Reader UInt64 := do
  let lsb ← readUInt32
  let msb ← readUInt16
  pure (UInt64.ofNat (msb.toNat * 2 ^ 32 + lsb.toNat))

namespace PrefilledTransaction

def serialize (p : PrefilledTransaction) : Bytes :=
  writeCompactSize p.index.toNat ++ p.tx.serialize

def unserialize : Reader PrefilledTransaction := do
  let idx ← readCompactSize
  ensure (idx ≤ 0xffff)
  let tx ← CTransaction.unserialize
  pure ⟨UInt16.ofNat idx, tx⟩

end PrefilledTransaction

namespace CBlockHeaderAndShortTxIDs

def serialize (cmpctblock : CBlockHeaderAndShortTxIDs) : Bytes :=
  cmpctblock.header.serialize ++ (writeUInt64 cmpctblock.nonce ++
    (writeByteVector cmpctblock.vchBlockSig ++ (writeVector writeShortID cmpctblock.shorttxids ++
      writeVector PrefilledTransaction.serialize cmpctblock.prefilledtxn)))

def unserialize : Reader CBlockHeaderAndShortTxIDs := do
  let header ← CBlockHeader.unserialize
  let nonce ← readUInt64
  let vchBlockSig ← readByteVector
  let shorttxids ← readVector readShortID
  let prefilledtxn ← readVector PrefilledTransaction.unserialize
  pure ⟨header, nonce, vchBlockSig, shorttxids, prefilledtxn⟩

end CBlockHeaderAndShortTxIDs

/-! ### Round trips -/

lemma readShortID_reads {id : UInt64} (h : id.toNat < 2 ^ 48) :
    Reads readShortID (writeShortID id) id := by
  have hjoin : (UInt16.ofNat (id.toNat / 2 ^ 32 % 2 ^ 16)).toNat * 2 ^ 32 +
      (UInt32.ofNat (id.toNat % 2 ^ 32)).toNat = id.toNat := by
    rw [UInt16.toNat_ofNat', UInt32.toNat_ofNat']
    omega
  refine (readUInt32_reads _).bind ((readUInt16_reads _).bind_nil ?_)
  rw [hjoin, UInt64.ofNat_toNat]
  exact Reads.pure id

lemma PrefilledTransaction.unserialize_reads {p : PrefilledTransaction} (h : p.tx.WireForm) :
    Reads unserialize p.serialize p := by
  have hindex := p.index.toNat_lt
  have hsize : p.index.toNat ≤ MAX_SIZE := hindex.le.trans (by decide)
  have hensure : decide (p.index.toNat ≤ 0xffff) = true := by
    rw [decide_eq_true_eq]
    omega
  have hpure : Reads (Pure.pure ⟨UInt16.ofNat p.index.toNat, p.tx⟩) [] p := by
    rw [UInt16.ofNat_toNat]
    exact Reads.pure p
  exact (readCompactSize_reads hsize).bind <| (ensure_reads hensure).nil_bind <|
    (CTransaction.unserialize_reads h).bind_nil hpure

lemma PrefilledTransaction.unserialize_recovers {p : PrefilledTransaction}
    (h : p.tx.Countable) : Recovers unserialize p.serialize ⟨p.index, p.tx.onWire⟩ := by
  have hsize : p.index.toNat < 2 ^ 64 := p.index.toNat_lt.trans (by decide)
  have hpure : Recovers (Pure.pure ⟨UInt16.ofNat p.index.toNat, p.tx.onWire⟩) []
      (⟨p.index, p.tx.onWire⟩ : PrefilledTransaction) := by
    rw [UInt16.ofNat_toNat]
    exact Recovers.pure _
  exact (readCompactSize_recovers hsize).bind <| (ensure_recovers _).nil_bind <|
    (CTransaction.unserialize_recovers h).bind_nil hpure

namespace CBlockHeaderAndShortTxIDs

variable {cmpctblock : CBlockHeaderAndShortTxIDs}

/-- A message as deserialization can produce it. -/
structure WireForm (cmpctblock : CBlockHeaderAndShortTxIDs) : Prop where
  vchBlockSig : cmpctblock.vchBlockSig.length ≤ MAX_SIZE
  shorttxids : cmpctblock.shorttxids.length ≤ MAX_SIZE
  shortID : ∀ id ∈ cmpctblock.shorttxids, id.toNat < 2 ^ 48
  prefilledtxn : cmpctblock.prefilledtxn.length ≤ MAX_SIZE
  tx : ∀ p ∈ cmpctblock.prefilledtxn, p.tx.WireForm

lemma unserialize_reads (h : cmpctblock.WireForm) :
    Reads unserialize cmpctblock.serialize cmpctblock := by
  have hids := readVector_reads (f := id) h.shorttxids fun id hid =>
    readShortID_reads (h.shortID id hid)
  have hprefilled := readVector_reads (f := id) h.prefilledtxn fun p hp =>
    PrefilledTransaction.unserialize_reads (h.tx p hp)
  rw [List.map_id] at hids hprefilled
  exact (CBlockHeader.unserialize_reads _).bind <| (readUInt64_reads _).bind <|
    (readByteVector_reads h.vchBlockSig).bind <| hids.bind <| hprefilled.bind_nil (Reads.pure _)

/-- The sizes that the types in memory allow, and short ids of six bytes. -/
structure Countable (cmpctblock : CBlockHeaderAndShortTxIDs) : Prop where
  vchBlockSig : cmpctblock.vchBlockSig.length < 2 ^ 64
  shorttxids : cmpctblock.shorttxids.length < 2 ^ 64
  shortID : ∀ id ∈ cmpctblock.shorttxids, id.toNat < 2 ^ 48
  prefilledtxn : cmpctblock.prefilledtxn.length < 2 ^ 64
  tx : ∀ p ∈ cmpctblock.prefilledtxn, p.tx.Countable

def onWire (cmpctblock : CBlockHeaderAndShortTxIDs) : CBlockHeaderAndShortTxIDs :=
  { cmpctblock with
    prefilledtxn := cmpctblock.prefilledtxn.map fun p => ⟨p.index, p.tx.onWire⟩ }

lemma unserialize_recovers (h : cmpctblock.Countable) :
    Recovers unserialize cmpctblock.serialize cmpctblock.onWire := by
  have hids := readVector_recovers (f := id) h.shorttxids fun id hid =>
    (readShortID_reads (h.shortID id hid)).recovers
  have hprefilled := readVector_recovers h.prefilledtxn fun p hp =>
    PrefilledTransaction.unserialize_recovers (h.tx p hp)
  rw [List.map_id] at hids
  exact (CBlockHeader.unserialize_reads _).recovers.bind <| (readUInt64_reads _).recovers.bind <|
    (readByteVector_recovers h.vchBlockSig).bind <| hids.bind <|
      hprefilled.bind_nil (Recovers.pure _)

end CBlockHeaderAndShortTxIDs

/-! ## Requests for transactions -/

/-- The transactions of a block that were found nowhere, by their places. -/
structure BlockTransactionsRequest where
  blockhash : Uint256
  indexes : List UInt16

namespace BlockTransactionsRequest

/-- The distances of the indexes from the place after the one before, as `uint64_t`. -/
def distances : Nat → List UInt16 → List Nat
  | _, [] => []
  | next, index :: rest =>
    (((index.toNat : Int) - next) % 2 ^ 64).toNat :: distances (index.toNat + 1) rest

def serialize (req : BlockTransactionsRequest) : Bytes :=
  writeUInt256 req.blockhash ++ writeVector writeCompactSize (distances 0 req.indexes)

def readIndex : Reader UInt16 := do
  let index ← readCompactSize
  ensure (index ≤ 0xffff)
  pure (UInt16.ofNat index)

/-- The loop that adds up the distances. The offset is a `uint16_t` and wraps after the last
place. -/
def addOffsets : UInt16 → List UInt16 → Option (List UInt16)
  | _, [] => some []
  | offset, index :: rest =>
    if 0xffff < index.toNat + offset.toNat then none
    else ((index + offset) :: ·) <$> addOffsets (index + offset + 1) rest

def unserialize : Reader BlockTransactionsRequest := do
  let blockhash ← readUInt256
  let indexes ← readVector readIndex
  let indexes ← StateT.lift (addOffsets 0 indexes)
  pure ⟨blockhash, indexes⟩

variable {l : List UInt16}

def readDistances : Reader (List UInt16) := do
  let _ ← readUInt256
  readVector readIndex

/-- The sum of the distances, plus one for each place before, comes to the last place of all only at
the last distance. -/
def EndsInTime (offset : Nat) (gaps : List UInt16) : Prop :=
  ∀ n, n + 1 < gaps.length → offset + ((gaps.take (n + 1)).map UInt16.toNat).sum + n ≠ 0xffff

lemma endsInTime_cons {offset : Nat} {gap : UInt16} {gaps : List UInt16} (hne : gaps ≠ []) :
    EndsInTime offset (gap :: gaps) ↔
      offset + gap.toNat ≠ 0xffff ∧ EndsInTime (offset + gap.toNat + 1) gaps := by
  have hpos := List.length_pos_iff.mpr hne
  constructor
  · refine fun h => ⟨by simpa using h 0 (by simpa using hpos), fun n hn => ?_⟩
    have hnext := h (n + 1) (by simpa using hn)
    simp only [List.take_succ_cons, List.map_cons, List.sum_cons] at hnext
    omega
  · rintro ⟨hfirst, h⟩ (_ | n) hn
    · simpa using hfirst
    · have hnext := h n (by simpa using hn)
      simp only [List.take_succ_cons, List.map_cons, List.sum_cons]
      omega

/-- Only after the last place of all does the loop start over. -/
lemma addOffsets_increasing {offset : UInt16} {gaps : List UInt16}
    (h : addOffsets offset gaps = some l) : l.length = gaps.length ∧ (∀ i ∈ l.head?, offset ≤ i) ∧
      (l.IsChain (· < ·) ↔ EndsInTime offset.toNat gaps) := by
  induction gaps generalizing offset l with
  | nil =>
    obtain rfl : [] = l := some.inj h
    simp [EndsInTime]
  | cons gap gaps ih =>
    simp only [addOffsets, ite_none_left_eq_some, map_eq_map,
      map_eq_some_iff] at h
    obtain ⟨hfits, l, hl, rfl⟩ := h
    obtain ⟨hlength, hhead, hiff⟩ := ih hl
    have hsum : (gap + offset).toNat = gap.toNat + offset.toNat := by
      rw [UInt16.toNat_add]
      omega
    refine ⟨by simp [hlength], by simp [UInt16.le_iff_toNat_le, hsum], ?_⟩
    cases l with
    | nil =>
      obtain rfl := List.length_eq_zero_iff.mp hlength.symm
      simp [EndsInTime]
    | cons j l =>
      have hne : gaps ≠ [] := List.ne_nil_of_length_eq_add_one hlength.symm
      have hj := UInt16.le_iff_toNat_le.mp (hhead j rfl)
      have hlt := j.toNat_lt
      rw [List.isChain_cons_cons, hiff, endsInTime_cons hne, UInt16.lt_iff_toNat_lt, hsum]
      by_cases hlast : offset.toNat + gap.toNat = 0xffff
      · exact iff_of_false (fun h => by omega) fun h => h.1 hlast
      · have hsucc : (gap + offset + 1).toNat = offset.toNat + gap.toNat + 1 := by
          rw [UInt16.toNat_add, hsum, UInt16.toNat_one]
          omega
        rw [hsucc] at hj ⊢
        rw [and_iff_right (by omega), and_iff_right hlast]

/-- Increasing indexes are found again from their distances. -/
lemma addOffsets_distances (next : Nat) (hnext : next ≤ 2 ^ 16) (hl : l.IsChain (· < ·))
    (hhead : ∀ i ∈ l.head?, next ≤ i.toNat) :
    next + (distances next l).length ≤ 2 ^ 16 ∧ (∀ g ∈ distances next l, g ≤ 0xffff) ∧
      addOffsets (UInt16.ofNat next) ((distances next l).map UInt16.ofNat) = some l := by
  induction l generalizing next with
  | nil => exact ⟨hnext, by simp [distances], rfl⟩
  | cons i l ih =>
    have hlt := i.toNat_lt
    have hle := hhead i rfl
    obtain ⟨hlen, hall, hadd⟩ := ih (i.toNat + 1) hlt hl.tail fun j hj =>
      UInt16.lt_iff_toNat_lt.mp (hl.rel_head? hj)
    have hgap : (((i.toNat : Int) - next) % 2 ^ 64).toNat = i.toNat - next := by omega
    have hsum : UInt16.ofNat (i.toNat - next) + UInt16.ofNat next = i := by
      rw [← UInt16.ofNat_add, Nat.sub_add_cancel hle, UInt16.ofNat_toNat]
    have hsucc : UInt16.ofNat (i.toNat + 1) = i + 1 := by
      rfl
    rw [hsucc] at hadd
    simp only [distances, hgap, List.length_cons, List.forall_mem_cons, List.map_cons, addOffsets,
      hsum, hadd, UInt16.toNat_ofNat']
    refine ⟨by omega, ⟨by omega, hall⟩, ?_⟩
    rw [if_neg (by omega)]
    rfl

lemma readIndex_reads {g : Nat} (hg : g ≤ 0xffff) :
    Reads readIndex (writeCompactSize g) (UInt16.ofNat g) :=
  (readCompactSize_reads (hg.trans (by decide))).bind_nil <|
    (ensure_reads (by simpa using hg)).nil_bind (Reads.pure _)

/-- A request that is read asks for increasing places exactly if the distances come to the last
place of all only at the last one; increasing places are read back. -/
theorem unserialize_increasing (bytes : Bytes) (req : BlockTransactionsRequest) :
    (∀ rem, unserialize.run bytes = some (req, rem) →
      ∃ gaps, readDistances.run bytes = some (gaps, rem) ∧
        (req.indexes.IsChain (· < ·) ↔ EndsInTime 0 gaps)) ∧
    (req.indexes.IsChain (· < ·) → Reads unserialize req.serialize req) := by
  constructor
  · intro rem h
    simp only [unserialize, run_bind_eq_some, run_pure_eq_some] at h
    obtain ⟨hash, bs, hhash, gaps, bs', hgaps, indexes, bs'', hadd, rfl, rfl⟩ := h
    simp only [StateT.run_lift, bind_eq_bind, bind_eq_some_iff, pure_def,
      some.injEq, Prod.mk.injEq] at hadd
    obtain ⟨_, hadd, rfl, rfl⟩ := hadd
    refine ⟨gaps, ?_, (addOffsets_increasing hadd).2.2⟩
    exact run_bind_eq_some.mpr ⟨hash, bs, hhash, hgaps⟩
  · intro hl
    obtain ⟨hlen, hall, hadd⟩ := addOffsets_distances 0 (by decide) hl (by simp)
    have hsize : (distances 0 req.indexes).length ≤ MAX_SIZE := by
      rw [zero_add] at hlen
      exact hlen.trans (by decide)
    have hlift : Reads (StateT.lift (addOffsets 0 ((distances 0 req.indexes).map UInt16.ofNat)))
        [] req.indexes := fun rest => by
      have hzero : addOffsets 0 _ = _ := hadd
      simp [hzero]
    exact (readUInt256_reads _).bind <|
      (readVector_reads hsize fun g hg => readIndex_reads (hall g hg)).bind_nil <|
        hlift.nil_bind (Reads.pure req)

/-- After the last place, `65535`, the offset is zero again and the place `5` is accepted. -/
theorem unserialize_decreasing :
    (unserialize.run (List.replicate 32 0 ++ [2, 0xfd, 0xff, 0xff, 5])).map
        (fun r => (r.1.indexes, r.2)) = some ([65535, 5], []) ∧
      ¬[(65535 : UInt16), 5].IsChain (· < ·) := by
  decide

end BlockTransactionsRequest

/-! ## Filling in what is there -/

inductive ReadStatus
  | ok
  /-- Invalid object: the peer is at fault. -/
  | invalid
  /-- Failed to process the object. -/
  | failed
  | checkBlockFailed
  deriving DecidableEq, Repr

/-- A computation that may return early with a status, or not at all. -/
abbrev Reading := ExceptT ReadStatus Option

/-- No value: a loop that does not end, or an invalid index or iterator. -/
def undefinedRead {α : Type} : Reading α := (none : Option (Except ReadStatus α))

lemma bind_eq_ok {α β : Type} {x : Reading α} {f : α → Reading β} {b : β}
    (h : x >>= f = some (.ok b)) : ∃ a, x = some (.ok a) ∧ f a = some (.ok b) := by
  match x, h with
  | some (.ok a), h => exact ⟨a, rfl, h⟩
  | some (.error _), h => cases h
  | none, h => cases h

/-- The number of elements in the bucket of a short id, for a map made for a number of elements
into which short ids were inserted in order. -/
abbrev BucketSize := Nat → List UInt64 → UInt64 → Nat

structure PartiallyDownloadedBlock where
  txn_available : List (Option CTransaction)
  mempool_count : Nat
  header : CBlockHeader
  vchBlockSig : Bytes
  deriving DecidableEq

namespace PartiallyDownloadedBlock

/-- The size of a transaction without inputs and outputs, as the default constructor makes it. -/
def MIN_TRANSACTION_SIZE : Nat := (⟨1, 0, [], [], 0⟩ : CTransaction).getSerializeSize

/-- The prefilled transactions are put into their places; `next` is `lastprefilledindex + 1` and
`i` counts the prefilled transactions. -/
def placePrefilled (shortCount : Nat) : Nat → Nat → List (Option CTransaction) →
    List PrefilledTransaction → Reading (List (Option CTransaction))
  | _, _, avail, [] => pure avail
  | i, next, avail, p :: rest =>
    let lastprefilledindex := next + p.index.toNat
    if p.tx.isNull then throw .invalid
    else if lastprefilledindex > 0xffff then throw .invalid
    else if lastprefilledindex > shortCount + i then throw .invalid
    else if lastprefilledindex < avail.length then
      placePrefilled shortCount (i + 1) (lastprefilledindex + 1)
        (avail.set lastprefilledindex (some p.tx)) rest
    else undefinedRead

/-- `while (txn_available[i + index_offset]) index_offset++`; after 2^16 turns every offset has been
tried. -/
def skipAvailable (avail : List (Option CTransaction)) (i : Nat) : Nat → UInt16 → Reading UInt16
  | 0, _ => undefinedRead
  | turns + 1, index_offset =>
    match avail[i + index_offset.toNat]? with
    | none => undefinedRead
    | some none => pure index_offset
    | some (some _) => skipAvailable avail i turns (index_offset + 1)

def setSlot (slots : List (UInt64 × UInt16)) (id : UInt64) (slot : UInt16) :
    List (UInt64 × UInt16) :=
  (id, slot) :: slots.filter fun s => s.1 ≠ id

/-- The map from short ids to places; `done` are the short ids before those that are left. -/
def assignSlots (bucketSize : BucketSize) (avail : List (Option CTransaction)) (shortCount : Nat) :
    List UInt64 → UInt16 → List (UInt64 × UInt16) → List UInt64 → Reading (List (UInt64 × UInt16))
  | _, _, slots, [] => pure slots
  | done, index_offset, slots, id :: rest => do
    let index_offset ← skipAvailable avail done.length (2 ^ 16) index_offset
    let slots := setSlot slots id (UInt16.ofNat (done.length + index_offset.toNat))
    if bucketSize shortCount (done ++ [id]) id > 12 then throw .failed
    else assignSlots bucketSize avail shortCount (done ++ [id]) index_offset slots rest

/-- What the scan of the memory pool changes. -/
structure Scan where
  txn_available : List (Option CTransaction)
  have_txn : List Bool
  mempool_count : Nat

def scanMatch (pool : CTxMemPool) (node : Nat) (slot : Nat) (s : Scan) : Reading Scan :=
  match s.have_txn[slot]? with
  | none => undefinedRead
  | some false =>
    match pool.mapTx.entries.find? fun e => e.node = node with
    | none => undefinedRead
    | some e => pure
        { txn_available := s.txn_available.set slot (some e.tx)
          have_txn := s.have_txn.set slot true
          mempool_count := s.mempool_count + 1 }
  | some true =>
    match s.txn_available[slot]? with
    | none => undefinedRead
    | some none => pure s
    -- two transactions of the pool match the short id: just request it
    | some (some _) => pure
        { s with
          txn_available := s.txn_available.set slot none
          mempool_count := s.mempool_count - 1 }

def scanPool (shortid : Uint256 → UInt64) (pool : CTxMemPool) (slots : List (UInt64 × UInt16)) :
    List (Uint256 × Nat) → Scan → Reading Scan
  | [], s => pure s
  | (hash, node) :: rest, s => do
    let s ← match slots.lookup (shortid hash) with
      | none => pure s
      | some slot => scanMatch pool node slot.toNat s
    if s.mempool_count = slots.length then pure s
    else scanPool shortid pool slots rest s

/-- The places of the transactions sent in full and of the short ids. -/
def layOut (bucketSize : BucketSize) (cmpctblock : CBlockHeaderAndShortTxIDs) :
    Reading (List (Option CTransaction) × List (UInt64 × UInt16)) := do
  let avail ← placePrefilled cmpctblock.shorttxids.length 0 0
    (List.replicate cmpctblock.blockTxCount none) cmpctblock.prefilledtxn
  let slots ← assignSlots bucketSize avail cmpctblock.shorttxids.length [] 0 []
    cmpctblock.shorttxids
  if slots.length ≠ cmpctblock.shorttxids.length then throw .failed
  else pure (avail, slots)

def isTooLarge (cmpctblock : CBlockHeaderAndShortTxIDs) : Bool :=
  decide (MAX_BLOCK_SIZE / MIN_TRANSACTION_SIZE < cmpctblock.blockTxCount)

def initData (fns : ShortIdHashes) (bucketSize : BucketSize) (pool : CTxMemPool)
    (cmpctblock : CBlockHeaderAndShortTxIDs) : Reading PartiallyDownloadedBlock :=
  if cmpctblock.header.nBits = 0 ∨
      (cmpctblock.shorttxids.isEmpty && cmpctblock.prefilledtxn.isEmpty) then throw .invalid
  else if isTooLarge cmpctblock then throw .invalid
  else do
    let (avail, slots) ← layOut bucketSize cmpctblock
    let s ← scanPool (getShortID fns cmpctblock.header cmpctblock.nonce) pool slots pool.vTxHashes
      ⟨avail, List.replicate avail.length false, 0⟩
    pure ⟨s.txn_available, s.mempool_count, cmpctblock.header, cmpctblock.vchBlockSig⟩

def missing (p : PartiallyDownloadedBlock) : List Nat :=
  (List.range p.txn_available.length).filter fun i => p.txn_available[i]? = some none

/-! ## Filling in the rest -/

/-- The loop of `FillBlock`: the transactions, and those of `vtx_missing` that were not used. -/
def fillTransactions : List (Option CTransaction) → List CTransaction →
    Option (List CTransaction × List CTransaction)
  | [], vtx_missing => some ([], vtx_missing)
  | some tx :: avail, vtx_missing =>
    (fillTransactions avail vtx_missing).map fun r => (tx :: r.1, r.2)
  | none :: _, [] => none
  | none :: avail, tx :: vtx_missing =>
    (fillTransactions avail vtx_missing).map fun r => (tx :: r.1, r.2)

/-- `FillBlock`: the status and, unless it is `READ_STATUS_INVALID`, the block. -/
def fillBlock (crypto : Crypto) (params : Params) (nActiveHeight : Int)
    (p : PartiallyDownloadedBlock) (vtx_missing : List CTransaction) :
    Option (ReadStatus × Option CBlock) :=
  -- assert(!header.IsNull())
  if p.header.nBits = 0 then none
  else match fillTransactions p.txn_available vtx_missing with
  | none => some (.invalid, none)
  | some (_, _ :: _) => some (.invalid, none)
  | some (vtx, []) =>
    let block : CBlock := ⟨p.header, vtx, p.vchBlockSig, false⟩
    match checkBlock crypto params nActiveHeight block true true true .init with
    | (.returned block, _) => some (.ok, some block)
    | (.refused, state) =>
      some (if state.corruptionPossible then .failed else .checkBlockFailed, some block)
    | (.halted, _) => none

end PartiallyDownloadedBlock

end Jumpcoin
