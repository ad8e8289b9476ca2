import Jumpcoin.Net.CompactSlots
import Jumpcoin.Validation.Accepted

/-!
# Blocks from compact blocks

A block that is sent as a compact block is the block that is rebuilt: the receiver reads the
message, takes what it can from its memory pool and asks for the rest.

Two transactions are the same for whoever reads them if they agree in all that is written
(`CTransaction.onWire`). What the scan of the memory pool keeps is that every transaction it has
put somewhere is the one the block has there (`Agrees`).
-/

namespace Jumpcoin

open Codec List

lemma CTransaction.serialize_onWire (tx : CTransaction) : tx.onWire.serialize = tx.serialize := by
  by_cases h : tx.nVersion < 2 <;> simp [serialize, serializeTime, onWire, h]

@[simp] lemma CTransaction.onWire_onWire (tx : CTransaction) : tx.onWire.onWire = tx.onWire := by
  by_cases h : tx.nVersion < 2 <;> simp [onWire, h]

namespace PartiallyDownloadedBlock

/-! ## Filling in what is missing -/

def Agrees (vtx : List CTransaction) (avail : List (Option CTransaction)) : Prop :=
  List.Forall₂ (fun (a : Option CTransaction) tx => ∀ tx' ∈ a, tx'.onWire = tx.onWire) avail vtx

variable {avail : List (Option CTransaction)} {vtx : List CTransaction}

lemma Agrees.set (h : Agrees vtx avail) {slot : Nat} {a : Option CTransaction}
    (ha : ∀ tx' ∈ a, ∀ tx, vtx[slot]? = some tx → tx'.onWire = tx.onWire) :
    Agrees vtx (avail.set slot a) := by
  induction h generalizing slot with
  | nil => exact .nil
  | cons hhead h ih =>
    cases slot with
    | zero => exact .cons (fun tx' htx' => ha tx' htx' _ rfl) h
    | succ slot => exact .cons hhead (ih fun tx' htx' tx htx => ha tx' htx' tx htx)

lemma agrees_replicate (vtx : List CTransaction) : Agrees vtx (List.replicate vtx.length none) := by
  induction vtx with
  | nil => exact .nil
  | cons tx vtx ih => exact .cons (by simp) ih

def requested : List (Option CTransaction) → List CTransaction → List CTransaction
  | some _ :: avail, _ :: vtx => requested avail vtx
  | none :: avail, tx :: vtx => tx :: requested avail vtx
  | _, _ => []

lemma filterMap_missing (hlen : avail.length = vtx.length) :
    ((List.range avail.length).filter fun i => avail[i]? = some none).filterMap (vtx[·]?) =
      requested avail vtx := by
  induction avail generalizing vtx with
  | nil => rfl
  | cons a avail ih =>
    obtain ⟨tx, vtx, rfl⟩ := exists_cons_of_length_eq_add_one hlen.symm
    have hrest := @ih vtx (by simpa using hlen)
    cases a with
    | none =>
      simpa [range_succ_eq_map, requested, filter_map, Function.comp_def] using hrest
    | some tx' =>
      simpa [range_succ_eq_map, requested, filter_map, Function.comp_def] using hrest

/-- With the transactions that are missing, the block is complete. -/
lemma fillTransactions_requested (h : Agrees vtx avail) :
    ∃ vtx', fillTransactions avail (requested avail vtx) = some (vtx', []) ∧
      vtx'.map CTransaction.onWire = vtx.map CTransaction.onWire := by
  induction h with
  | nil => exact ⟨[], rfl, rfl⟩
  | @cons a tx avail vtx ha h ih =>
    obtain ⟨vtx', hfill, hvtx⟩ := ih
    cases a with
    | none => exact ⟨tx :: vtx', by simp [fillTransactions, requested, hfill], by simp [hvtx]⟩
    | some tx' =>
      exact ⟨tx' :: vtx', by simp [fillTransactions, requested, hfill], by simp [hvtx, ha tx' rfl]⟩

/-! ## A block with its first transaction in full -/

section Single

variable {cmpctblock : CBlockHeaderAndShortTxIDs} {coinbase : CTransaction}

lemma freeFrom_replicate (q n : Nat) : freeFrom q (List.replicate n none) = List.range' q n := by
  induction n generalizing q with
  | zero => rfl
  | succ n ih => rw [replicate_succ, freeFrom, ih, range'_succ]

lemma placesOf_single (h : cmpctblock.prefilledtxn = [⟨0, coinbase⟩]) :
    placesOf cmpctblock =
      some coinbase :: List.replicate cmpctblock.shorttxids.length none := by
  simp [placesOf, h, CBlockHeaderAndShortTxIDs.blockTxCount, filled, replicate_succ]

/-- The short ids have the places after the first, in order. -/
lemma lookup_slotsOf_single (h : cmpctblock.prefilledtxn = [⟨0, coinbase⟩])
    (hnodup : cmpctblock.shorttxids.Nodup) (hfit : cmpctblock.shorttxids.length < 2 ^ 16 - 1)
    {key : UInt64} {slot : UInt16} (hlookup : (slotsOf cmpctblock).lookup key = some slot) :
    ∃ k, cmpctblock.shorttxids[k]? = some key ∧ slot.toNat = k + 1 := by
  have hfree : freePlaces cmpctblock = List.range' 1 cmpctblock.shorttxids.length := by
    rw [freePlaces, placesOf_single h, freeFrom, freeFrom_replicate]
  have hmem : key ∈ cmpctblock.shorttxids := by
    by_contra hmem
    rw [slotsOf, lookup_setSlots_of_notMem hmem] at hlookup
    cases hlookup
  obtain ⟨k, hk, rfl⟩ := getElem_of_mem hmem
  have hplace : (freePlaces cmpctblock)[k]? = some (k + 1) := by
    rw [hfree, getElem?_range' hk]
    simp [Nat.add_comm]
  have hslot : (slotsOf cmpctblock).lookup cmpctblock.shorttxids[k] = some (UInt16.ofNat (k + 1)) :=
    lookup_setSlots hnodup (getElem?_eq_getElem hk) hplace
  refine ⟨k, getElem?_eq_getElem hk, ?_⟩
  rw [hslot, Option.some.injEq] at hlookup
  rw [← hlookup, UInt16.toNat_ofNat', Nat.mod_eq_of_lt (by omega)]

end Single

/-! ## The scan of the pool -/

section Scan

variable {shortid : Uint256 → UInt64} {pool : CTxMemPool} {slots : List (UInt64 × UInt16)}
  {s s' : Scan}

/-- A scan that returns keeps what every match keeps. -/
lemma scanPool_keeps {I : Scan → Prop} {listed : List (Uint256 × Nat)}
    (hstep : ∀ p ∈ listed, ∀ slot s s', slots.lookup (shortid p.1) = some slot → I s →
      scanMatch pool p.2 slot.toNat s = some (.ok s') → I s') (hs : I s)
    (h : scanPool shortid pool slots listed s = some (.ok s')) : I s' := by
  induction listed generalizing s with
  | nil =>
    cases h
    exact hs
  | cons p listed ih =>
    obtain ⟨hash, node⟩ := p
    have hgo {s₁ : Scan} (hs₁ : I s₁)
        (hrest : (if s₁.mempool_count = slots.length then pure s₁
          else scanPool shortid pool slots listed s₁ : Reading Scan) = some (.ok s')) : I s' := by
      split_ifs at hrest
      · cases hrest
        exact hs₁
      · exact ih (fun p hp => hstep p (mem_cons_of_mem _ hp)) hs₁ hrest
    cases hlookup : slots.lookup (shortid hash) with
    | none =>
      simp only [scanPool, hlookup, pure_bind] at h
      exact hgo hs h
    | some slot =>
      simp only [scanPool, hlookup] at h
      obtain ⟨s₁, hmatch, hrest⟩ := bind_eq_ok h
      exact hgo (hstep (hash, node) mem_cons_self slot s s₁ hlookup hs hmatch) hrest

/-- What a match puts into its place is the transaction of the entry. -/
lemma scanMatch_cases {node slot : Nat} (h : scanMatch pool node slot s = some (.ok s')) :
    s'.txn_available = s.txn_available ∨ s'.txn_available = s.txn_available.set slot none ∨
      ∃ e ∈ pool.mapTx.entries, e.node = node ∧
        s'.txn_available = s.txn_available.set slot (some e.tx) := by
  unfold scanMatch at h
  split at h
  · cases h
  · split at h
    · cases h
    · rename_i e hfind
      cases h
      have hnode := find?_some hfind
      exact .inr (.inr ⟨e, mem_of_find?_eq_some hfind, by simpa using hnode, rfl⟩)
  · split at h
    · cases h
    · cases h
      exact .inl rfl
    · cases h
      exact .inr (.inl rfl)

end Scan

/-! ## The whole way -/

section Rebuild

variable {fns : ShortIdHashes} {hashes : Hashes} {bucketSize : BucketSize} {pool : CTxMemPool}
variable {nonce : UInt64} {block : CBlock} {cmpctblock : CBlockHeaderAndShortTxIDs}
variable {p : PartiallyDownloadedBlock} {rest : List CTransaction} {coinbase : CTransaction}

/-- `InitData` succeeds only on a layout, with what the scan of the pool adds to it. -/
lemma initData_eq_ok (h : initData fns bucketSize pool cmpctblock = some (.ok p)) :
    cmpctblock.header.nBits ≠ 0 ∧ p.header = cmpctblock.header ∧
      p.vchBlockSig = cmpctblock.vchBlockSig ∧
      ∃ avail slots s, layOut bucketSize cmpctblock = some (.ok (avail, slots)) ∧
        scanPool (getShortID fns cmpctblock.header cmpctblock.nonce) pool slots pool.vTxHashes
          ⟨avail, List.replicate avail.length false, 0⟩ = some (.ok s) ∧
        p.txn_available = s.txn_available := by
  by_cases hadm : Admitted cmpctblock
  · rw [initData_of_admitted hadm] at h
    obtain ⟨⟨avail, slots⟩, hlayOut, h⟩ := bind_eq_ok h
    obtain ⟨s, hscan, h⟩ := bind_eq_ok h
    cases h
    exact ⟨fun hnull => hadm.1 (.inl hnull), rfl, rfl, avail, slots, s, hlayOut, hscan, rfl⟩
  · rw [initData_of_not_admitted hadm] at h
    cases h

/-- A layout that succeeds is that of the free places. -/
lemma layOut_eq_ok {slots : List (UInt64 × UInt16)}
    (hcount : cmpctblock.prefilledtxn.length ≤ 0xffff)
    (h : layOut bucketSize cmpctblock = some (.ok (avail, slots))) :
    cmpctblock.shorttxids.Nodup ∧ avail = placesOf cmpctblock ∧ slots = slotsOf cmpctblock := by
  by_cases hok : prefilledOk cmpctblock = true
  · rw [layOut_eq hok hcount] at h
    split_ifs at h with hrefused
    · cases h
    · cases h
      refine ⟨?_, rfl, rfl⟩
      by_contra hnodup
      exact hrefused (by simp [slotsRefused, hnodup])
  · rw [layOut_of_misplaced (Bool.eq_false_iff.mpr hok)] at h
    cases h

def shortIDIn (fns : ShortIdHashes) (hashes : Hashes) (nonce : UInt64) (block : CBlock)
    (tx : CTransaction) : UInt64 :=
  getShortID fns block.toCBlockHeader nonce (tx.getHash hashes)

/-- A transaction of the pool with the short id of one in the block is that one. -/
lemma onWire_eq_of_shortID_eq {e tx : CTransaction} {i : Nat}
    (hdistinct : (block.vtx.map (shortIDIn fns hashes nonce block)).Nodup)
    (houtside : (∀ tx ∈ block.vtx, e.onWire ≠ tx.onWire) → ∀ tx ∈ block.vtx,
      shortIDIn fns hashes nonce block e ≠ shortIDIn fns hashes nonce block tx)
    (hi : block.vtx[i]? = some tx)
    (hid : shortIDIn fns hashes nonce block e = shortIDIn fns hashes nonce block tx) :
    e.onWire = tx.onWire := by
  have htx := mem_of_getElem? hi
  obtain ⟨tx', htx', hwire⟩ : ∃ tx' ∈ block.vtx, e.onWire = tx'.onWire := by
    by_contra hnone
    push Not at hnone
    exact houtside hnone tx htx hid
  have hid' : shortIDIn fns hashes nonce block e = shortIDIn fns hashes nonce block tx' := by
    rw [shortIDIn, shortIDIn, CTransaction.getHash, CTransaction.getHash, ← e.serialize_onWire,
      hwire, tx'.serialize_onWire]
  have heq : tx' = tx := inj_on_of_nodup_map hdistinct htx' htx (hid'.symm.trans hid)
  rw [hwire, heq]

/-- What `InitData` finds is what the block has there. -/
lemma agrees_initData (hvtx : block.vtx = coinbase :: rest) (hcount : block.vtx.length ≤ 65535)
    (hpool : ∀ p ∈ pool.vTxHashes, ∀ e ∈ pool.mapTx.entries, e.node = p.2 →
      e.tx.getHash hashes = p.1)
    (hdistinct : (block.vtx.map (shortIDIn fns hashes nonce block)).Nodup)
    (houtside : ∀ e ∈ pool.mapTx.entries, (∀ tx ∈ block.vtx, e.tx.onWire ≠ tx.onWire) →
      ∀ tx ∈ block.vtx,
        shortIDIn fns hashes nonce block e.tx ≠ shortIDIn fns hashes nonce block tx)
    (hheader : cmpctblock.header = block.toCBlockHeader) (hnonce : cmpctblock.nonce = nonce)
    (hids : cmpctblock.shorttxids = rest.map (shortIDIn fns hashes nonce block))
    (hprefilled : cmpctblock.prefilledtxn = [⟨0, coinbase.onWire⟩])
    (h : initData fns bucketSize pool cmpctblock = some (.ok p)) :
    Agrees block.vtx p.txn_available := by
  obtain ⟨-, -, -, avail, slots, s, hlayOut, hscan, hp⟩ := initData_eq_ok h
  obtain ⟨hnodup, rfl, rfl⟩ := layOut_eq_ok (by simp [hprefilled]) hlayOut
  have hfit : cmpctblock.shorttxids.length < 2 ^ 16 - 1 := by
    rw [hvtx, length_cons] at hcount
    rw [hids, length_map]
    omega
  have hstart : Agrees block.vtx (placesOf cmpctblock) := by
    rw [placesOf_single hprefilled, hvtx, hids, length_map]
    refine .cons (fun tx htx => ?_) (agrees_replicate rest)
    cases htx
    exact coinbase.onWire_onWire
  rw [hp]
  refine scanPool_keeps (I := fun s => Agrees block.vtx s.txn_available) ?_ hstart hscan
  intro q hq slot s s' hlookup hs hmatch
  obtain ⟨k, hk, hslot⟩ := lookup_slotsOf_single hprefilled hnodup hfit hlookup
  rcases scanMatch_cases hmatch with hsame | hnone | ⟨e, he, hnode, hset⟩
  · rwa [hsame]
  · rw [hnone]
    exact hs.set (by simp)
  · rw [hset]
    refine hs.set fun tx' htx' tx htx => ?_
    cases htx'
    have hid : shortIDIn fns hashes nonce block e.tx = shortIDIn fns hashes nonce block tx := by
      rw [hslot, hvtx, getElem?_cons_succ] at htx
      rw [hids, getElem?_map, htx, hheader, hnonce, ← hpool q hq e he hnode] at hk
      exact (Option.some.inj hk).symm
    exact onWire_eq_of_shortID_eq hdistinct (houtside e he) htx hid

lemma Agrees.length_eq (h : Agrees vtx avail) :
    avail.length = vtx.length := List.Forall₂.length_eq h

/-- With what is missing of a block, the block is rebuilt, whether it is found valid or not. -/
lemma fillBlock_of_agrees {crypto : Crypto} {params : Params} {nActiveHeight : Int}
    (hnull : p.header.nBits ≠ 0) (h : Agrees vtx p.txn_available) :
    ∃ status block', fillBlock crypto params nActiveHeight p (p.missing.filterMap (vtx[·]?)) =
        some (status, some block') ∧
      block'.toCBlockHeader = p.header ∧ block'.vchBlockSig = p.vchBlockSig ∧
      block'.vtx.map CTransaction.onWire = vtx.map CTransaction.onWire := by
  obtain ⟨vtx', hfill, hvtx⟩ := fillTransactions_requested h
  rw [fillBlock, if_neg hnull, missing, filterMap_missing h.length_eq, hfill]
  have hdecides : Check.Decides (checkBlock crypto params nActiveHeight
      ⟨p.header, vtx', p.vchBlockSig, false⟩ true true true) .init :=
    checkBlock_decides _ _ _ _ _ _ _
  rcases hdecides with ⟨state, hrefused⟩ | ⟨block', hreturned⟩
  · simp only [hrefused]
    exact ⟨_, _, rfl, rfl, rfl, hvtx⟩
  · obtain ⟨fChecked, rfl⟩ := checkBlock_returned_eq hreturned
    simp only [hreturned]
    exact ⟨_, _, rfl, rfl, rfl, hvtx⟩

def messageOf (fns : ShortIdHashes) (hashes : Hashes) (nonce : UInt64) (block : CBlock)
    (coinbase : CTransaction) (rest : List CTransaction) : CBlockHeaderAndShortTxIDs where
  header := block.toCBlockHeader
  nonce := nonce
  vchBlockSig := block.vchBlockSig
  shorttxids := rest.map (shortIDIn fns hashes nonce block)
  prefilledtxn := [⟨0, coinbase⟩]

lemma ofBlock_eq_some
    (h : CBlockHeaderAndShortTxIDs.ofBlock fns hashes nonce block = some cmpctblock) :
    ∃ coinbase rest, block.vtx = coinbase :: rest ∧
      cmpctblock = messageOf fns hashes nonce block coinbase rest := by
  cases hvtx : block.vtx with
  | nil =>
    rw [CBlockHeaderAndShortTxIDs.ofBlock, hvtx] at h
    cases h
  | cons coinbase rest =>
    rw [CBlockHeaderAndShortTxIDs.ofBlock, hvtx] at h
    cases h
    exact ⟨coinbase, rest, rfl, rfl⟩

lemma countable_messageOf (hvtx : block.vtx = coinbase :: rest) (hcount : block.vtx.length ≤ 65535)
    (hsig : block.vchBlockSig.length < 2 ^ 64) (hsizes : ∀ tx ∈ block.vtx, tx.Countable) :
    (messageOf fns hashes nonce block coinbase rest).Countable := by
  refine ⟨hsig, ?_, fun id hid => ?_, by simp [messageOf], ?_⟩
  · rw [hvtx, length_cons] at hcount
    rw [messageOf, length_map]
    omega
  · obtain ⟨tx, -, rfl⟩ := mem_map.mp hid
    exact Nat.and_le_right.trans_lt (by decide)
  · simpa [messageOf] using hsizes coinbase (by simp [hvtx])

/-- A block of at most 65535 transactions with different short ids, which no transaction of the pool
outside the block has, is rebuilt from its message and the transactions that are missing. -/
theorem fillBlock_rebuilds {crypto : Crypto} {params : Params} {nActiveHeight : Int}
    {received : CBlockHeaderAndShortTxIDs} {stream left : Bytes} (hcount : block.vtx.length ≤ 65535)
    (hsig : block.vchBlockSig.length < 2 ^ 64) (hsizes : ∀ tx ∈ block.vtx, tx.Countable)
    (hpool : ∀ p ∈ pool.vTxHashes, ∀ e ∈ pool.mapTx.entries, e.node = p.2 →
      e.tx.getHash crypto.toHashes = p.1)
    (hdistinct : (block.vtx.map (shortIDIn fns crypto.toHashes nonce block)).Nodup)
    (houtside : ∀ e ∈ pool.mapTx.entries, (∀ tx ∈ block.vtx, e.tx.onWire ≠ tx.onWire) →
      ∀ tx ∈ block.vtx, shortIDIn fns crypto.toHashes nonce block e.tx ≠
        shortIDIn fns crypto.toHashes nonce block tx)
    (hmessage : CBlockHeaderAndShortTxIDs.ofBlock fns crypto.toHashes nonce block = some cmpctblock)
    (hread : CBlockHeaderAndShortTxIDs.unserialize.run (cmpctblock.serialize ++ stream) =
      some (received, left)) (hinit : initData fns bucketSize pool received = some (.ok p)) :
    ∃ status block',
      fillBlock crypto params nActiveHeight p (p.missing.filterMap (block.vtx[·]?)) =
        some (status, some block') ∧
      block'.toCBlockHeader = block.toCBlockHeader ∧ block'.vchBlockSig = block.vchBlockSig ∧
      block'.vtx.map CTransaction.onWire = block.vtx.map CTransaction.onWire := by
  obtain ⟨coinbase, rest, hvtx, rfl⟩ := ofBlock_eq_some hmessage
  obtain ⟨rfl, rfl⟩ := CBlockHeaderAndShortTxIDs.unserialize_recovers
    (countable_messageOf hvtx hcount hsig hsizes) _ _ _ hread
  have hagrees : Agrees block.vtx p.txn_available :=
    agrees_initData hvtx hcount hpool hdistinct houtside rfl rfl rfl rfl hinit
  obtain ⟨hnull, hheader, hsig', -⟩ := initData_eq_ok hinit
  rw [← hheader] at hnull
  obtain ⟨status, block', hfill, hheader', hsig'', hvtx'⟩ := fillBlock_of_agrees hnull hagrees
  exact ⟨status, block', hfill, hheader'.trans hheader, hsig''.trans hsig', hvtx'⟩

end Rebuild

/-! ### A block of three transactions -/

def threeTxs : CBlock := ⟨⟨1, 0, 0, 0, 1, 0⟩, [paying 1, paying 2, paying 3], [], false⟩

def poolWithSecond : CTxMemPool := poolOf [paying 2]

def threeTxsMessage : CBlockHeaderAndShortTxIDs :=
  messageOf lowBytes toyCrypto.toHashes 0 threeTxs (paying 1) [paying 2, paying 3]

/-- Only the last transaction is asked for. -/
theorem fillBlock_threeTxs :
    ∃ p, initData lowBytes (fun _ _ _ => 1) poolWithSecond threeTxsMessage = some (.ok p) ∧
      p.missing = [2] ∧
    ∃ status block', fillBlock toyCrypto mainConsensus 0 p [paying 3] =
        some (status, some block') ∧
      block'.toCBlockHeader = threeTxs.toCBlockHeader ∧
      block'.vchBlockSig = threeTxs.vchBlockSig ∧
      block'.vtx.map CTransaction.onWire = threeTxs.vtx.map CTransaction.onWire := by
  have hinit : initData lowBytes (fun _ _ _ => 1) poolWithSecond threeTxsMessage =
      some (.ok ⟨[some (paying 1), some (paying 2), none], 1, threeTxs.toCBlockHeader, []⟩) := rfl
  have hids : threeTxsMessage.shorttxids.all (fun id => id.toNat < 2 ^ 48) = true := by
    decide +kernel
  have hwire : threeTxsMessage.WireForm :=
    ⟨by decide, by decide, fun id hid => of_decide_eq_true (all_eq_true.mp hids id hid),
      by decide, by decide⟩
  have hsizes : ∀ tx ∈ threeTxs.vtx, tx.Countable := by
    intro tx htx
    obtain rfl | rfl | rfl : tx = paying 1 ∨ tx = paying 2 ∨ tx = paying 3 := by
      simpa [threeTxs] using htx
    all_goals constructor <;> simp [paying]
  have hpool : ∀ p ∈ poolWithSecond.vTxHashes, ∀ e ∈ poolWithSecond.mapTx.entries, e.node = p.2 →
      e.tx.getHash toyCrypto.toHashes = p.1 := by decide +kernel
  have hdistinct : (threeTxs.vtx.map (shortIDIn lowBytes toyCrypto.toHashes 0 threeTxs)).Nodup := by
    decide +kernel
  have houtside : ∀ e ∈ poolWithSecond.mapTx.entries,
      (∀ tx ∈ threeTxs.vtx, e.tx.onWire ≠ tx.onWire) → ∀ tx ∈ threeTxs.vtx,
        shortIDIn lowBytes toyCrypto.toHashes 0 threeTxs e.tx ≠
          shortIDIn lowBytes toyCrypto.toHashes 0 threeTxs tx := by decide +kernel
  exact ⟨_, hinit, by decide, fillBlock_rebuilds (by decide) (by decide) hsizes hpool hdistinct
    houtside rfl (CBlockHeaderAndShortTxIDs.unserialize_reads hwire []) hinit⟩

end PartiallyDownloadedBlock

end Jumpcoin
