import Jumpcoin.Coins.Disconnect
import Jumpcoin.Validation.Accepted

/-!
# The verdict on a block

Whether `ConnectBlock` accepts a block, asked of two nodes that follow the same chain. They may
differ in their settings, in the memory pool, in the block files they have kept, in how far the
chain has grown beyond the block, and in when they last flushed their cache of coins.

All of this enters at one point: `CheckProofOfStake` looks for the staked transaction with
`GetTransaction`, which does not read the view the block is connected to. `Site.Locates` says when
it finds the transaction. Where it does, the verdict is that of every other node that does; where
it does not, the block is rejected.
-/

namespace Jumpcoin

open Check CValidationState List Finmap CCoinsViewCache

/-! ## What validation reads of an index entry -/

namespace CBlockIndex

/-- The part of an entry that all nodes agree on: not the state of validation and storage, the
order of arrival, or what is computed when the block is connected. -/
def shared (pindex : CBlockIndex) : CBlockIndex :=
  { pindex with
    nStatus := { BlockStatus.empty with proofOfStake := pindex.nStatus.proofOfStake }
    nTx := 0
    nChainTx := 0
    nStakeModifier := 0
    nSequenceId := 0 }

variable {pindex pindex' : CBlockIndex}

lemma hashBlock_of_shared (h : shared pindex' = shared pindex) :
    pindex'.hashBlock = pindex.hashBlock :=
  show (shared pindex').hashBlock = (shared pindex).hashBlock from congrArg _ h

lemma nHeight_of_shared (h : shared pindex' = shared pindex) : pindex'.nHeight = pindex.nHeight :=
  show (shared pindex').nHeight = (shared pindex).nHeight from congrArg _ h

lemma nTime_of_shared (h : shared pindex' = shared pindex) : pindex'.nTime = pindex.nTime :=
  show (shared pindex').nTime = (shared pindex).nTime from congrArg _ h

end CBlockIndex

open CBlockIndex (shared hashBlock_of_shared nHeight_of_shared nTime_of_shared)

section Shared

variable (params : Params) (path : List CBlockIndex)

lemma getAncestor_shared (height : Int) :
    getAncestor (path.map shared) height = (getAncestor path height).map shared := by
  cases path with
  | nil => rfl
  | cons pindex path =>
    simp only [getAncestor, map_cons]
    split_ifs with h h' h'
    · rfl
    · exact absurd h h'
    · exact absurd h' h
    · rw [← map_cons, find?_map]
      rfl

lemma getLastBlockIndex_shared (fProofOfStake : Bool) :
    getLastBlockIndex fProofOfStake (path.map shared) =
      (getLastBlockIndex fProofOfStake path).map shared := by
  induction path with
  | nil => rfl
  | cons pindex path ih =>
    cases path with
    | nil => rfl
    | cons pprev rest =>
      simp only [map_cons, getLastBlockIndex] at ih ⊢
      have hkind : (shared pindex).isProofOfStake = pindex.isProofOfStake := rfl
      rw [hkind]
      split_ifs
      · exact ih
      · rfl

lemma getPastTimeLimit_shared :
    getPastTimeLimit params (path.map shared) = getPastTimeLimit params path := by
  have htimes : ((path.map shared).take nMedianTimeSpan).map CBlockIndex.getBlockTime =
      (path.take nMedianTimeSpan).map CBlockIndex.getBlockTime := by
    rw [← map_take, map_map]
    rfl
  cases path with
  | nil => rfl
  | cons pindex path =>
    simp only [getPastTimeLimit, map_cons, getMedianTimePast] at htimes ⊢
    rw [htimes]
    rfl

lemma sequenceLocksLoop_shared (lock : Int × Int) (inputs : List (CTxIn × Int)) :
    sequenceLocksLoop params (path.map shared) lock inputs =
      sequenceLocksLoop params path lock inputs := by
  have hlock : ∀ lock txin nCoinHeight,
      sequenceLock params (path.map shared) lock txin nCoinHeight =
      sequenceLock params path lock txin nCoinHeight := by
    intro lock txin nCoinHeight
    have hpath : ∀ height, getAncestorPath (path.map shared) height =
        (getAncestorPath path height).map shared := by
      intro height
      cases path with
      | nil => rfl
      | cons pindex path =>
        simp only [getAncestorPath, map_cons]
        split_ifs with h h' h'
        · rfl
        · exact absurd h h'
        · exact absurd h' h
        · rw [← map_cons, dropWhile_map]
          rfl
    simp only [sequenceLock, hpath, getPastTimeLimit_shared]
  induction inputs generalizing lock with
  | nil => rfl
  | cons input inputs ih => simp only [sequenceLocksLoop, hlock, ih]

lemma sequenceLocks_shared (pindex : CBlockIndex) (tx : CTransaction) (fVerifySequence : Bool)
    (prevHeights : List Int) :
    sequenceLocks params (shared pindex) (path.map shared) tx fVerifySequence prevHeights =
      sequenceLocks params pindex path tx fVerifySequence prevHeights := by
  have hloop := sequenceLocksLoop_shared params (pindex :: path)
  rw [map_cons] at hloop
  simp only [sequenceLocks, calculateSequenceLocks, hloop, getPastTimeLimit_shared]
  rfl

lemma getNextTargetRequired_shared (fProofOfStake : Bool) :
    getNextTargetRequired params (path.map shared) fProofOfStake =
      getNextTargetRequired params path fProofOfStake := by
  have hlast : ∀ pindex rest, getLastBlockIndex fProofOfStake (shared pindex :: rest.map shared) =
      (getLastBlockIndex fProofOfStake (pindex :: rest)).map shared :=
    fun pindex rest => getLastBlockIndex_shared (pindex :: rest) fProofOfStake
  cases path with
  | nil => rfl
  | cons pindexLast path =>
    simp only [getNextTargetRequired, map_cons, hlast]
    rcases getLastBlockIndex fProofOfStake (pindexLast :: path) with
      _ | ⟨pindexPrev, _ | ⟨pprev, rest⟩⟩
    · rfl
    · rfl
    · simp only [map_cons, hlast]
      rcases getLastBlockIndex fProofOfStake (pprev :: rest) with _ | ⟨_, _ | ⟨_, _⟩⟩ <;> rfl

lemma enforceBIP30_shared : enforceBIP30 params (path.map shared) = enforceBIP30 params path := by
  rw [enforceBIP30, enforceBIP30, getAncestor_shared]
  cases getAncestor path params.BIP34Height <;> rfl

end Shared

/-! ## Nodes on one chain -/

def StoredBlock (config : Config) (pindex : CBlockIndex) (block : CBlock) : Prop :=
  block.fChecked = false ∧ block.getHash config.hashes = pindex.hashBlock ∧
    (block.getHash config.hashes = config.params.hashGenesisBlock ∨ block.isProofOfStake = true ∨
      checkProofOfWork config.params.powLimit (block.getPoWHash config.hashes) block.nBits = true)

/-- A chain of blocks with the coins that are unspent at its end. -/
structure Trunk where
  crypto : Crypto
  chainparams : CChainParams
  /-- the entries, the last block first -/
  path : List CBlockIndex
  nStakeModifier : Option Uint256
  body : Uint256 → CBlock
  view : CCoinsViewCache
  height_eq : ∀ (i : Nat) (pindex : CBlockIndex), path[i]? = some pindex →
    pindex.nHeight + i + 1 = path.length
  distinct : ∀ pindex ∈ path, ∀ tx ∈ (body pindex.hashBlock).vtx,
    ∀ tx' ∈ (body pindex.hashBlock).vtx,
      tx.getHash crypto.toHashes = tx'.getHash crypto.toHashes → tx = tx'
  /-- the records of the view belong to transactions of the chain -/
  created : ∀ (txid : Uint256) (coins : CCoins), view.accessCoins txid = some coins →
    ∃ pindex ∈ path, 0 < pindex.nHeight ∧ coins.nHeight.toInt = pindex.nHeight ∧
      ∃ tx ∈ (body pindex.hashBlock).vtx, tx.getHash crypto.toHashes = txid

/-- Where a block is connected: a node, the entry of the block, and the path of its predecessor. -/
structure Site where
  config : Config
  chain : ChainState
  pindex : CBlockIndex
  pprev : List CBlockIndex

namespace Site

def Accepts (site : Site) (block : CBlock) (view : CCoinsViewCache) (fJustCheck : Bool) : Prop :=
  ∃ r state, connectBlock site.config site.chain .ok block site.pindex site.pprev view fJustCheck
    .init = (.returned r, state)

/-- The node finds a transaction of the chain: it is not in the memory pool, and either the
transaction index has it, or the coins database or its cache has a record of it and the file of its
block is there. -/
def Locates (site : Site) (txid : Uint256) : Prop :=
  site.chain.mempool.lookup txid = none ∧
    ((site.config.fTxIndex = true ∧ site.chain.txIndex.lookup txid ≠ none) ∨
      ∃ nHeight pindex, site.chain.coinsHeight txid = some nHeight ∧
        site.chain.atHeight nHeight.toInt = some pindex ∧ pindex.nStatus.haveData = true ∧
        site.chain.blockFiles.lookup pindex.hashBlock ≠ none)

/-- The node follows the chain, at its tip or beyond, to put the entry `next` on it. -/
structure Follows (trunk : Trunk) (next : CBlockIndex) (site : Site) : Prop where
  crypto_eq : site.config.crypto = trunk.crypto
  chainparams_eq : site.config.chainparams = trunk.chainparams
  pindex_eq : shared site.pindex = shared next
  path_eq : site.pprev.map shared = trunk.path.map shared
  modifier_eq : site.pprev.head?.map CBlockIndex.nStakeModifier = trunk.nStakeModifier
  active : trunk.path.map CBlockIndex.hashBlock <:+ site.chain.chainActive
  entry : ∀ pindex ∈ trunk.path,
    (site.chain.mapBlockIndex.lookup pindex.hashBlock).map shared = some (shared pindex)
  no_null : site.chain.mapBlockIndex.lookup 0 = none
  /-- the files it has kept hold the blocks of the chain -/
  stored : ∀ pindex ∈ trunk.path, ∀ block,
    site.chain.blockFiles.lookup pindex.hashBlock = some block →
      block = trunk.body pindex.hashBlock ∧ StoredBlock site.config pindex block
  /-- and so do its records of coins, also those that are spent by now -/
  coins : ∀ txid nHeight coins, site.chain.coinsHeight txid = some nHeight →
    trunk.view.accessCoins txid = some coins → nHeight = coins.nHeight
  indexed : site.config.fTxIndex = true → ∀ txid header tx coins,
    site.chain.txIndex.lookup txid = some (header, tx) → trunk.view.accessCoins txid = some coins →
      tx.getHash site.config.hashes = txid ∧ ∃ pindex ∈ trunk.path,
        coins.nHeight.toInt = pindex.nHeight ∧
          header.getHash site.config.hashes = pindex.hashBlock ∧
            tx ∈ (trunk.body pindex.hashBlock).vtx

end Site

/-! ## Looking up the staked transaction -/

/-- The transaction that made a record of the view, with the entry of its block. -/
structure Trunk.Holds (trunk : Trunk) (txid : Uint256) (tx : CTransaction) (pindex : CBlockIndex) :
    Prop where
  mem : pindex ∈ trunk.path
  coins : ∃ coins, trunk.view.accessCoins txid = some coins ∧ coins.nHeight.toInt = pindex.nHeight
  tx_mem : tx ∈ (trunk.body pindex.hashBlock).vtx
  txid_eq : tx.getHash trunk.crypto.toHashes = txid

namespace Trunk

variable {trunk : Trunk} {txid : Uint256} {tx tx' : CTransaction} {pindex pindex' : CBlockIndex}

lemma pindex_eq_of_height (hmem : pindex ∈ trunk.path) (hmem' : pindex' ∈ trunk.path)
    (hheight : pindex.nHeight = pindex'.nHeight) : pindex = pindex' := by
  obtain ⟨i, hi⟩ := getElem?_of_mem hmem
  obtain ⟨j, hj⟩ := getElem?_of_mem hmem'
  have hhi := trunk.height_eq i pindex hi
  have hhj := trunk.height_eq j pindex' hj
  obtain rfl : i = j := by omega
  exact Option.some.inj (hi.symm.trans hj)

lemma Holds.unique (h : trunk.Holds txid tx pindex) (h' : trunk.Holds txid tx' pindex') :
    tx = tx' ∧ pindex = pindex' := by
  obtain ⟨coins, hcoins, hheight⟩ := h.coins
  obtain ⟨coins', hcoins', hheight'⟩ := h'.coins
  obtain rfl := Option.some.inj (hcoins.symm.trans hcoins')
  obtain rfl := pindex_eq_of_height h.mem h'.mem (by omega)
  exact ⟨trunk.distinct pindex h.mem tx h.tx_mem tx' h'.tx_mem
    (h.txid_eq.trans h'.txid_eq.symm), rfl⟩

end Trunk

namespace Site

variable {trunk : Trunk} {next : CBlockIndex} {site : Site} {txid : Uint256}
variable {tx : CTransaction} {coins : CCoins} {pindex : CBlockIndex}

/-- The active chain of the node has the entries of the trunk at their heights. -/
lemma Follows.atHeight (h : site.Follows trunk next) (hmem : pindex ∈ trunk.path) :
    ∃ pindex', site.chain.atHeight pindex.nHeight = some pindex' ∧
      shared pindex' = shared pindex := by
  obtain ⟨i, hi⟩ := getElem?_of_mem hmem
  have hheight := trunk.height_eq i pindex hi
  obtain ⟨newer, hactive⟩ := h.active
  have hat : site.chain.chainActive.reverse[pindex.nHeight]? = some pindex.hashBlock := by
    rw [← hactive, reverse_append, getElem?_append_left (by simp; omega),
      getElem?_reverse (by simp; omega), length_map, getElem?_map]
    have hpos : trunk.path.length - 1 - pindex.nHeight = i := by omega
    rw [hpos, hi]
    rfl
  have hentry := h.entry pindex hmem
  rw [Option.map_eq_some_iff] at hentry
  obtain ⟨pindex', hlookup, hshared⟩ := hentry
  refine ⟨pindex', ?_, hshared⟩
  rw [ChainState.atHeight, if_neg (by omega), Int.toNat_natCast, hat]
  exact hlookup

lemma Follows.hashes_eq (h : site.Follows trunk next) :
    site.config.hashes = trunk.crypto.toHashes := by
  rw [Config.hashes, h.crypto_eq]

/-- A block of the trunk is read back if the node has kept its file. -/
lemma Follows.readBlockFromDisk (h : site.Follows trunk next) (hmem : pindex ∈ trunk.path)
    {pindex' : CBlockIndex} (hshared : shared pindex' = shared pindex) (block : CBlock) :
    readBlockFromDisk site.config site.chain pindex' = some block ↔
      (pindex'.nStatus.haveData = true ∧ site.chain.blockFiles.lookup pindex'.hashBlock ≠ none) ∧
        block = trunk.body pindex.hashBlock := by
  have hhash : pindex'.hashBlock = pindex.hashBlock := hashBlock_of_shared hshared
  unfold Jumpcoin.readBlockFromDisk
  cases hdata : pindex'.nStatus.haveData with
  | false => simp
  | true =>
    cases hfile : site.chain.blockFiles.lookup pindex'.hashBlock with
    | none => simp
    | some stored =>
      obtain ⟨rfl, hflag, hname, hwork⟩ := h.stored pindex hmem stored (hhash ▸ hfile)
      have hpow : ((trunk.body pindex.hashBlock).getHash site.config.hashes !=
            site.config.params.hashGenesisBlock && (trunk.body pindex.hashBlock).isProofOfWork &&
          !checkProofOfWork site.config.params.powLimit
            ((trunk.body pindex.hashBlock).getPoWHash site.config.hashes)
            (trunk.body pindex.hashBlock).nBits) = false := by
        rcases hwork with hgenesis | hstake | hpow
        · simp [hgenesis]
        · simp [CBlock.isProofOfWork, hstake]
        · simp [hpow]
      have hsame : { trunk.body pindex.hashBlock with fChecked := false } =
          trunk.body pindex.hashBlock := by
        rw [← hflag]
      rw [hname] at hpow
      simp only [if_true, Option.bind_eq_bind, Option.bind_some, hname, hpow, Bool.false_eq_true,
        if_false, hhash, bne_self_eq_false, hsame, Option.some.injEq]
      exact ⟨fun heq => ⟨⟨trivial, Option.some_ne_none _⟩, heq.symm⟩, fun hread => hread.2.symm⟩

variable {found : CTransaction × Uint256}

lemma Follows.getTransactionSlow (h : site.Follows trunk next)
    (hcoins : trunk.view.accessCoins txid = some coins) :
    getTransactionSlow site.config site.chain txid = some found ↔
      (∃ nHeight pindex, site.chain.coinsHeight txid = some nHeight ∧
        site.chain.atHeight nHeight.toInt = some pindex ∧ pindex.nStatus.haveData = true ∧
        site.chain.blockFiles.lookup pindex.hashBlock ≠ none) ∧
      ∃ pindex, trunk.Holds txid found.1 pindex ∧ found.2 = pindex.hashBlock := by
  obtain ⟨pindex, hmem, hpos, hheight, tx, htx, hid⟩ := trunk.created txid coins hcoins
  obtain ⟨pindex', hat, hshared⟩ := h.atHeight hmem
  have hhash : pindex'.hashBlock = pindex.hashBlock := hashBlock_of_shared hshared
  have hholds : trunk.Holds txid tx pindex := ⟨hmem, ⟨coins, hcoins, hheight⟩, htx, hid⟩
  have hfind : (trunk.body pindex.hashBlock).vtx.find?
      (fun tx => tx.getHash site.config.hashes == txid) = some tx := by
    have hsome : ((trunk.body pindex.hashBlock).vtx.find?
        fun tx => tx.getHash site.config.hashes == txid).isSome = true :=
      find?_isSome.mpr ⟨tx, htx, by simp [h.hashes_eq, hid]⟩
    obtain ⟨tx', hfind⟩ := Option.isSome_iff_exists.mp hsome
    have hid' : tx'.getHash trunk.crypto.toHashes = txid := by
      simpa [h.hashes_eq] using find?_some hfind
    rw [hfind, trunk.distinct pindex hmem tx' (mem_of_find?_eq_some hfind) tx htx
      (hid'.trans hid.symm)]
  unfold Jumpcoin.getTransactionSlow
  cases htip : site.chain.coinsHeight txid with
  | none => simp
  | some nHeight =>
    have hsame : nHeight.toInt = pindex.nHeight := by
      rw [h.coins txid nHeight coins htip hcoins, hheight]
    have hup : 0 < nHeight := by
      rw [Int32.lt_iff_toInt_lt, hsame]
      simpa using hpos
    simp only [Option.bind_eq_bind, Option.bind_some, hup, if_true, hsame, hat, Option.some.injEq]
    constructor
    · intro hfound
      obtain ⟨block, hread, hfound⟩ := Option.bind_eq_some_iff.mp hfound
      obtain ⟨⟨hdata, hfile⟩, rfl⟩ := (h.readBlockFromDisk hmem hshared block).mp hread
      rw [hfind, Option.bind_some, Option.some.injEq] at hfound
      subst hfound
      exact ⟨⟨nHeight, pindex', rfl, by rw [hsame, hat], hdata, hfile⟩, pindex, hholds, hhash⟩
    · rintro ⟨⟨_, _, rfl, hat', hdata, hfile⟩, pindex₁, hholds₁, hhash₁⟩
      rw [hsame, hat] at hat'
      obtain rfl := Option.some.inj hat'
      rw [(h.readBlockFromDisk hmem hshared _).mpr ⟨⟨hdata, hfile⟩, rfl⟩, Option.bind_some, hfind,
        Option.bind_some, Option.some.injEq]
      obtain ⟨htx₁, rfl⟩ := hholds.unique hholds₁
      exact Prod.ext htx₁ (hhash.trans hhash₁.symm)

/-- `GetTransaction` on a transaction of the trunk, with a block that the index has: it finds what
made the record of the view, if the node can locate it. -/
lemma Follows.getTransaction (h : site.Follows trunk next)
    (hcoins : trunk.view.accessCoins txid = some coins) :
    getTransaction site.config site.chain txid = some found ∧
        site.chain.mapBlockIndex.lookup found.2 ≠ none ↔
      site.Locates txid ∧ ∃ pindex, trunk.Holds txid found.1 pindex ∧
      found.2 = pindex.hashBlock := by
  have hknown : ∀ pindex, trunk.Holds txid found.1 pindex →
      site.chain.mapBlockIndex.lookup pindex.hashBlock ≠ none := by
    intro pindex hholds hnone
    have hentry := h.entry pindex hholds.mem
    simp [hnone] at hentry
  unfold Jumpcoin.getTransaction Locates
  cases hpool : site.chain.mempool.lookup txid with
  | some tx =>
    refine iff_of_false (fun ⟨hfound, hindex⟩ => ?_) (by simp)
    obtain rfl := Option.some.inj hfound
    exact hindex h.no_null
  | none =>
    cases hentry : (if site.config.fTxIndex then site.chain.txIndex.lookup txid else none) with
    | none =>
      have hnot : ¬(site.config.fTxIndex = true ∧ site.chain.txIndex.lookup txid ≠ none) := by
        rintro ⟨hon, hne⟩
        rw [if_pos hon] at hentry
        exact hne hentry
      simp only [h.getTransactionSlow hcoins, hnot, false_or, true_and]
      refine ⟨And.left, fun hfound => ⟨hfound, ?_⟩⟩
      obtain ⟨-, pindex, hholds, hhash⟩ := hfound
      exact hhash ▸ hknown pindex hholds
    | some entry =>
      obtain ⟨header, tx⟩ := entry
      obtain ⟨hon, hlookup⟩ : site.config.fTxIndex = true ∧
          site.chain.txIndex.lookup txid = some (header, tx) := by
        split_ifs at hentry with hon
        exact ⟨hon, hentry⟩
      obtain ⟨hid, pindex, hmem, hheight, hhash, htx⟩ := h.indexed hon txid header tx coins hlookup
        hcoins
      have hholds : trunk.Holds txid tx pindex :=
        ⟨hmem, ⟨coins, hcoins, hheight⟩, htx, h.hashes_eq ▸ hid⟩
      simp only [hid, bne_self_eq_false, Bool.false_eq_true, if_false, Option.some.injEq]
      constructor
      · rintro ⟨rfl, -⟩
        exact ⟨⟨trivial, .inl ⟨hon, by simp [hlookup]⟩⟩, pindex, hholds, hhash⟩
      · rintro ⟨-, pindex', hholds', hhash'⟩
        obtain ⟨htx', rfl⟩ := hholds.unique hholds'
        exact ⟨Prod.ext htx' (hhash.trans hhash'.symm), hhash' ▸ hknown pindex hholds'⟩

end Site

/-! ## The stake -/

/-- The id of the transaction that a block stakes, if the stake is checked. -/
def stakedId (params : Params) (block : CBlock) : Option Uint256 :=
  if block.isProofOfStake && params.isProtocolV3 block.getBlockTime then
    (block.coinStake.bind fun tx => tx.vin.head?).map fun txin => txin.prevout.hash
  else none

section Stake

variable {config config' : Config} {chain : ChainState} {block : CBlock}
variable {pprev : List CBlockIndex} {state state' : CValidationState}

structure FoundStake (config : Config) (chain : ChainState) (block : CBlock)
    (coinStake : CTransaction) (txin : CTxIn) (txPrev : CTransaction) (pblockindex : CBlockIndex) :
    Prop where
  coinStake_eq : block.coinStake = some coinStake
  txin_eq : coinStake.vin.head? = some txin
  isCoinStake : coinStake.isCoinStake = true
  found : ∃ hashBlock, getTransaction config chain txin.prevout.hash = some (txPrev, hashBlock) ∧
    chain.mapBlockIndex.lookup hashBlock = some pblockindex

lemma checkBlockProofOfStake_eq_returned
    (hcheck : (block.isProofOfStake && config.params.isProtocolV3 block.getBlockTime) = true) :
    checkBlockProofOfStake config chain block pprev state = (.returned (), state') ↔
      ∃ pindexPrev coinStake txin txPrev pblockindex, pprev.head? = some pindexPrev ∧
        FoundStake config chain block coinStake txin txPrev pblockindex ∧
        checkStakedOutput config pindexPrev coinStake txin block.nBits
          (if coinStake.nTime = 0 then block.nTime else coinStake.nTime) txPrev pblockindex state =
            (.returned (), state') := by
  simp only [checkBlockProofOfStake, hcheck, if_true, bind_eq_returned, require_eq_returned,
    checkProofOfStake, ensure_eq_returned]
  constructor
  · rintro ⟨pindexPrev, _, ⟨hprev, rfl⟩, coinStake, _, ⟨hstake, rfl⟩, _, _, ⟨hkind, rfl⟩, txin, _,
      ⟨htxin, rfl⟩, h⟩
    cases hget : getTransaction config chain txin.prevout.hash with
    | none => simp [hget] at h
    | some found =>
      obtain ⟨txPrev, hashBlock⟩ := found
      cases hlookup : chain.mapBlockIndex.lookup hashBlock with
      | none => cases hdebug : config.fDebug <;> simp [hget, hlookup, hdebug] at h
      | some pblockindex =>
        simp only [hget, hlookup] at h
        exact ⟨pindexPrev, coinStake, txin, txPrev, pblockindex, hprev,
          ⟨hstake, htxin, hkind, hashBlock, hget, hlookup⟩, h⟩
  · rintro ⟨pindexPrev, coinStake, txin, txPrev, pblockindex, hprev, hfound, h⟩
    obtain ⟨hashBlock, hget, hlookup⟩ := hfound.found
    refine ⟨pindexPrev, state, ⟨hprev, rfl⟩, coinStake, state, ⟨hfound.coinStake_eq, rfl⟩, (),
      state, ⟨hfound.isCoinStake, rfl⟩, txin, state, ⟨hfound.txin_eq, rfl⟩, ?_⟩
    simpa only [hget, hlookup] using h

variable {pblockindex : CBlockIndex} {txPrev : CTransaction} {txin : CTxIn}

lemma FoundStake.stakedId_eq {coinStake : CTransaction}
    (h : FoundStake config chain block coinStake txin txPrev pblockindex)
    (hcheck : (block.isProofOfStake && config.params.isProtocolV3 block.getBlockTime) = true) :
    stakedId config.params block = some txin.prevout.hash := by
  simp [stakedId, hcheck, h.coinStake_eq, h.txin_eq]

variable {pindexPrev : CBlockIndex}

lemma checkStakedOutput_congr (hcrypto : config'.crypto = config.crypto)
    (hparams : config'.chainparams = config.chainparams) {pindexPrev' : CBlockIndex}
    (hheight : pindexPrev'.nHeight = pindexPrev.nHeight)
    (hmodifier : pindexPrev'.nStakeModifier = pindexPrev.nStakeModifier)
    {pblockindex' : CBlockIndex} (hshared : shared pblockindex' = shared pblockindex)
    (tx : CTransaction) (txin : CTxIn) (nBits nTimeTx : UInt32) (txPrev : CTransaction) :
    checkStakedOutput config' pindexPrev' tx txin nBits nTimeTx txPrev pblockindex' =
      checkStakedOutput config pindexPrev tx txin nBits nTimeTx txPrev pblockindex := by
  simp only [checkStakedOutput, checkStakeKernelHash, Config.hashes, Config.params, hcrypto,
    hparams, hheight, hmodifier, nHeight_of_shared hshared, nTime_of_shared hshared]

/-- The staked output of a passed check has a value. -/
lemma checkStakedOutput_value {tx : CTransaction} {nBits nTimeTx : UInt32}
    (h : checkStakedOutput config pindexPrev tx txin nBits nTimeTx txPrev pblockindex state =
      (.returned (), state')) :
    ∃ txout, txPrev.vout[txin.prevout.n.toNat]? = some txout ∧ txout.nValue ≠ 0 := by
  simp only [checkStakedOutput, bind_eq_returned, ensure_eq_returned, require_eq_returned,
    stakedValue, Option.map_eq_some_iff] at h
  obtain ⟨_, _, -, _, _, -, _, _, -, _, _, ⟨⟨txout, hout, rfl⟩, -⟩, hkernel, -⟩ := h
  refine ⟨txout, hout, fun hzero => ?_⟩
  simp [checkStakeKernelHash, hzero] at hkernel

/-- Under the hash of a transaction of the block no other one is found. -/
def FindsOwn (config : Config) (chain : ChainState) (block : CBlock) : Prop :=
  ∀ tx ∈ block.vtx, ∀ found,
    getTransaction config chain (tx.getHash config.hashes) = some found → found.1 = tx

/-- The transaction that an accepted block stakes has a record in the view. It is not the coinbase
of the block, which in a proof-of-stake block has no value. -/
lemma ConnectedBlock.staked_record {pindex : CBlockIndex} {view : CCoinsViewCache} {r : Connected}
    (h : ConnectedBlock config chain block pindex pprev view r)
    (hstake : checkBlockProofOfStake config chain block pprev state = (.returned (), state'))
    (hfound : FindsOwn config chain block) :
    ∀ txid ∈ stakedId config.params block, ∃ coins, view.accessCoins txid = some coins := by
  intro txid htxid
  have hcheck : (block.isProofOfStake && config.params.isProtocolV3 block.getBlockTime) = true := by
    by_contra hcheck
    simp [stakedId, hcheck] at htxid
  obtain ⟨_, coinStake, txin, txPrev, pblockindex, -, hfoundStake, houtput⟩ :=
    (checkBlockProofOfStake_eq_returned hcheck).mp hstake
  rw [hfoundStake.stakedId_eq hcheck, Option.mem_some_iff] at htxid
  subst htxid
  obtain ⟨coinBase, coinStake', rest, hvtx, ⟨hlength, hempty⟩, hkind, -⟩ :=
    h.wellFormed.stake (by simp_all)
  obtain rfl : coinStake' = coinStake := by
    simpa [CBlock.coinStake, hvtx] using hfoundStake.coinStake_eq
  have hne : txin.prevout.hash ≠ coinBase.getHash config.hashes := by
    intro heq
    obtain ⟨hashBlock, hget, -⟩ := hfoundStake.found
    obtain rfl : txPrev = coinBase := hfound coinBase (by simp [hvtx]) _ (heq ▸ hget)
    obtain ⟨txout, hout, hvalue⟩ := checkStakedOutput_value houtput
    have hzero := hempty txout (mem_of_getElem? hout)
    simp only [CTxOut.isEmpty, Bool.and_eq_true, beq_iff_eq] at hzero
    exact hvalue hzero.1
  obtain ⟨ctx, rfl, rfl, rfl, s, hrun, -⟩ := h.run
  rw [hvtx] at hrun
  obtain ⟨cb, rest', hvtx', hcb, hothers⟩ := h.wellFormed.coinBase
  obtain ⟨rfl, rfl⟩ := cons.inj (hvtx.symm.trans hvtx')
  rcases hrun with _ | ⟨hfirst, _ | ⟨hsecond, -⟩⟩
  obtain ⟨_, hupdate, -⟩ := hfirst.update
  obtain ⟨_, hupdate', -⟩ := hsecond.update
  obtain ⟨spent, view₁, hspend, -, hview⟩ := updateCoins_eq_some hupdate
  obtain ⟨spent', view₂, hspend', -, -⟩ := updateCoins_eq_some hupdate'
  obtain ⟨-, rfl⟩ : [] = spent ∧ view = view₁ := by
    simpa [CCoinsViewCache.spendTx, hcb] using hspend
  simp only [CCoinsViewCache.spendTx, hothers coinStake' (by simp), Bool.false_eq_true, if_false]
    at hspend'
  obtain ⟨x, -, hx⟩ := Loop.exists_left_of_mem
    (spendInputs_spent hspend').flip (mem_of_mem_head? hfoundStake.txin_eq)
  rw [hview, getOutputFor_setCoins, if_neg hne, getOutputFor_eq,
    Option.bind_eq_some_iff] at hx
  obtain ⟨coins, hcoins, -⟩ := hx
  exact ⟨coins, hcoins⟩

end Stake

lemma Site.Follows.head_shared {trunk : Trunk} {next : CBlockIndex} {site site' : Site}
    (h : site.Follows trunk next) (h' : site'.Follows trunk next) {pindexPrev : CBlockIndex}
    (hprev : site.pprev.head? = some pindexPrev) :
    ∃ pindexPrev', site'.pprev.head? = some pindexPrev' ∧
      shared pindexPrev' = shared pindexPrev ∧
      pindexPrev'.nStakeModifier = pindexPrev.nStakeModifier := by
  have hpath : (site'.pprev.map shared).head? = (site.pprev.map shared).head? := by
    rw [h.path_eq, h'.path_eq]
  rw [head?_map, head?_map, hprev] at hpath
  obtain ⟨pindexPrev', hprev', hshared⟩ := Option.map_eq_some_iff.mp hpath
  have hmodifier := h'.modifier_eq.trans h.modifier_eq.symm
  rw [hprev, hprev', Option.map_some, Option.map_some, Option.some.injEq] at hmodifier
  exact ⟨pindexPrev', hprev', hshared, hmodifier⟩

/-- A stake that passes at a node has been located there, and passes at every other node that
locates it. -/
lemma Site.Follows.stake {trunk : Trunk} {next : CBlockIndex} {site site' : Site} {block : CBlock}
    {state state' : CValidationState} (h : site.Follows trunk next) (h' : site'.Follows trunk next)
    (hrecord : ∀ txid ∈ stakedId site.config.params block,
      ∃ coins, trunk.view.accessCoins txid = some coins)
    (hpass : checkBlockProofOfStake site.config site.chain block site.pprev state =
      (.returned (), state')) :
    (∀ txid ∈ stakedId site.config.params block, site.Locates txid) ∧
      ((∀ txid ∈ stakedId site.config.params block, site'.Locates txid) →
        checkBlockProofOfStake site'.config site'.chain block site'.pprev state =
          (.returned (), state')) := by
  have hparams : site'.config.chainparams = site.config.chainparams :=
    h'.chainparams_eq.trans h.chainparams_eq.symm
  have hcrypto : site'.config.crypto = site.config.crypto := h'.crypto_eq.trans h.crypto_eq.symm
  cases hcheck : block.isProofOfStake && site.config.params.isProtocolV3 block.getBlockTime with
  | false =>
    have hcheck' : (block.isProofOfStake &&
        site'.config.params.isProtocolV3 block.getBlockTime) = false := by
      rw [Config.params, hparams, hcheck]
    rw [checkBlockProofOfStake, hcheck, if_neg (by simp)] at hpass
    rw [checkBlockProofOfStake, hcheck', if_neg (by simp)]
    exact ⟨by simp [stakedId, hcheck], fun _ => hpass⟩
  | true =>
    have hcheck' : (block.isProofOfStake &&
        site'.config.params.isProtocolV3 block.getBlockTime) = true := by
      rw [Config.params, hparams, hcheck]
    obtain ⟨pindexPrev, coinStake, txin, txPrev, pblockindex, hprev, hfound, houtput⟩ :=
      (checkBlockProofOfStake_eq_returned hcheck).mp hpass
    have hid := hfound.stakedId_eq hcheck
    simp only [hid, Option.mem_some_iff, forall_eq'] at hrecord ⊢
    obtain ⟨coins, hcoins⟩ := hrecord
    obtain ⟨hashBlock, hget, hlookup⟩ := hfound.found
    obtain ⟨hlocates, pindex, hholds, hhash⟩ := (h.getTransaction hcoins).mp
      ⟨hget, by simp [hlookup]⟩
    refine ⟨hlocates, fun hlocates' => ?_⟩
    obtain ⟨hget', hknown'⟩ := (h'.getTransaction hcoins).mpr ⟨hlocates', pindex, hholds, hhash⟩
    obtain ⟨pblockindex', hlookup'⟩ := Option.ne_none_iff_exists'.mp hknown'
    obtain ⟨pindexPrev', hprev', hshared, hmodifier⟩ := h.head_shared h' hprev
    refine (checkBlockProofOfStake_eq_returned hcheck').mpr ⟨pindexPrev', coinStake, txin, txPrev,
      pblockindex', hprev', ⟨hfound.coinStake_eq, hfound.txin_eq, hfound.isCoinStake, hashBlock,
        hget', hlookup'⟩, ?_⟩
    -- both entries are that of the block in which the trunk has the transaction
    have hentry := h.entry pindex hholds.mem
    have hentry' := h'.entry pindex hholds.mem
    rw [← hhash, hlookup, Option.map_some, Option.some.injEq] at hentry
    rw [← hhash, hlookup', Option.map_some, Option.some.injEq] at hentry'
    rwa [checkStakedOutput_congr hcrypto hparams (nHeight_of_shared hshared) hmodifier
      (hentry'.trans hentry.symm)]

/-! ## The transactions -/

/-- Two contexts in which the loop of `ConnectBlock` does the same for a block on `hash`. Scripts
may be run at once in one and queued in the other. -/
structure SameContext (hash : Uint256) (vtx : List CTransaction) (ctx ctx' : ConnectContext) :
    Prop where
  crypto_eq : ctx'.config.crypto = ctx.config.crypto
  chainparams_eq : ctx'.config.chainparams = ctx.config.chainparams
  block_eq : ctx'.block = ctx.block
  scripts_eq : ctx'.fScriptChecks = ctx.fScriptChecks
  height_eq : ctx'.pindex.nHeight = ctx.pindex.nHeight
  time_eq : ∀ tx ∈ vtx, txTime tx ctx'.chain.adjustedTime = txTime tx ctx.chain.adjustedTime
  locks_eq : ∀ tx fVerifySequence prevHeights,
    sequenceLocks ctx.config.params ctx'.pindex ctx'.pprev tx fVerifySequence prevHeights =
      sequenceLocks ctx.config.params ctx.pindex ctx.pprev tx fVerifySequence prevHeights
  spendHeight_eq : ∀ view : CCoinsViewCache, view.hashBlock = hash →
    getSpendHeight ctx'.chain view = getSpendHeight ctx.chain view

section Loop

variable {hash : Uint256} {vtx : List CTransaction} {ctx ctx' : ConnectContext}
variable {tx : CTransaction} {s s₁ : ConnectLoop} {state state₁ : CValidationState}

variable {checks : List CScriptCheck}

lemma SameContext.checkInputs (h : SameContext hash vtx ctx ctx') (htx : tx ∈ vtx)
    {view : CCoinsViewCache} (hview : view.hashBlock = hash)
    (hrun : checkInputs ctx.config ctx.chain tx view ctx.fScriptChecks ctx.flags state = (.returned
      checks, state₁)) (hpass : ScriptsPass ctx.config.crypto checks) :
    ∃ checks', Jumpcoin.checkInputs ctx'.config ctx'.chain tx view ctx'.fScriptChecks ctx'.flags
        state = (.returned checks', state₁) ∧ ScriptsPass ctx.config.crypto checks' := by
  have hflags : ctx'.flags = ctx.flags := by
    simp only [ConnectContext.flags, Config.params, h.chainparams_eq, h.block_eq]
  unfold Jumpcoin.checkInputs at hrun ⊢
  split_ifs at hrun ⊢ with hcb
  · exact ⟨checks, hrun, hpass⟩
  · simp only [bind_eq_returned, require_eq_returned] at hrun ⊢
    obtain ⟨nSpendHeight, _, ⟨hheight, rfl⟩, _, state₂, hinputs, hscripts⟩ := hrun
    have hinputs' : checkTxInputs ctx'.config.crypto.words ctx'.config.params
        ctx'.chain.adjustedTime tx view nSpendHeight state = (.returned (), state₂) := by
      rw [← hinputs]
      simp only [checkTxInputs, Config.params, h.crypto_eq, h.chainparams_eq, h.time_eq tx htx]
    have hscripts' := checkInputScripts_pass.mp ⟨checks, hscripts, hpass⟩
    rw [← h.scripts_eq, ← hflags, ← h.crypto_eq] at hscripts'
    obtain ⟨checks', hrun', hpass'⟩ := checkInputScripts_pass.mpr hscripts'
    exact ⟨checks', ⟨nSpendHeight, state, ⟨h.spendHeight_eq view hview ▸ hheight, rfl⟩, (), state₂,
      hinputs', hrun'⟩, h.crypto_eq ▸ hpass'⟩

variable {i : Nat}

/-- A transaction that is connected in one context is connected in the other, with the same
result except for the queue. -/
lemma SameContext.connectTx (h : SameContext hash vtx ctx ctx') (htx : tx ∈ vtx)
    (hview : s.view.hashBlock = hash) (hrun : ctx.connectTx i tx s state = (.returned s₁, state₁))
    (hpass : ScriptsPass ctx.config.crypto s₁.vChecks)
    (hchecks : ScriptsPass ctx.config.crypto checks) :
    ∃ checks₁, ctx'.connectTx i tx { s with vChecks := checks } state =
        (.returned { s₁ with vChecks := checks₁ }, state₁) ∧
      ScriptsPass ctx.config.crypto checks₁ := by
  have hparams : ctx'.config.params = ctx.config.params := by rw [Config.params, h.chainparams_eq]
  have havailable : ctx'.checkInputsAvailable s.view tx = ctx.checkInputsAvailable s.view tx := by
    simp only [ConnectContext.checkInputsAvailable, h.locks_eq, h.block_eq, hparams]
  simp only [ConnectContext.connectTx, bind_eq_returned, require_eq_returned, ensure_eq_returned,
    pure_eq_returned, Prod.exists] at hrun
  obtain ⟨_, state₂, hinputs, nSigOps, _, ⟨hsigops, rfl⟩, _, _, ⟨hlimit, rfl⟩, nFees, nReward,
    state₃, hfees, new, state₄, hcheck, txundo, view, _, ⟨hupdate, rfl⟩, rfl, rfl⟩ := hrun
  obtain ⟨new', hcheck', hnew'⟩ := h.checkInputs htx hview hcheck
    fun check hmem => hpass check (mem_append_right _ hmem)
  refine ⟨checks ++ new', ?_, ?_⟩
  · simp only [ConnectContext.connectTx, bind_eq_returned, require_eq_returned, ensure_eq_returned,
      pure_eq_returned, Prod.exists]
    refine ⟨(), state₂, havailable ▸ hinputs, nSigOps, _, ⟨hsigops, rfl⟩, (), _, ⟨hlimit, rfl⟩,
      nFees, nReward, state₃, h.crypto_eq ▸ hfees, new', state₄, hcheck', txundo, view, _,
      ⟨?_, rfl⟩, rfl, rfl⟩
    rw [Config.hashes, h.crypto_eq, h.height_eq]
    exact hupdate
  · intro check hmem
    rcases mem_append.mp hmem with hmem | hmem
    · exact hchecks check hmem
    · exact hnew' check hmem

lemma SameContext.connectTxs (h : SameContext hash vtx ctx ctx') {rest : List CTransaction}
    (hrest : rest ⊆ vtx) (hview : s.view.hashBlock = hash)
    (hrun : ctx.connectTxs i rest s state = (.returned s₁, state₁))
    (hpass : ScriptsPass ctx.config.crypto s₁.vChecks)
    (hchecks : ScriptsPass ctx.config.crypto checks) :
    ∃ checks₁, ctx'.connectTxs i rest { s with vChecks := checks } state =
        (.returned { s₁ with vChecks := checks₁ }, state₁) ∧
      ScriptsPass ctx.config.crypto checks₁ := by
  induction rest generalizing i s state checks with
  | nil =>
    obtain ⟨rfl, rfl⟩ := pure_eq_returned.mp hrun
    exact ⟨checks, rfl, hchecks⟩
  | cons tx rest ih =>
    obtain ⟨s₂, state₂, htx, htxs⟩ := bind_eq_returned.mp hrun
    have hkeeps := connectTx_keeps htx
    have hpass₂ : ScriptsPass ctx.config.crypto s₂.vChecks :=
      fun check hmem => hpass check (connectTxs_vChecks htxs hmem)
    obtain ⟨checks₂, htx', hchecks₂⟩ := h.connectTx (hrest mem_cons_self) hview htx hpass₂
      hchecks
    obtain ⟨checks₁, htxs', hchecks₁⟩ := ih (fun tx' hmem => hrest (mem_cons_of_mem _ hmem))
      (hkeeps.1.trans hview) htxs hchecks₂
    exact ⟨checks₁, bind_eq_returned.mpr ⟨_, state₂, htx', htxs'⟩, hchecks₁⟩

end Loop

/-! ## The verdict -/

/-- Two sites that differ at most in what `ConnectBlock` should not depend on: they follow the same
chain, allow the same drift in time, run or skip the scripts alike, and give the transactions the
same times. -/
structure Site.Comparable (trunk : Trunk) (next : CBlockIndex) (block : CBlock)
    (site site' : Site) : Prop where
  follows : site.Follows trunk next
  follows' : site'.Follows trunk next
  drift : ∀ nTime, futureDrift site'.config.params site'.chain.height nTime =
    futureDrift site.config.params site.chain.height nTime
  scripts : scriptChecksNeeded site'.config site'.chain site'.pindex =
    scriptChecksNeeded site.config site.chain site.pindex
  time : ∀ tx ∈ block.vtx, txTime tx site'.chain.adjustedTime = txTime tx site.chain.adjustedTime

lemma exists_writeUndo (config : Config) (pindex : CBlockIndex) (hashPrev : Uint256)
    (blockundo : CBlockUndo) (state : CValidationState) :
    ∃ written,
      writeUndo config .ok pindex hashPrev blockundo state = (.returned written, state) := by
  unfold writeUndo
  split_ifs <;> exact ⟨_, rfl⟩

namespace Site.Comparable

variable {trunk : Trunk} {next : CBlockIndex} {block : CBlock} {site site' : Site}

section

variable (h : Comparable trunk next block site site')
include h

lemma symm : Comparable trunk next block site' site :=
  ⟨h.follows', h.follows, fun nTime => (h.drift nTime).symm, h.scripts.symm,
    fun tx htx => (h.time tx htx).symm⟩

lemma config_eq :
    site'.config.crypto = site.config.crypto ∧ site'.config.hashes = site.config.hashes ∧
      site'.config.chainparams = site.config.chainparams ∧
      site'.config.params = site.config.params := by
  have hcrypto := h.follows'.crypto_eq.trans h.follows.crypto_eq.symm
  have hparams := h.follows'.chainparams_eq.trans h.follows.chainparams_eq.symm
  exact ⟨hcrypto, by rw [Config.hashes, hcrypto], hparams, by rw [Config.params, hparams]⟩

lemma pprev_eq : site'.pprev.map shared = site.pprev.map shared :=
  h.follows'.path_eq.trans h.follows.path_eq.symm

lemma sameContext {pindexPrev : CBlockIndex}
    (hprev : site.pprev.head? = some pindexPrev) (checked : CBlock) :
    SameContext pindexPrev.hashBlock block.vtx
      ⟨site.config, site.chain, checked, site.pindex, site.pprev,
        scriptChecksNeeded site.config site.chain site.pindex⟩
      ⟨site'.config, site'.chain, checked, site'.pindex, site'.pprev,
        scriptChecksNeeded site'.config site'.chain site'.pindex⟩ where
  crypto_eq := h.config_eq.1
  chainparams_eq := h.config_eq.2.2.1
  block_eq := rfl
  scripts_eq := h.scripts
  height_eq := nHeight_of_shared (h.follows'.pindex_eq.trans h.follows.pindex_eq.symm)
  time_eq := h.time
  locks_eq tx fVerifySequence prevHeights := by
    rw [← sequenceLocks_shared, ← sequenceLocks_shared _ _ site.pindex, h.pprev_eq,
      h.follows'.pindex_eq, h.follows.pindex_eq]
  spendHeight_eq view hview := by
    -- the entry of the predecessor is on the trunk, where the nodes agree
    have hpath : (trunk.path.map shared).head? = some (shared pindexPrev) := by
      rw [← h.follows.path_eq, head?_map, hprev]
      rfl
    rw [head?_map] at hpath
    obtain ⟨pindex, hhead, hshared⟩ := Option.map_eq_some_iff.mp hpath
    have hmem := mem_of_mem_head? hhead
    obtain ⟨e, hlookup, he⟩ := Option.map_eq_some_iff.mp (h.follows.entry pindex hmem)
    obtain ⟨e', hlookup', he'⟩ := Option.map_eq_some_iff.mp (h.follows'.entry pindex hmem)
    rw [getSpendHeight, getSpendHeight, hview, ← hashBlock_of_shared hshared, hlookup, hlookup',
      Option.map_some, Option.map_some, nHeight_of_shared (he'.trans he.symm)]

lemma checkBlock_eq (fCheck : Bool) :
    checkBlock site'.config.crypto site'.config.params site'.chain.height block fCheck fCheck
        fCheck =
      checkBlock site.config.crypto site.config.params site.chain.height block fCheck fCheck
        fCheck := by
  obtain ⟨hcrypto, -, -, hparams⟩ := h.config_eq
  have hdrift := h.drift
  rw [hparams] at hdrift
  simp only [hcrypto, hparams, checkBlock, checkBlockShape, hdrift]

lemma getNextTargetRequired_eq (fProofOfStake : Bool) :
    getNextTargetRequired site'.config.params site'.pprev fProofOfStake =
      getNextTargetRequired site.config.params site.pprev fProofOfStake := by
  rw [h.config_eq.2.2.2, ← getNextTargetRequired_shared, h.pprev_eq, getNextTargetRequired_shared]

lemma enforceBIP30_eq :
    enforceBIP30 site'.config.params site'.pprev = enforceBIP30 site.config.params site.pprev := by
  rw [h.config_eq.2.2.2, ← enforceBIP30_shared, h.pprev_eq, enforceBIP30_shared]

lemma checkReward_eq (s : ConnectLoop) :
    checkReward site'.config block s = checkReward site.config block s := by
  obtain ⟨hcrypto, -, -, hparams⟩ := h.config_eq
  simp only [checkReward, hcrypto, hparams]

/-- A block accepted at one site is accepted at the other if its stake is located there. -/
lemma accepts {fJustCheck : Bool} (hflag : FlagSound site.config.crypto site.config.params block)
    (hgenesis : block.getHash site.config.hashes ≠ site.config.params.hashGenesisBlock)
    (hfound : FindsOwn site.config site.chain block)
    (haccepts : site.Accepts block trunk.view fJustCheck) :
    (∀ txid ∈ stakedId site.config.params block, site.Locates txid) ∧
      ((∀ txid ∈ stakedId site.config.params block, site'.Locates txid) →
        site'.Accepts block trunk.view fJustCheck) := by
  obtain ⟨r, state, hrun⟩ := haccepts
  obtain ⟨-, ⟨hgen, -⟩ | ⟨-, hconnected⟩⟩ := connectBlock_returned hflag hrun
  · exact absurd hgen hgenesis
  simp only [connectBlock, bind_eq_returned, demand_eq_returned] at hrun
  obtain ⟨block', state₁, hcheck, _, _, ⟨hbest, rfl⟩, hrun⟩ := hrun
  obtain ⟨-, fChecked, rfl⟩ := checkBlock_returned hflag hcheck
  rw [← h.checkBlock_eq] at hcheck
  rw [if_neg hgenesis] at hrun
  simp only [connectTransactions, bind_eq_returned, require_eq_returned, ensure_eq_returned,
    checkBIP30] at hrun
  obtain ⟨_, _, ⟨hbits, rfl⟩, _, state₂, hstake, pindexPrev, _, ⟨hprev, rfl⟩, _, _, ⟨hbip, rfl⟩, s,
    state₃, hloop, _, state₄, hreward, kernel, _, ⟨hkernel, rfl⟩, _, _, ⟨hqueue, rfl⟩, -⟩ := hrun
  obtain ⟨hlocates, hstake'⟩ := h.follows.stake h.follows'
    (hconnected.staked_record hstake hfound) hstake
  refine ⟨hlocates, fun hlocates' => ?_⟩
  obtain ⟨hcrypto, hhashes, -, hparams⟩ := h.config_eq
  obtain ⟨pindexPrev', hprev', hshared, -⟩ := h.follows.head_shared h.follows' hprev
  have hhead : pindexPrev'.hashBlock = pindexPrev.hashBlock := hashBlock_of_shared hshared
  have hview : trunk.view.hashBlock = pindexPrev.hashBlock := by simpa [hprev] using hbest
  obtain ⟨checks, hloop', hchecks⟩ := (h.sameContext hprev { block with fChecked }).connectTxs
    (List.Subset.refl _) hview hloop (scriptsPass_iff.mp hqueue)
    (show ScriptsPass site.config.crypto [] by simp [ScriptsPass])
  rw [← h.getNextTargetRequired_eq] at hbits
  rw [← h.enforceBIP30_eq, ← hhashes] at hbip
  have hbest' : (trunk.view.hashBlock ==
      (site'.pprev.head?.map CBlockIndex.hashBlock).getD 0) = true := by
    simp [hprev', hhead, hview]
  have hreward' : checkReward site'.config block { s with vChecks := checks } state₃ =
      (.returned (), state₄) := by
    rw [h.checkReward_eq]
    exact hreward
  have hqueue' : (checks.all fun check => (check.error site'.config.crypto).isNone) = true := by
    rw [hcrypto]
    exact scriptsPass_iff.mpr hchecks
  refine exists_bind_returned hcheck
    (exists_bind_returned (a := ()) (demand_eq_returned.mpr ⟨hbest', rfl⟩) ?_)
  rw [if_neg (by rw [hparams, hhashes]; exact hgenesis)]
  refine exists_bind_returned (a := ()) (ensure_eq_returned.mpr ⟨hbits, rfl⟩) ?_
  refine exists_bind_returned (hstake' hlocates') ?_
  refine exists_bind_returned (require_eq_returned.mpr ⟨hprev', rfl⟩) ?_
  refine exists_bind_returned (a := ()) (ensure_eq_returned.mpr ⟨hbip, rfl⟩) ?_
  refine exists_bind_returned hloop' ?_
  refine exists_bind_returned hreward' ?_
  refine exists_bind_returned (require_eq_returned.mpr ⟨hhashes ▸ hkernel, rfl⟩) ?_
  refine exists_bind_returned (a := ()) (ensure_eq_returned.mpr ⟨hqueue', rfl⟩) ?_
  cases fJustCheck with
  | true => exact ⟨_, state₄, rfl⟩
  | false =>
    refine exists_bind_returned (exists_writeUndo _ _ _ _ state₄).choose_spec ?_
    refine exists_bind_returned (a := ()) (ensure_eq_returned.mpr ⟨by simp [Disk.ok], rfl⟩) ?_
    exact ⟨_, state₄, rfl⟩

end

end Site.Comparable

def toyStakedBlock : CBlock where
  toCBlockHeader := toyStakedHeader
  vtx := [toyStaked]
  vchBlockSig := []
  fChecked := false

def toySweepBlock : CBlock :=
  let vtx := (toyStakeBlock 1000).vtx.map fun tx =>
    if tx.isCoinStake then
      { tx with vin := tx.vin ++ [⟨⟨toyStaked.getHash toyCrypto.toHashes, 0⟩, [], 0xffffffff⟩] }
    else tx
  { toyStakeBlock 1000 with
    hashMerkleRoot := (toyBlock vtx).hashMerkleRoot
    vtx }

/-- A node at the tip of `toyStakePath` with all block files and without an index of
transactions. -/
def toyTipChain : ChainState :=
  { toyStakeChain [] with
    pcoinsTip := toyStakeView
    blockFiles := Finmap.singleton (toyStakedHeader.getHash toyCrypto.toHashes) toyStakedBlock
    txIndex := ∅ }

/-- The chain with one more block, and the record of `toyStaked` in the cache or not. -/
def toyChainAfter (r : Connected) (flushed : Bool) : ChainState :=
  { toyTipChain with
    mapBlockIndex := toyTipChain.mapBlockIndex.insert r.pindex.hashBlock r.pindex
    chainActive := r.pindex.hashBlock :: toyTipChain.chainActive
    pcoinsTip := r.view
    prunedCoins := if flushed then [] else [(toyStaked.getHash toyCrypto.toHashes, 1)] }

/-- The block connected to a view with the given chain state. -/
def toyReconnects (r : Connected) (view : CCoinsViewCache) (flushed : Bool) : Bool :=
  (connectBlock toyConfig (toyChainAfter r flushed) .ok toySweepBlock r.pindex toyStakePath
    (view.setBestBlock 112) false .init).1.isReturned

lemma toyStakeView_eq {txid : Uint256} {coins : CCoins}
    (h : toyStakeView.accessCoins txid = some coins) :
    txid = toyStaked.getHash toyCrypto.toHashes ∧
      coins = ⟨false, false, toyStaked.vout, 1, 1, 1700000000⟩ := by
  obtain rfl := (mem_singleton _ _ _).mp (mem_of_lookup_eq_some h)
  exact ⟨rfl, Option.some.inj (h.symm.trans lookup_singleton_eq)⟩

def toyTrunk : Trunk where
  crypto := toyCrypto
  chainparams := regTestParams 100
  path := toyStakePath
  nStakeModifier := some 0
  body _ := toyStakedBlock
  view := toyStakeView
  height_eq := by
    have hall : ∀ i : Fin 13, ∀ pindex ∈ toyStakePath[i.val]?, pindex.nHeight + i.val + 1 = 13 := by
      decide +kernel
    intro i pindex h
    have hlt : i < 13 := (List.getElem?_eq_some_iff.mp h).1
    exact hall ⟨i, hlt⟩ pindex h
  distinct := by decide +kernel
  created := by
    intro txid coins h
    obtain ⟨rfl, rfl⟩ := toyStakeView_eq h
    decide +kernel

def toySite (fTxIndex : Bool) : Site where
  config := { toyConfig with fTxIndex }
  chain := { toyTipChain with
    txIndex := Finmap.singleton (toyStaked.getHash toyCrypto.toHashes)
      (toyStakedHeader, toyStaked) }
  pindex := toyStakeIndex
  pprev := toyStakePath

lemma toySite_follows (fTxIndex : Bool) : (toySite fTxIndex).Follows toyTrunk toyStakeIndex where
  crypto_eq := rfl
  chainparams_eq := rfl
  pindex_eq := rfl
  path_eq := rfl
  modifier_eq := by decide +kernel +revert
  active := suffix_rfl
  entry := by decide +kernel +revert
  no_null := by decide +kernel +revert
  stored := by
    intro pindex _ block hfile
    have hhash : pindex.hashBlock = toyStakedHeader.getHash toyCrypto.toHashes :=
      (mem_singleton _ _ _).mp (mem_of_lookup_eq_some hfile)
    have hlookup : (toySite fTxIndex).chain.blockFiles.lookup
        (toyStakedHeader.getHash toyCrypto.toHashes) = some toyStakedBlock :=
      lookup_singleton_eq
    rw [hhash, hlookup, Option.some.injEq] at hfile
    subst hfile
    exact ⟨rfl, rfl, hhash.symm, .inr (.inr (by decide +kernel +revert))⟩
  coins := by
    intro txid nHeight coins h hcoins
    obtain ⟨rfl, rfl⟩ := toyStakeView_eq hcoins
    have hheight : (toySite fTxIndex).chain.coinsHeight (toyStaked.getHash toyCrypto.toHashes) =
        some 1 := by
      cases fTxIndex <;> decide +kernel
    exact Option.some.inj (h.symm.trans hheight)
  indexed := by
    intro _ txid header tx coins hlookup hcoins
    obtain ⟨rfl, rfl⟩ := toyStakeView_eq hcoins
    obtain ⟨rfl, rfl⟩ : toyStakedHeader = header ∧ toyStaked = tx := by
      have hentry := lookup_singleton_eq.symm.trans hlookup
      simpa using hentry
    decide +kernel +revert

end Jumpcoin
