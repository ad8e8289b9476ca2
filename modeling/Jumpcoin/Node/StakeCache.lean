import Jumpcoin.Coins.Standing
import Jumpcoin.Node.Reorganisation

/-!
# The stake cache

`CheckKernel` and `CacheKernel` of `pos.cpp`. The first looks up the coin to be staked, unless the
cache has its time and its value; the second puts them there. A staker keeps one cache for as long
as it runs, while blocks are connected and disconnected.

Neither the presence of the coin nor its maturity is checked again for a coin in the cache. The
result of `CheckKernel` is then the one it has without a cache for as long as the coin stays where
it was found, with enough blocks on top of it.

A coin whose transaction is all spent can be found, too, but only until the coins database is
flushed.
-/

namespace Jumpcoin

open Check CValidationState NodeCheck List Option

/-! ## The kernel and the cache -/

/-- What is kept of a coin. -/
structure CStakeCache where
  blockFromTime : UInt32
  amount : CAmount
  deriving DecidableEq, Repr

abbrev StakeCache := Finmap fun _ : COutPoint => CStakeCache

variable (config : Config)

/-- The lookups that `CheckKernel` and `CacheKernel` share; the source does not check that the
output exists. -/
def findStake (chain : ChainState) (pindexPrev : CBlockIndex) (prevout : COutPoint) :
    Outcome CStakeCache :=
  match getTransaction config chain prevout.hash with
  | none => .refused
  | some (txPrev, hashBlock) =>
    match chain.mapBlockIndex.lookup hashBlock with
    | none => .refused
    | some pblockindex =>
      if (pindexPrev.nHeight : Int) + 1 - pblockindex.nHeight < config.params.nCoinbaseMaturity then
        .refused
      else
        match stakedValue txPrev prevout with
        | none => .halted
        | some amount =>
          .returned ⟨if txPrev.nTime = 0 then pblockindex.nTime else txPrev.nTime, amount⟩

def checkKernel (chain : ChainState) (pindexPrev : CBlockIndex) (nBits nTime : UInt32)
    (prevout : COutPoint) (cache : StakeCache) : Outcome Bool :=
  let check (stake : CStakeCache) : Bool :=
    checkStakeKernelHash config.hashes pindexPrev nBits stake.blockFromTime stake.amount prevout
      nTime
  match cache.lookup prevout with
  | some stake => .returned (check stake)
  | none =>
    match findStake config chain pindexPrev prevout with
    | .returned stake => .returned (check stake)
    | .refused => .returned false
    | .halted => .halted

def cacheKernel (chain : ChainState) (cache : StakeCache) (prevout : COutPoint)
    (pindexPrev : CBlockIndex) : Outcome StakeCache :=
  match cache.lookup prevout with
  | some _ => .returned cache
  | none =>
    match findStake config chain pindexPrev prevout with
    | .returned stake => .returned (cache.insert prevout stake)
    | .refused => .returned cache
    | .halted => .halted

/-! ## A staking node -/

structure Staker where
  node : Node
  cache : StakeCache

inductive StakerEvent where
  | connectTip (hash : Uint256) (pblock : Option CBlock)
  | disconnectTip
  | cacheKernel (prevout : COutPoint)
  /-- headers, blocks and transactions arrive, and blocks are marked -/
  | learn (node' : Node)

/-- An entry of the index with all that a lookup of a transaction reads in it. -/
structure KeepsEntry (pindex pindex' : CBlockIndex) : Prop extends SameEntry pindex pindex' where
  nTime : pindex'.nTime = pindex.nTime
  haveData : pindex.nStatus.haveData = true → pindex'.nStatus.haveData = true

def KeepsIndex (m m' : BlockMap) : Prop :=
  ∀ hash pindex, m.lookup hash = some pindex →
    ∃ pindex', m'.lookup hash = some pindex' ∧ KeepsEntry pindex pindex'

/-- What a node has learned between two changes of its chain. A transaction enters the pool only if
the chain does not have it. The coins database may be flushed at any time. -/
structure Learns (genesis : Uint256) (node node' : Node) : Prop where
  chainActive : node'.chainActive = node.chainActive
  pcoinsTip : node'.pcoinsTip = node.pcoinsTip
  txIndex : node'.txIndex = node.txIndex
  tree : BlockTree genesis node'.mapBlockIndex
  null : node'.mapBlockIndex.lookup 0 = none
  index : KeepsIndex node.mapBlockIndex node'.mapBlockIndex
  blockFiles : ∀ hash block, node.blockFiles.lookup hash = some block →
    node'.blockFiles.lookup hash = some block
  mempool : ∀ hash, node.mempool.lookup hash = none →
    (getTransaction config node.toChainState hash).isSome = true → node'.mempool.lookup hash = none

inductive StakerStep (env : Environment) (genesis : Uint256) : Staker → StakerEvent → Staker → Prop
  | connectTip {s : Staker} {hash : Uint256} {pblock : Option CBlock} {node' : Node}
      {state state' : CValidationState} :
      Jumpcoin.connectTip config env hash pblock (s.node, state) = (.returned (), (node', state')) →
      StakerStep env genesis s (.connectTip hash pblock) { s with node := node' }
  | disconnectTip {s : Staker} {node' : Node} {state state' : CValidationState} :
      Jumpcoin.disconnectTip config env (s.node, state) = (.returned (), (node', state')) →
      StakerStep env genesis s .disconnectTip { s with node := node' }
  | cacheKernel {s : Staker} {prevout : COutPoint} {tip : CBlockIndex} {cache' : StakeCache} :
      s.node.tip = some tip →
      Jumpcoin.cacheKernel config s.node.toChainState s.cache prevout tip = .returned cache' →
      StakerStep env genesis s (.cacheKernel prevout) { s with cache := cache' }
  | learn {s : Staker} {node' : Node} : Learns config genesis s.node node' →
      StakerStep env genesis s (.learn node') { s with node := node' }

/-- A run all of whose steps meet a condition. -/
inductive StakerRun (env : Environment) (genesis : Uint256) (ok : Staker → StakerEvent → Prop)
    (start : Staker) : Staker → Prop
  | start : StakerRun env genesis ok start start
  | step {s s' : Staker} {event : StakerEvent} : StakerRun env genesis ok start s →
      StakerStep config env genesis s event s' → ok s event → StakerRun env genesis ok start s'

/-- What the memory pool does when blocks are connected and disconnected: it gains only transactions
of a disconnected block. -/
structure Environment.PoolSound (env : Environment) (hashes : Hashes) : Prop where
  removeForBlock : ∀ mempool vtx hash, mempool.lookup hash = none →
    (env.removeForBlock mempool vtx).lookup hash = none
  resurrect : ∀ mempool vtx hash, mempool.lookup hash = none →
    (∀ tx ∈ vtx, tx.getHash hashes ≠ hash) → (env.resurrect mempool vtx).lookup hash = none

/-! ### Harmless steps -/

/-- A block leaves a transaction where it is: it does not have it, and it leaves an output of it
unspent. The index of transactions has no need of an output. -/
def Undisturbed (chain : ChainState) (block : CBlock) (txid : Uint256) : Prop :=
  (∀ tx ∈ block.vtx, tx.getHash config.hashes ≠ txid) ∧
    ((config.fTxIndex = true ∧ (chain.txIndex.lookup txid).isSome = true) ∨
      ∃ n nHeight, chain.pcoinsTip.Stands txid n nHeight ∧
        ∀ tx ∈ block.vtx, CCoinsViewCache.Spares config.hashes txid n tx)

/-- A transaction is found without a record that the next flush drops: the index has it, or it has
an unspent output. -/
def Traceable (chain : ChainState) (txid : Uint256) : Prop :=
  (config.fTxIndex = true ∧ (chain.txIndex.lookup txid).isSome = true) ∨
    (chain.pcoinsTip.accessCoins txid).isSome = true

/-- A step that leaves the coins in the cache where they are, and mature. -/
def Staker.Harmless (s : Staker) : StakerEvent → Prop
  | .connectTip hash pblock => ∀ pindexNew block,
      s.node.mapBlockIndex.lookup hash = some pindexNew →
      blockToConnect config s.node pindexNew pblock = some block →
      ∀ prevout ∈ s.cache, Undisturbed config s.node.toChainState block prevout.hash
  | .disconnectTip => ∀ pindexDelete block, s.node.tip = some pindexDelete →
      readBlockFromDisk config s.node.toChainState pindexDelete = some block →
      ∀ prevout ∈ s.cache, (∀ tx ∈ block.vtx, tx.getHash config.hashes ≠ prevout.hash) ∧
        ∀ txPrev hashBlock pblockindex,
          getTransaction config s.node.toChainState prevout.hash = some (txPrev, hashBlock) →
          s.node.mapBlockIndex.lookup hashBlock = some pblockindex →
          config.params.nCoinbaseMaturity < (pindexDelete.nHeight : Int) + 1 - pblockindex.nHeight
  | .cacheKernel prevout => Traceable config s.node.toChainState prevout.hash
  | .learn _ => True

/-! ## Lookups that are repeated

What is found in one state of a chain is found in another, if the other has kept what the lookup
reads. -/

section Lookup

variable {config} {chain chain' : ChainState} {txid hashBlock : Uint256} {tx : CTransaction}

lemma KeepsIndex.refl (m : BlockMap) : KeepsIndex m m :=
  fun _ pindex h => ⟨pindex, h, .refl pindex, rfl, id⟩

lemma getTransactionSlow_eq_some :
    getTransactionSlow config chain txid = some (tx, hashBlock) ↔
      ∃ nHeight pindexSlow block, chain.coinsHeight txid = some nHeight ∧ 0 < nHeight ∧
        chain.atHeight nHeight.toInt = some pindexSlow ∧
        readBlockFromDisk config chain pindexSlow = some block ∧
        block.vtx.find? (fun tx => tx.getHash config.hashes == txid) = some tx ∧
        pindexSlow.hashBlock = hashBlock := by
  unfold getTransactionSlow
  cases chain.coinsHeight txid with
  | none => simp
  | some nHeight =>
    by_cases hpos : 0 < nHeight
    · simp only [hpos, if_true, bind_eq_bind, bind_some, bind_eq_some_iff,
        some.injEq, Prod.mk.injEq]
      grind
    · grind

lemma readBlockFromDisk_mono {pindex pindex' : CBlockIndex} {block : CBlock}
    (hfiles : ∀ hash block, chain.blockFiles.lookup hash = some block →
      chain'.blockFiles.lookup hash = some block)
    (hkeeps : KeepsEntry pindex pindex') (h : readBlockFromDisk config chain pindex = some block) :
    readBlockFromDisk config chain' pindex' = some block := by
  unfold readBlockFromDisk at h ⊢
  cases hdata : pindex.nStatus.haveData with
  | false => simp [hdata] at h
  | true =>
    simp only [hdata, if_true, bind_eq_bind] at h
    obtain ⟨stored, hstored, h⟩ := bind_eq_some_iff.mp h
    have hstored' : chain'.blockFiles.lookup pindex'.hashBlock = some stored := by
      rw [hkeeps.hashBlock]
      exact hfiles _ _ hstored
    simp only [hkeeps.haveData hdata, if_true, hstored', bind_eq_bind, bind_some]
    rwa [hkeeps.hashBlock]

lemma atHeight_mono {nHeight : Int} {pindex : CBlockIndex}
    (hindex : KeepsIndex chain.mapBlockIndex chain'.mapBlockIndex)
    (hat : chain'.hashAt nHeight.toNat = chain.hashAt nHeight.toNat)
    (h : chain.atHeight nHeight = some pindex) :
    ∃ pindex', chain'.atHeight nHeight = some pindex' ∧ KeepsEntry pindex pindex' := by
  unfold ChainState.atHeight at h ⊢
  split_ifs at h ⊢ with hneg
  obtain ⟨hash, hhash, hlookup⟩ := bind_eq_some_iff.mp h
  obtain ⟨pindex', hlookup', hkeeps⟩ := hindex hash pindex hlookup
  exact ⟨pindex', bind_eq_some_iff.mpr ⟨hash, hat.trans hhash, hlookup'⟩, hkeeps⟩

lemma coinsHeight_of_accessCoins {coins : CCoins}
    (h : chain.pcoinsTip.accessCoins txid = some coins) :
    chain.coinsHeight txid = some coins.nHeight := by
  rw [ChainState.coinsHeight, h]

/-- The transaction is found through its unspent record again, if the record has its height and the
chain has the same block there. -/
lemma getTransactionSlow_mono (hindex : KeepsIndex chain.mapBlockIndex chain'.mapBlockIndex)
    (hfiles : ∀ hash block, chain.blockFiles.lookup hash = some block →
      chain'.blockFiles.lookup hash = some block)
    {coins : CCoins} (hcoins : chain.pcoinsTip.accessCoins txid = some coins)
    (hrecord : ∀ pindexSlow block, chain.atHeight coins.nHeight.toInt = some pindexSlow →
      readBlockFromDisk config chain pindexSlow = some block →
      (∃ tx ∈ block.vtx, tx.getHash config.hashes = txid) →
      (∃ coins', chain'.pcoinsTip.accessCoins txid = some coins' ∧ coins'.nHeight = coins.nHeight) ∧
        chain'.hashAt coins.nHeight.toInt.toNat = chain.hashAt coins.nHeight.toInt.toNat)
    (h : getTransactionSlow config chain txid = some (tx, hashBlock)) :
    getTransactionSlow config chain' txid = some (tx, hashBlock) := by
  obtain ⟨nHeight, pindexSlow, block, hheight, hpos, hat, hread, hfind, rfl⟩ :=
    getTransactionSlow_eq_some.mp h
  obtain rfl := some.inj ((coinsHeight_of_accessCoins hcoins).symm.trans hheight)
  have hmem : ∃ tx ∈ block.vtx, tx.getHash config.hashes = txid :=
    ⟨tx, mem_of_find?_eq_some hfind, by simpa using find?_some hfind⟩
  obtain ⟨⟨coins', hcoins', hsame⟩, hchain⟩ := hrecord pindexSlow block hat hread hmem
  obtain ⟨pindexSlow', hat', hkeeps⟩ := atHeight_mono hindex hchain hat
  exact getTransactionSlow_eq_some.mpr ⟨coins.nHeight, pindexSlow', block,
    hsame ▸ coinsHeight_of_accessCoins hcoins', hpos, hat',
    readBlockFromDisk_mono hfiles hkeeps hread, hfind, hkeeps.hashBlock⟩

lemma getTransaction_mono (hpool : chain.mempool.lookup txid = none)
    (hpool' : chain'.mempool.lookup txid = none)
    (htxIndex : chain'.txIndex.lookup txid = chain.txIndex.lookup txid)
    (hslow : ¬(config.fTxIndex = true ∧ (chain.txIndex.lookup txid).isSome = true) →
      getTransactionSlow config chain txid = some (tx, hashBlock) →
      getTransactionSlow config chain' txid = some (tx, hashBlock))
    (h : getTransaction config chain txid = some (tx, hashBlock)) :
    getTransaction config chain' txid = some (tx, hashBlock) := by
  unfold getTransaction at h ⊢
  rw [hpool] at h
  rw [hpool', htxIndex]
  cases hindex : (if config.fTxIndex then chain.txIndex.lookup txid else none) with
  | some found => simpa [hindex] using h
  | none =>
    have hmiss : ¬(config.fTxIndex = true ∧ (chain.txIndex.lookup txid).isSome = true) := by
      rintro ⟨hon, hsome⟩
      rw [if_pos hon] at hindex
      simp [hindex] at hsome
    simp only [hindex] at h ⊢
    exact hslow hmiss h

end Lookup

/-! ## Coins that are located -/

/-- The coin is found in the chain, mature for the next block, with the data of the cache. -/
def Located (chain : ChainState) (prevout : COutPoint) (stake : CStakeCache) : Prop :=
  ∃ txPrev hashBlock pblockindex,
    getTransaction config chain prevout.hash = some (txPrev, hashBlock) ∧
      chain.mapBlockIndex.lookup hashBlock = some pblockindex ∧
      config.params.nCoinbaseMaturity ≤ (chain.chainActive.length : Int) - pblockindex.nHeight ∧
      stakedValue txPrev prevout = some stake.amount ∧
      stake.blockFromTime = (if txPrev.nTime = 0 then pblockindex.nTime else txPrev.nTime)

section Located

variable {config} {genesis : Uint256} {chain chain' : ChainState} {node : Node} {tip : CBlockIndex}
variable {prevout : COutPoint} {stake : CStakeCache}

lemma Node.Treelike.nHeight_tip (hnode : node.Treelike genesis) (htip : node.tip = some tip) :
    tip.nHeight + 1 = node.chainActive.length := by
  obtain ⟨hash, hhead, hlookup⟩ := bind_eq_some_iff.mp htip
  obtain ⟨rest, hrest⟩ := head?_eq_some_iff.mp hhead
  have hactive := hnode.active
  rw [hrest] at hactive ⊢
  rw [length_cons, ← hactive.height_head hnode.tree, heightOf_of_lookup hlookup]

lemma findStake_eq_returned (hnode : node.Treelike genesis) (htip : node.tip = some tip) :
    findStake config node.toChainState tip prevout = .returned stake ↔
      Located config node.toChainState prevout stake := by
  have hheight := hnode.nHeight_tip htip
  unfold findStake Located
  rcases getTransaction config node.toChainState prevout.hash with _ | ⟨txPrev, hashBlock⟩
  · simp
  · rcases hlookup : node.mapBlockIndex.lookup hashBlock with _ | pblockindex
    · simp [hlookup]
    · rcases hvalue : stakedValue txPrev prevout with _ | amount
      · simp only [hlookup, hvalue]
        split_ifs <;> simp [hlookup, hvalue]
      · obtain ⟨blockFromTime, amount'⟩ := stake
        simp only [hlookup, hvalue]
        split_ifs <;> grind

/-- A coin that is found again in its block, with enough blocks on top of it, is still located. -/
lemma Located.mono (h : Located config chain prevout stake)
    (hfound : ∀ r, getTransaction config chain prevout.hash = some r →
      getTransaction config chain' prevout.hash = some r)
    (hindex : KeepsIndex chain.mapBlockIndex chain'.mapBlockIndex)
    (hdeep : ∀ txPrev hashBlock pblockindex,
      getTransaction config chain prevout.hash = some (txPrev, hashBlock) →
      chain.mapBlockIndex.lookup hashBlock = some pblockindex →
      config.params.nCoinbaseMaturity ≤ (chain.chainActive.length : Int) - pblockindex.nHeight →
      config.params.nCoinbaseMaturity ≤ (chain'.chainActive.length : Int) - pblockindex.nHeight) :
    Located config chain' prevout stake := by
  obtain ⟨txPrev, hashBlock, pblockindex, htx, hlookup, hmature, hvalue, htime⟩ := h
  obtain ⟨pblockindex', hlookup', hkeeps⟩ := hindex _ _ hlookup
  refine ⟨txPrev, hashBlock, pblockindex', hfound _ htx, hlookup', ?_, hvalue, ?_⟩
  · rw [hkeeps.nHeight]
    exact hdeep _ _ _ htx hlookup hmature
  · rw [htime, hkeeps.nTime]

/-- A located coin is not in the memory pool, where a transaction has no block. -/
lemma Located.unpooled (hnull : chain.mapBlockIndex.lookup 0 = none)
    (h : Located config chain prevout stake) : chain.mempool.lookup prevout.hash = none := by
  obtain ⟨txPrev, hashBlock, pblockindex, htx, hlookup, -⟩ := h
  by_contra hpool
  obtain ⟨tx, htx'⟩ := ne_none_iff_exists'.mp hpool
  simp only [getTransaction, htx', some.injEq, Prod.mk.injEq] at htx
  rw [← htx.2, hnull] at hlookup
  cases hlookup

end Located

/-! ## Steps -/

/-- A staker whose node is in order and whose cache holds located coins only, of transactions that
can be traced. -/
structure Staker.Sound (genesis : Uint256) (s : Staker) : Prop where
  node : s.node.Treelike genesis
  null : s.node.mapBlockIndex.lookup 0 = none
  coins : s.node.pcoinsTip.Unpruned
  located : ∀ prevout stake, s.cache.lookup prevout = some stake →
    Located config s.node.toChainState prevout stake ∧
      Traceable config s.node.toChainState prevout.hash

section Steps

variable {config} {env : Environment} {genesis : Uint256} {node node' : Node}
variable {state state' : CValidationState} {hash : Uint256} {block : CBlock}
variable {pindexNew : CBlockIndex} {prevout : COutPoint} {stake : CStakeCache} {chain : ChainState}
  {nHeight : Int}

lemma KeepsIndex.insert {m : BlockMap} {pindex pindex' : CBlockIndex}
    (hlookup : m.lookup hash = some pindex) (hkeeps : KeepsEntry pindex pindex') :
    KeepsIndex m (m.insert hash pindex') := by
  intro hash' found hfound
  by_cases heq : hash' = hash
  · subst heq
    obtain rfl := some.inj (hfound.symm.trans hlookup)
    exact ⟨pindex', Finmap.lookup_insert _, hkeeps⟩
  · exact ⟨found, (Finmap.lookup_insert_of_ne _ heq).trans hfound, .refl found, rfl, id⟩

lemma tipConnection_keepsIndex {connected : Connected} (hkeyed : Keyed node.mapBlockIndex)
    (hlookup : node.mapBlockIndex.lookup hash = some pindexNew)
    (h : tipConnection config env (node, state) block pindexNew = (.returned connected, state')) :
    KeepsIndex node.mapBlockIndex (node.withConnected config block connected).mapBlockIndex := by
  obtain rfl := hkeyed hash pindexNew hlookup
  change KeepsIndex _ (node.mapBlockIndex.insert connected.pindex.hashBlock connected.pindex)
  obtain ⟨-, heq⟩ | ⟨-, nStakeModifier, heq⟩ := connectBlock_pindex h <;> rw [heq]
  · exact .insert hlookup ⟨.refl _, rfl, id⟩
  · refine .insert hlookup ⟨⟨rfl, rfl, rfl, rfl, rfl⟩, rfl, fun hdata => ?_⟩
    unfold BlockStatus.raiseValidity
    split_ifs <;> exact hdata

/-- The index of transactions keeps the ones that a connected block does not have. -/
lemma txIndex_withConnected {connected : Connected} {txid : Uint256}
    (hnew : ∀ tx ∈ block.vtx, tx.getHash config.hashes ≠ txid) :
    (node.withConnected config block connected).txIndex.lookup txid = node.txIndex.lookup txid := by
  unfold Node.withConnected
  dsimp only
  split_ifs
  · generalize node.txIndex = m
    generalize block.vtx = vtx at hnew
    induction vtx generalizing m with
    | nil => rfl
    | cons tx vtx ih =>
      rw [forall_mem_cons] at hnew
      rw [foldl_cons, ih _ hnew.2, Finmap.lookup_insert_of_ne _ hnew.1.symm]
  · rfl

section Views

variable {P : CCoinsViewCache → Prop}

lemma ConnectRun.view {ctx : ConnectContext} {i : Nat} {vtx : List CTransaction}
    {s s' : ConnectLoop} (hrun : ConnectRun ctx i vtx s s')
    (hstep : ∀ tx ∈ vtx, ∀ nHeight view view' txundo,
      view.updateCoins ctx.config.hashes tx nHeight = some (txundo, view') → P view → P view')
    (h : P s.view) : P s'.view := by
  induction hrun with
  | nil => exact h
  | cons htx _ ih =>
    rw [forall_mem_cons] at hstep
    obtain ⟨txundo, hupdate, -⟩ := htx.update
    exact ih hstep.2 (hstep.1 _ _ _ _ hupdate h)

/-- A property of the records that every transaction of a block keeps holds in the view that
connecting the block leaves. -/
lemma tipConnection_view {connected : Connected}
    (hP : ∀ view view', view'.cacheCoins = view.cacheCoins → P view → P view')
    (hstep : ∀ tx ∈ block.vtx, ∀ nHeight view view' txundo,
      view.updateCoins config.hashes tx nHeight = some (txundo, view') → P view → P view')
    (h : tipConnection config env (node, state) block pindexNew = (.returned connected, state'))
    (hview : P node.pcoinsTip) : P connected.view := by
  obtain hsame | ⟨ctx, loop, rfl, hrun, hsame⟩ := connectBlock_run h
  · exact hP _ _ hsame hview
  · exact hP _ _ hsame (hrun.view hstep hview)

lemma CCoinsViewCache.Unpruned.of_cacheCoins_eq (view view' : CCoinsViewCache)
    (h : view'.cacheCoins = view.cacheCoins) (hview : view.Unpruned) : view'.Unpruned := by
  intro txid coins hcoins
  rw [accessCoins, h] at hcoins
  exact hview txid coins hcoins

lemma CCoinsViewCache.Stands.of_cacheCoins_eq {txid : Uint256} {n : Nat} {nHeight : Int32}
    (view view' : CCoinsViewCache) (h : view'.cacheCoins = view.cacheCoins)
    (hview : view.Stands txid n nHeight) : view'.Stands txid n nHeight := by
  obtain ⟨coins, hcoins, hrest⟩ := hview
  exact ⟨coins, by rwa [accessCoins, h], hrest⟩

end Views

lemma atHeight_lt {pindex : CBlockIndex}
    (h : chain.atHeight nHeight = some pindex) : nHeight.toNat < chain.chainActive.length := by
  unfold ChainState.atHeight at h
  split_ifs at h
  obtain ⟨hash, hhash, -⟩ := bind_eq_some_iff.mp h
  simpa using (List.getElem?_eq_some_iff.mp hhash).1

lemma getElem?_reverse_cons {l : List Uint256} (hash : Uint256) {i : Nat} (hlt : i < l.length) :
    (hash :: l).reverse[i]? = l.reverse[i]? := by
  rw [reverse_cons, getElem?_append_left (by simpa using hlt)]

/-- A coin in the cache is located after a harmless connection. -/
lemma Located.connected {connected : Connected} (henv : env.PoolSound config.hashes)
    (hkeyed : Keyed node.mapBlockIndex) (hnull : node.mapBlockIndex.lookup 0 = none)
    (hlookup : node.mapBlockIndex.lookup hash = some pindexNew)
    (h : tipConnection config env (node, state) block pindexNew = (.returned connected, state'))
    (hok : Undisturbed config node.toChainState block prevout.hash)
    (hloc : Located config node.toChainState prevout stake) :
    Located config ((node.withConnected config block connected).withTip env block hash).toChainState
        prevout stake ∧
      Traceable config
        ((node.withConnected config block connected).withTip env block hash).toChainState
        prevout.hash := by
  have hindex := tipConnection_keepsIndex hkeyed hlookup h
  have hpool := hloc.unpooled hnull
  obtain ⟨hnew, hstays⟩ := hok
  have htxIndex : (node.withConnected config block connected).txIndex.lookup prevout.hash =
      node.txIndex.lookup prevout.hash := txIndex_withConnected hnew
  have hstands : ¬(config.fTxIndex = true ∧ (node.txIndex.lookup prevout.hash).isSome = true) →
      ∃ coins coins', node.pcoinsTip.accessCoins prevout.hash = some coins ∧
        connected.view.accessCoins prevout.hash = some coins' ∧ coins'.nHeight = coins.nHeight := by
    intro hmiss
    obtain hindexed | ⟨n, nHeight, hstands, hspares⟩ := hstays
    · exact absurd hindexed hmiss
    · obtain ⟨coins', hcoins', hheight, -⟩ :=
        tipConnection_view CCoinsViewCache.Stands.of_cacheCoins_eq
          (fun tx hmem _ _ _ _ hupdate hview => hview.updateCoins (hspares tx hmem) hupdate)
          h hstands
      obtain ⟨coins, hcoins, rfl, -⟩ := hstands
      exact ⟨coins, coins', hcoins, hcoins', hheight⟩
  refine ⟨hloc.mono (fun r => ?_) hindex fun _ _ _ _ _ hmature => ?_, ?_⟩
  · refine getTransaction_mono hpool (henv.removeForBlock _ _ _ hpool) htxIndex fun hmiss => ?_
    obtain ⟨coins, coins', hcoins, hcoins', hheight⟩ := hstands hmiss
    refine getTransactionSlow_mono hindex (fun _ _ => id) hcoins fun pindexSlow _ hat _ _ => ?_
    have hlt : coins.nHeight.toInt.toNat < node.chainActive.length := atHeight_lt hat
    exact ⟨⟨coins', hcoins', hheight⟩, getElem?_reverse_cons hash hlt⟩
  · change _ ≤ ((hash :: node.chainActive).length : Int) - _
    rw [length_cons]
    omega
  · by_cases hmiss : config.fTxIndex = true ∧ (node.txIndex.lookup prevout.hash).isSome = true
    · exact .inl ⟨hmiss.1, htxIndex ▸ hmiss.2⟩
    · obtain ⟨_, _, -, hcoins', -⟩ := hstands hmiss
      exact .inr (isSome_of_eq_some hcoins')

lemma atHeight_below {rest : List Uint256} {tip pindex : CBlockIndex}
    (hactive : chain.chainActive = hash :: rest)
    (hlookup : chain.mapBlockIndex.lookup hash = some tip)
    (hat : chain.atHeight nHeight = some pindex) : pindex = tip ∨ nHeight.toNat < rest.length := by
  have hle := atHeight_lt hat
  rw [hactive, length_cons] at hle
  by_cases hlt : nHeight.toNat < rest.length
  · exact .inr hlt
  · have htop : nHeight.toNat = rest.reverse.length := by
      rw [length_reverse]
      omega
    unfold ChainState.atHeight at hat
    split_ifs at hat
    simp only [hactive, htop, reverse_cons, getElem?_concat_length, bind_some] at hat
    exact .inl (some.inj (hat.symm.trans hlookup))

/-- A coin in the cache is located after a harmless disconnection. -/
lemma Located.disconnected {blockUndo : CBlockUndo} {view view₁ : CCoinsViewCache}
    {pindexDelete : CBlockIndex} (henv : env.PoolSound config.hashes)
    (hnode : node.Treelike genesis) (hnull : node.mapBlockIndex.lookup 0 = none)
    (hunpruned : node.pcoinsTip.Unpruned) (htip : node.tip = some pindexDelete)
    (hread : readBlockFromDisk config node.toChainState pindexDelete = some block)
    (hundone : disconnectTransactions config.hashes pindexDelete.nHeight block blockUndo
      node.pcoinsTip = some view₁) (hview : view.cacheCoins = view₁.cacheCoins)
    (hnew : ∀ tx ∈ block.vtx, tx.getHash config.hashes ≠ prevout.hash)
    (hdeep : ∀ txPrev hashBlock pblockindex,
      getTransaction config node.toChainState prevout.hash = some (txPrev, hashBlock) →
      node.mapBlockIndex.lookup hashBlock = some pblockindex →
      config.params.nCoinbaseMaturity < (pindexDelete.nHeight : Int) + 1 - pblockindex.nHeight)
    (hloc : Located config node.toChainState prevout stake)
    (htrace : Traceable config node.toChainState prevout.hash) :
    Located config ((node.withDisconnected config.hashes block view).withoutTip env
        block).toChainState prevout stake ∧
      Traceable config ((node.withDisconnected config.hashes block view).withoutTip env
        block).toChainState prevout.hash := by
  have hpool := hloc.unpooled hnull
  have hstands : ∀ coins, node.pcoinsTip.accessCoins prevout.hash = some coins →
      ∃ coins', view.accessCoins prevout.hash = some coins' ∧ coins'.nHeight = coins.nHeight := by
    intro coins hcoins
    obtain ⟨n, hstands⟩ := hunpruned.stands hcoins
    obtain ⟨coins', hcoins', hsame, -⟩ :=
      CCoinsViewCache.Stands.of_cacheCoins_eq _ _ hview
        (hstands.disconnectTransactions hnew hundone)
    exact ⟨coins', hcoins', hsame⟩
  obtain ⟨hash, hhead, hlookup⟩ := bind_eq_some_iff.mp htip
  obtain ⟨rest, hrest⟩ := head?_eq_some_iff.mp hhead
  have hheight := hnode.nHeight_tip htip
  refine ⟨hloc.mono (fun r => ?_) (.refl _) fun txPrev hashBlock pblockindex htx hblock _ => ?_, ?_⟩
  · refine getTransaction_mono hpool (henv.resurrect _ _ _ hpool hnew) rfl fun hmiss => ?_
    obtain ⟨coins, hcoins⟩ := isSome_iff_exists.mp (htrace.resolve_left hmiss)
    refine getTransactionSlow_mono (.refl _) (fun _ _ => id) hcoins ?_
    intro pindexSlow stored hat hstored hhas
    refine ⟨hstands coins hcoins, ?_⟩
    have hlt : coins.nHeight.toInt.toNat < rest.length := by
      obtain rfl | hlt := atHeight_below hrest hlookup hat
      -- the block at the tip is the one taken back, which does not have the transaction
      · obtain rfl := some.inj (hstored.symm.trans hread)
        obtain ⟨tx, hmem, hhash⟩ := hhas
        exact absurd hhash (hnew tx hmem)
      · exact hlt
    have htail : ((node.withDisconnected config.hashes block view).withoutTip env
        block).chainActive = rest := by
      simp [Node.withoutTip, Node.withDisconnected, hrest]
    rw [ChainState.hashAt, ChainState.hashAt, htail, hrest, getElem?_reverse_cons hash hlt]
  · have hmore := hdeep txPrev hashBlock pblockindex htx hblock
    simp only [Node.withoutTip, Node.withDisconnected, hrest, tail_cons]
    rw [hrest, length_cons] at hheight
    omega
  · refine htrace.imp_right fun hsome => ?_
    obtain ⟨coins, hcoins⟩ := isSome_iff_exists.mp hsome
    obtain ⟨coins', hcoins', -⟩ := hstands coins hcoins
    exact isSome_of_eq_some hcoins'

/-! ## Runs -/

variable {s s' : Staker} {event : StakerEvent} {tip : CBlockIndex}

lemma mem_cache_of_lookup {cache : StakeCache}
    (h : cache.lookup prevout = some stake) : prevout ∈ cache :=
  Finmap.lookup_isSome.mp (by rw [h, isSome_some])

lemma cacheKernel_located {cache cache' : StakeCache}
    (hnode : node.Treelike genesis) (htip : node.tip = some tip)
    (hcache : ∀ prevout stake, cache.lookup prevout = some stake →
      Located config node.toChainState prevout stake ∧
        Traceable config node.toChainState prevout.hash)
    (hok : Traceable config node.toChainState prevout.hash)
    (h : cacheKernel config node.toChainState cache prevout tip = .returned cache') :
    ∀ prevout stake, cache'.lookup prevout = some stake →
      Located config node.toChainState prevout stake ∧
        Traceable config node.toChainState prevout.hash := by
  unfold cacheKernel at h
  cases hcached : cache.lookup prevout with
  | some stake =>
    simp only [hcached, Outcome.returned.injEq] at h
    rwa [← h]
  | none =>
    cases hfound : findStake config node.toChainState tip prevout with
    | returned stake =>
      simp only [hcached, hfound, Outcome.returned.injEq] at h
      subst h
      intro prevout' stake' hlookup
      rcases lookup_insert_cases hlookup with ⟨rfl, rfl⟩ | ⟨-, hlookup⟩
      · exact ⟨(findStake_eq_returned hnode htip).mp hfound, hok⟩
      · exact hcache prevout' stake' hlookup
    | refused =>
      simp only [hcached, hfound, Outcome.returned.injEq] at h
      rwa [← h]
    | halted => simp [hcached, hfound] at h

namespace Staker.Sound

lemma connectTip {pblock : Option CBlock} (henv : env.PoolSound config.hashes)
    (hs : s.Sound config genesis) (hok : s.Harmless config (.connectTip hash pblock))
    (h : connectTip config env hash pblock (s.node, state) = (.returned (), (node', state'))) :
    Sound config genesis { s with node := node' } := by
  have hends := connectTip_ends config env hash pblock (s.node, state)
  rw [h] at hends
  obtain ⟨pindexNew, block, connected, state₁, hlookup, -, hblock, hconnect, heq⟩ :=
    connectTip_returned h
  obtain ⟨rfl, rfl⟩ := Prod.mk.inj heq
  refine ⟨hends.treelike hs.node, (hends.sameIndex hs.node.tree.keyed).unknown 0 hs.null, ?_, ?_⟩
  · exact tipConnection_view CCoinsViewCache.Unpruned.of_cacheCoins_eq
      (fun _ _ _ _ _ _ => CCoinsViewCache.Unpruned.writeStable.updateCoins) hconnect hs.coins
  · intro prevout stake hcached
    exact (hs.located prevout stake hcached).1.connected henv hs.node.tree.keyed hs.null hlookup
      hconnect (hok pindexNew block hlookup hblock prevout (mem_cache_of_lookup hcached))

lemma disconnectTip (henv : env.PoolSound config.hashes) (hs : s.Sound config genesis)
    (hok : s.Harmless config .disconnectTip)
    (h : disconnectTip config env (s.node, state) = (.returned (), (node', state'))) :
    Sound config genesis { s with node := node' } := by
  have hends := disconnectTip_ends config env (s.node, state)
  rw [h] at hends
  obtain ⟨pindexDelete, block, blockUndo, view₁, view, htip, hread, hundone, hview, heq⟩ :=
    disconnectTip_returned h
  obtain ⟨rfl, rfl⟩ := Prod.mk.inj heq
  refine ⟨hends.treelike hs.node, hs.null, ?_, ?_⟩
  · exact .of_cacheCoins_eq _ _ hview
      (CCoinsViewCache.Unpruned.writeStable.disconnectTransactions hundone hs.coins)
  · intro prevout stake hcached
    obtain ⟨hnew, hdeep⟩ := hok pindexDelete block htip hread prevout (mem_cache_of_lookup hcached)
    obtain ⟨hloc, htrace⟩ := hs.located prevout stake hcached
    exact hloc.disconnected henv hs.node hs.null hs.coins htip hread hundone hview hnew hdeep htrace

lemma learn (hs : s.Sound config genesis) (h : Learns config genesis s.node node') :
    Sound config genesis { s with node := node' } := by
  have hactive : ActiveChain node'.mapBlockIndex node'.chainActive := by
    rw [h.chainActive]
    exact hs.node.active.mono fun hash pindex hlookup =>
      (h.index hash pindex hlookup).imp fun _ hkept => ⟨hkept.1, hkept.2.toSameEntry⟩
  have hcoins : node'.pcoinsTip.Unpruned := by
    rw [h.pcoinsTip]
    exact hs.coins
  refine ⟨⟨h.tree, hactive⟩, h.null, hcoins, fun prevout stake hcached => ?_⟩
  obtain ⟨hloc, htrace⟩ := hs.located prevout stake hcached
  have hpool := hloc.unpooled hs.null
  have hpool' : node'.mempool.lookup prevout.hash = none := by
    obtain ⟨_, _, _, htx, -⟩ := hloc
    exact h.mempool _ hpool (by rw [htx, isSome_some])
  have hchain : ∀ n, node'.hashAt n = s.node.hashAt n := by
    intro n
    rw [ChainState.hashAt, h.chainActive, ChainState.hashAt]
  refine ⟨hloc.mono (fun r => ?_) h.index fun _ _ _ _ _ hmature => ?_, ?_⟩
  · refine getTransaction_mono hpool hpool' (by rw [h.txIndex]) fun hmiss => ?_
    obtain ⟨coins, hcoins⟩ := isSome_iff_exists.mp (htrace.resolve_left hmiss)
    refine getTransactionSlow_mono h.index h.blockFiles hcoins fun _ _ _ _ _ => ?_
    exact ⟨⟨coins, by rwa [h.pcoinsTip], rfl⟩, hchain _⟩
  · rwa [h.chainActive]
  · rw [Traceable, h.txIndex, h.pcoinsTip]
    exact htrace

lemma step (henv : env.PoolSound config.hashes) (hs : s.Sound config genesis)
    (hstep : StakerStep config env genesis s event s') (hok : s.Harmless config event) :
    s'.Sound config genesis := by
  cases hstep with
  | connectTip h => exact hs.connectTip henv hok h
  | disconnectTip h => exact hs.disconnectTip henv hok h
  | cacheKernel htip h =>
    exact ⟨hs.node, hs.null, hs.coins, cacheKernel_located hs.node htip hs.located hok h⟩
  | learn h => exact hs.learn h

lemma run (henv : env.PoolSound config.hashes) (hs : s.Sound config genesis)
    (hrun : StakerRun config env genesis (Harmless config) s s') : s'.Sound config genesis := by
  induction hrun with
  | start => exact hs
  | step _ hstep hok ih => exact ih.step henv hstep hok

end Staker.Sound

end Steps

/-! ## A chain that gets shorter -/

def stakingConfig : Config :=
  { towerConfig with fTxIndex := true }

/-- A node with a chain of a given height; `toyStaked` is in the block at height 1. -/
def stakingNode (nHeight : Nat) : Node where
  mapBlockIndex := (List.range (nHeight + 1)).foldr
    (fun n m => m.insert (BitVec.ofNat 256 (100 + n)) (towerIndex n)) ∅
  chainActive := (List.range (nHeight + 1)).reverse.map fun n => BitVec.ofNat 256 (100 + n)
  pcoinsTip := ⟨∅, BitVec.ofNat 256 (100 + nHeight)⟩
  mempool := ∅
  blockFiles := Finmap.singleton (BitVec.ofNat 256 (100 + nHeight))
    (towerBlock nHeight (99 + nHeight) (100 + nHeight))
  txIndex := Finmap.singleton (toyStaked.getHash stakingConfig.hashes)
    ({ toyStakedHeader with nNonce := 101 }, toyStaked)
  adjustedTime := 1700001000
  undoFiles := Finmap.singleton (BitVec.ofNat 256 (100 + nHeight))
    (CBlockUndo.undoWriteToDisk stakingConfig.hashes stakingConfig.keys ⟨[]⟩
      (BitVec.ofNat 256 (99 + nHeight)))
  setBlockIndexCandidates := [BitVec.ofNat 256 (100 + nHeight)]
  mapBlocksUnlinked := []
  nBlockSequenceId := 1

def stakingCoin : COutPoint := ⟨toyStaked.getHash stakingConfig.hashes, 1⟩

def stakingCache : StakeCache := Finmap.singleton stakingCoin ⟨1700001000, 2000⟩

def stakingShorter (nHeight : Nat) : Node :=
  (disconnectTip stakingConfig toyEnvironment (stakingNode nHeight, .init)).2.1

lemma toyEnvironment_poolSound (hashes : Hashes) : toyEnvironment.PoolSound hashes :=
  ⟨fun _ _ _ h => h, fun _ _ _ h _ => h⟩

lemma stakingNode_unpruned (nHeight : Nat) : (stakingNode nHeight).pcoinsTip.Unpruned := by
  intro txid coins hcoins
  simp [CCoinsViewCache.accessCoins, stakingNode] at hcoins

/-- A coin that is put into the cache before the tip is disconnected, and a run that does so. -/
lemma stakingRun {nHeight : Nat} {tip : CBlockIndex} {ok : Staker → StakerEvent → Prop}
    (htip : (stakingNode nHeight).tip = some tip)
    (hcache : cacheKernel stakingConfig (stakingNode nHeight).toChainState ∅ stakingCoin tip =
      .returned stakingCache)
    (hdisconnect : (disconnectTip stakingConfig toyEnvironment (stakingNode nHeight, .init)).1 =
      .returned ()) (hok : ok ⟨stakingNode nHeight, ∅⟩ (.cacheKernel stakingCoin))
    (hok' : ok ⟨stakingNode nHeight, stakingCache⟩ .disconnectTip) :
    StakerRun stakingConfig toyEnvironment 100 ok ⟨stakingNode nHeight, ∅⟩
      ⟨stakingShorter nHeight, stakingCache⟩ := by
  have hend : disconnectTip stakingConfig toyEnvironment (stakingNode nHeight, .init) =
      (.returned (), (stakingShorter nHeight,
        (disconnectTip stakingConfig toyEnvironment (stakingNode nHeight, .init)).2.2)) := by
    rw [← hdisconnect]
    rfl
  exact .step (.step .start (.cacheKernel htip hcache) hok) (.disconnectTip hend) hok'

/-- With two confirmations to spare, disconnecting the tip is harmless. -/
lemma stakingNode_harmless :
    Staker.Harmless stakingConfig ⟨stakingNode 12, stakingCache⟩ .disconnectTip := by
  intro pindexDelete block htip hread prevout hmem
  obtain rfl : prevout = stakingCoin := by simpa [stakingCache] using hmem
  have htip' : (stakingNode 12).tip = some (towerIndex 12) := by decide +kernel
  obtain rfl := some.inj (htip'.symm.trans htip)
  have hnew : (readBlockFromDisk stakingConfig (stakingNode 12).toChainState (towerIndex 12)).all
      (fun block => block.vtx.all fun tx =>
        tx.getHash stakingConfig.hashes != stakingCoin.hash) = true := by
    decide +kernel
  have hfound : getTransaction stakingConfig (stakingNode 12).toChainState stakingCoin.hash =
      some (toyStaked, 101) := by
    decide +kernel
  have hblock : (stakingNode 12).mapBlockIndex.lookup 101 = some (towerIndex 1) := by
    decide +kernel
  refine ⟨by simpa [hread] using hnew, ?_⟩
  rintro txPrev hashBlock pblockindex htx hlookup
  obtain ⟨rfl, rfl⟩ := Prod.mk.inj (some.inj (hfound.symm.trans htx))
  obtain rfl := some.inj (hblock.symm.trans hlookup)
  decide

end Jumpcoin
