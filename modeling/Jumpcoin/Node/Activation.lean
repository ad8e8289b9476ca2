import Jumpcoin.Coins.Disconnect
import Jumpcoin.Node.AcceptBlock

/-!
# Activating the best chain

`ActivateBestChain` of `main.cpp` and what it calls: the tip is connected and disconnected, the best
candidate is found, and the active chain is switched to it step by step.

A call of `ActivateBestChain` is a loop. Each pass finds the best candidate, unless one is left
from the pass before, and makes some progress towards it (`ActivateBestChainStep`): blocks that are
not ancestors of the candidate are disconnected, then blocks on the way to it are connected until
the work exceeds that of the old tip, or a block turns out to be invalid.
-/

namespace Jumpcoin

open Check CValidationState NodeCheck

variable (config : Config) (env : Environment)

/-! ## Tips -/

def invalidBlockFound (hash : Uint256) (s : Node × CValidationState) : Node × CValidationState :=
  if s.2.isInvalid && !s.2.corruptionPossible then
    ((s.1.markFailedValid hash).eraseCandidate hash, s.2)
  else s

/-- The records of a disconnected block's transactions are cleared, and have no height then. -/
def Node.withDisconnected (hashes : Hashes) (node : Node) (block : CBlock)
    (view : CCoinsViewCache) : Node :=
  { node with
    pcoinsTip := view
    prunedCoins := (block.vtx.map fun tx => (tx.getHash hashes, 0)) ++ node.prunedCoins }

def Node.withoutTip (node : Node) (block : CBlock) : Node :=
  { node with
    chainActive := node.chainActive.tail
    prunedCoins := node.prunedCoins.filter (env.unflushed node.chainActive.tail)
    mempool := env.resurrect node.mempool block.vtx }

def disconnectTip : NodeCheck Unit := do
  let node ← readNode
  let pindexDelete ← require node.tip
  let block ← obtainOr (readBlockFromDisk config node.toChainState pindexDelete)
    (markError "Failed to read block")
  let view ← validate (disconnectBlock config.hashes config.keys block pindexDelete.hashBlock
    (pindexDelete.pprev.getD 0) pindexDelete.nHeight
    (if pindexDelete.nStatus.haveUndo then node.undoFiles.lookup pindexDelete.hashBlock else none)
    node.pcoinsTip)
  modifyNode fun node => node.withDisconnected config.hashes block view
  expect (env.flushStateToDisk pindexDelete.hashBlock)
    (markError "Failed to write to coin database")
  modifyNode fun node => node.withoutTip env block

/-- The records that connecting a block writes, with their heights: those of its transactions and of
the outputs that it spends. -/
def ChainState.writtenCoins (hashes : Hashes) (chain : ChainState) (block : CBlock)
    (nHeight : Nat) : List (Uint256 × Int32) :=
  block.vtx.flatMap fun tx => (tx.getHash hashes, Int32.ofNat nHeight) ::
    tx.vin.filterMap fun txin => (chain.pcoinsTip.accessCoins txin.prevout.hash).map fun coins =>
      (txin.prevout.hash, coins.nHeight)

def Node.withConnected (node : Node) (block : CBlock) (connected : Connected) : Node :=
  let node' := node.setIndex connected.pindex
  { node' with
    pcoinsTip := connected.view
    prunedCoins := node.writtenCoins config.hashes block connected.pindex.nHeight ++
      node.prunedCoins
    undoFiles := match connected.undoFile with
      | some bytes => node.undoFiles.insert connected.pindex.hashBlock bytes
      | none => node.undoFiles
    txIndex := if config.fTxIndex then
        block.vtx.foldl (fun m tx => m.insert (tx.getHash config.hashes) (block.toCBlockHeader, tx))
          node.txIndex
      else node.txIndex }

def Node.withTip (node : Node) (block : CBlock) (hash : Uint256) : Node :=
  { node with
    chainActive := hash :: node.chainActive
    prunedCoins := node.prunedCoins.filter (env.unflushed (hash :: node.chainActive))
    mempool := env.removeForBlock node.mempool block.vtx }

/-- `ConnectBlock` as `ConnectTip` calls it; a block that breaks a rule is marked. -/
def connectOrMark (block : CBlock) (pindexNew : CBlockIndex) : NodeCheck Connected := do
  let node ← readNode
  onRefused
    (validate (connectBlock config node.toChainState (env.connectDisk pindexNew.hashBlock) block
      pindexNew (node.pathOfPrev pindexNew) node.pcoinsTip false))
    (invalidBlockFound pindexNew.hashBlock)

def connectTip (hash : Uint256) (pblock : Option CBlock) : NodeCheck Unit := do
  let node ← readNode
  let pindexNew ← require (node.mapBlockIndex.lookup hash)
  demand (pindexNew.pprev == node.chainActive.head?)
  let block ← obtainOr
    (match pblock with
      | some block => some block
      | none => readBlockFromDisk config node.toChainState pindexNew)
    (markError "Failed to read block")
  let connected ← connectOrMark config env block pindexNew
  modifyNode fun node => node.withConnected config block connected
  expect (env.flushStateToDisk hash) (markError "Failed to write to coin database")
  modifyNode fun node => node.withTip env block hash

/-! ## The best candidate -/

namespace Node

def usable (pindex : CBlockIndex) : Bool :=
  !pindex.nStatus.failed && pindex.nStatus.haveData

def branch (node : Node) (pindex : CBlockIndex) : List CBlockIndex :=
  (pathOf node.mapBlockIndex pindex).takeWhile fun pindexTest => !node.contains pindexTest

/-- Remove an unusable chain from the candidates: the entry that cannot be used and those on top of
it, which fail with it or wait for its data. -/
def dropBranch (node : Node) (above : List CBlockIndex) (pindexTest : CBlockIndex) : Node :=
  (above.foldl (fun node pindexFailed =>
      (if pindexTest.nStatus.failed then node.markFailedChild pindexFailed.hashBlock
        else { node with mapBlocksUnlinked :=
          (pindexFailed.pprev.getD 0, pindexFailed.hashBlock) :: node.mapBlocksUnlinked
        }).eraseCandidate pindexFailed.hashBlock) node).eraseCandidate pindexTest.hashBlock

end Node

/-- `FindMostWorkChain`; every turn but the last one drops the best candidate, so there are no more
turns than candidates. -/
def findMostWorkLoop : Nat → NodeCheck (Option Uint256)
  | 0 => pure none
  | turns + 1 => do
    let node ← readNode
    match node.bestCandidate with
    | none => pure none
    | some pindexNew => do
      let branch := node.branch pindexNew
      let above := branch.takeWhile Node.usable
      demand ((branch.take (above.length + 1)).all fun pindexTest =>
        pindexTest.nChainTx != 0 || pindexTest.nHeight == 0)
      match branch.drop above.length with
      | [] => pure (some pindexNew.hashBlock)
      | pindexTest :: _ => do
        modifyNode fun node => node.dropBranch above pindexTest
        findMostWorkLoop turns

def findMostWorkChain : NodeCheck (Option Uint256) := do
  let node ← readNode
  findMostWorkLoop (node.candidates.length + 1)

/-- `PruneBlockIndexCandidates`: candidates that are worse than the tip are dropped. -/
def pruneBlockIndexCandidates : NodeCheck Unit := do
  let node ← readNode
  let tip ← require node.tip
  let kept := node.setBlockIndexCandidates.filter fun hash =>
    (node.mapBlockIndex.lookup hash).any fun pindex => !workLess pindex tip
  demand (!kept.isEmpty)
  modifyNode fun node => { node with setBlockIndexCandidates := kept }

/-! ## A switch -/

def disconnectTo (fork : Option Uint256) : Nat → NodeCheck Unit
  | 0 => pure ()
  | blocks + 1 => do
    let node ← readNode
    if node.chainActive.head? = none ∨ node.chainActive.head? = fork then pure ()
    else do
      disconnectTip config env
      disconnectTo fork blocks

/-- The first half of `ActivateBestChainStep`: disconnect active blocks which are no longer in the
best chain. -/
def disconnectPhase (pindexMostWork : CBlockIndex) : NodeCheck Unit := do
  let node ← readNode
  disconnectTo config env ((node.findFork pindexMostWork).map CBlockIndex.hashBlock)
    node.chainActive.length

/-- `ConnectTip` in the loop of `ActivateBestChainStep`: whether the block broke a rule. The state
is then wiped; any other failure is passed on. -/
def tryConnect (hash : Uint256) (pblock : Option CBlock) : NodeCheck Bool := fun s =>
  match connectTip config env hash pblock s with
  | (.returned _, s') => (.returned false, s')
  | (.refused, s') => if s'.2.isInvalid then (.returned true, (s'.1, .init)) else (.refused, s')
  | (.halted, s') => (.halted, s')

def Node.improves (node : Node) (pindexOldTip : Option CBlockIndex) : Bool :=
  match pindexOldTip, node.tip with
  | none, _ => true
  | some old, some tip => decide (old.nChainWork < tip.nChainWork)
  | some _, none => false

/-- The second half of `ActivateBestChainStep`: connect new blocks; the value says whether an
invalid one was found. The source goes through them in batches of 32 heights. -/
def connectPath (pindexOldTip : Option CBlockIndex) (pblock : Uint256 → Option CBlock) :
    List Uint256 → NodeCheck Bool
  | [] => pure false
  | hash :: rest => do
    let fInvalidFound ← tryConnect config env hash (pblock hash)
    if fInvalidFound then pure true
    else do
      pruneBlockIndexCandidates
      let node ← readNode
      if node.improves pindexOldTip then pure false
      else connectPath pindexOldTip pblock rest

/-- The blocks from a given height up to a candidate, the lowest first. -/
def Node.toConnect (node : Node) (nHeight : Int) (pindexMostWork : CBlockIndex) : List Uint256 :=
  ((pathOf node.mapBlockIndex pindexMostWork).takeWhile fun pindexIter =>
    decide ((pindexIter.nHeight : Int) ≠ nHeight)).reverse.map CBlockIndex.hashBlock

def activateBestChainStep (hashMostWork : Uint256) (pblock : Option CBlock) : NodeCheck Bool := do
  let node ← readNode
  let pindexMostWork ← require (node.mapBlockIndex.lookup hashMostWork)
  disconnectPhase config env pindexMostWork
  let forked ← readNode
  let nHeight : Int :=
    ((node.findFork pindexMostWork).map fun fork => (fork.nHeight : Int)).getD (-1)
  let fInvalidFound ← connectPath config env node.tip
    (fun hash => if hash = hashMostWork then pblock else none)
    (node.toConnect nHeight pindexMostWork)
  modifyNode fun node' =>
    if forked.chainActive.length < node.chainActive.length then
      { node' with mempool := env.removeForReorg node'.mempool }
    else node'
  pure fInvalidFound

/-! ## The loop -/

/-- How a pass of the loop of `ActivateBestChain` ends. -/
inductive Pass where
  /-- there was nothing to do -/
  | idle
  /-- the candidate is the tip -/
  | reached
  /-- another pass follows, towards the same candidate or a new one -/
  | again (pindexMostWork : Option Uint256)
  deriving DecidableEq, Repr

def selectCandidate (cached : Option Uint256) : NodeCheck (Option Uint256) :=
  match cached with
  | some hash => pure (some hash)
  | none => findMostWorkChain

def activatePass (cached : Option Uint256) (pblock : Option CBlock) : NodeCheck Pass := do
  let pindexMostWork ← selectCandidate cached
  let node ← readNode
  match pindexMostWork with
  | none => pure .idle
  | some hash =>
    if node.chainActive.head? = some hash then pure .idle
    else do
      let fInvalidFound ← activateBestChainStep config env hash
        (pblock.filter fun block => block.getHash config.hashes = hash)
      let node' ← readNode
      pure (if fInvalidFound then .again none
        else if node'.chainActive.head? = some hash then .reached
        else .again (some hash))

/-- `ActivateBestChain`, for at most so many passes; no value where they do not suffice. -/
def activateBestChainLoop (pblock : Option CBlock) : Nat → Option Uint256 → NodeCheck (Option Unit)
  | 0, _ => pure none
  | passes + 1, cached => do
    match ← activatePass config env cached pblock with
    | .idle => pure (some ())
    | .reached => do
      expect env.flushPeriodic (markError "Failed to write to coin database")
      pure (some ())
    | .again cached' => activateBestChainLoop pblock passes cached'

def activateBestChain (pblock : Option CBlock) (passes : Nat) : NodeCheck (Option Unit) :=
  activateBestChainLoop config env pblock passes none

end Jumpcoin
