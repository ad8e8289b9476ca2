import Jumpcoin.Node.Activation

/-!
# Invalidating and reconsidering blocks

`InvalidateBlock` and `ResetBlockFailureFlags` of `main.cpp`, which the calls `invalidateblock` and
`reconsiderblock` use. The source goes through the entries of the block index in the order of a
hash map; here they are taken in the order of their hashes.
-/

namespace Jumpcoin

open Check CValidationState NodeCheck

variable (config : Config) (env : Environment)

/-! ## Invalidating -/

/-- The loop of `InvalidateBlock`: blocks are disconnected until the entry is off the active
chain. -/
def invalidateLoop (pindex : CBlockIndex) : Nat → NodeCheck Unit
  | 0 => pure ()
  | blocks + 1 => do
    let node ← readNode
    if node.contains pindex then do
      let pindexWalk ← require node.tip
      modifyNode fun node =>
        (node.markFailedChild pindexWalk.hashBlock).eraseCandidate pindexWalk.hashBlock
      onRefused (disconnectTip config env) fun s =>
        ({ s.1 with mempool := env.removeForReorg s.1.mempool }, s.2)
      invalidateLoop pindex blocks
    else pure ()

def Node.restoreCandidates (node : Node) (tip : CBlockIndex) : Node :=
  node.mapBlockIndex.hashes.foldl (fun node' hash =>
    if (node.mapBlockIndex.lookup hash).any fun pindex =>
        pindex.nStatus.isValid BLOCK_VALID_TRANSACTIONS && pindex.nChainTx != 0 &&
          !workLess pindex tip
    then node'.insertCandidate hash else node') node

def invalidateBlock (pindex : CBlockIndex) : NodeCheck Unit := do
  modifyNode fun node => (node.markFailedValid pindex.hashBlock).eraseCandidate pindex.hashBlock
  let node ← readNode
  invalidateLoop config env pindex node.chainActive.length
  let node ← readNode
  let tip ← require node.tip
  modifyNode fun node =>
    let node' := node.restoreCandidates tip
    { node' with mempool := env.removeForReorg node'.mempool }

/-! ## Reconsidering -/

def BlockStatus.cleared (status : BlockStatus) : BlockStatus :=
  { status with failedValid := false, failedChild := false }

def Node.clearFailure (node : Node) (hash : Uint256) : Node :=
  node.setStatus hash BlockStatus.cleared

/-- The first loop of `ResetBlockFailureFlags` for one entry: a descendant of the block has its
flags removed. -/
def resetDescendant (pindex : CBlockIndex) (hash : Uint256) : NodeCheck Unit := do
  let node ← readNode
  match node.mapBlockIndex.lookup hash with
  | none => pure ()
  | some pindexWalk =>
    if !pindexWalk.nStatus.isValid BLOCK_VALID_TRANSACTIONS &&
        (getAncestor (pathOf node.mapBlockIndex pindexWalk) pindex.nHeight).map
          CBlockIndex.hashBlock == some pindex.hashBlock then do
      modifyNode fun node => node.clearFailure hash
      if pindexWalk.nStatus.cleared.isValid BLOCK_VALID_TRANSACTIONS && pindexWalk.nChainTx != 0
      then do
        let tip ← require node.tip
        modifyNode fun node => if workLess tip pindexWalk then node.insertCandidate hash else node
      else pure ()
    else pure ()

/-- The second loop of `ResetBlockFailureFlags`: the flags of the block and its ancestors are
removed. -/
def Node.resetAncestors (node : Node) (hash : Uint256) : Node :=
  match node.mapBlockIndex.lookup hash with
  | none => node
  | some pindex =>
    (pathOf node.mapBlockIndex pindex).foldl (fun node pindexWalk =>
      if pindexWalk.nStatus.failed then node.clearFailure pindexWalk.hashBlock else node) node

def resetBlockFailureFlags (pindex : CBlockIndex) : NodeCheck Unit := do
  let node ← readNode
  node.mapBlockIndex.hashes.forM (resetDescendant pindex)
  modifyNode fun node => node.resetAncestors pindex.hashBlock

end Jumpcoin
