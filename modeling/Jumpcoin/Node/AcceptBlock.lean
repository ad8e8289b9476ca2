import Jumpcoin.Node.State

/-!
# Accepting blocks

`AcceptBlock` of `main.cpp`: the header is accepted, the block is checked and stored, and its entry
is linked to those of its predecessors. A block that fails the checks has its entry marked as
failed, unless the failure may be the fault of whoever relayed it.
-/

namespace Jumpcoin

open Check CValidationState NodeCheck

def MIN_BLOCKS_TO_KEEP : Nat := 500

/-! ## Linking -/

namespace Node

/-- One turn of the queue of `ReceivedBlockTransactions`: all predecessors of the block have their
data, so it becomes a candidate, and the successors that waited for it are next. -/
def linkBlock (node : Node) (hash : Uint256) : Node × List Uint256 :=
  match node.mapBlockIndex.lookup hash with
  | none => (node, [])
  | some pindex =>
    let nChainTxPrev :=
      ((pindex.pprev.bind node.mapBlockIndex.lookup).map CBlockIndex.nChainTx).getD 0
    let pindex := { pindex with
      nChainTx := nChainTxPrev + pindex.nTx
      nSequenceId := node.nBlockSequenceId }
    let linked := { node.setIndex pindex with nBlockSequenceId := node.nBlockSequenceId + 1 }
    let asGood := match node.tip with
      | none => true
      | some tip => !workLess pindex tip
    let waiting := linked.mapBlocksUnlinked.filter fun pair => pair.1 == hash
    ({ (if asGood then linked.insertCandidate hash else linked) with
        mapBlocksUnlinked := linked.mapBlocksUnlinked.filter fun pair => pair.1 != hash },
      waiting.map Prod.snd)

/-- The queue of `ReceivedBlockTransactions`; every block but the first comes from
`mapBlocksUnlinked`, which bounds the number of turns. -/
def linkQueue : Nat → Node → List Uint256 → Node
  | 0, node, _ => node
  | _, node, [] => node
  | fuel + 1, node, hash :: queue =>
    let (node', more) := node.linkBlock hash
    linkQueue fuel node' (queue ++ more)

def receivedIndex (pindex : CBlockIndex) (block : CBlock) : CBlockIndex :=
  { pindex with
    nTx := block.vtx.length
    nChainTx := 0
    nStatus := BlockStatus.raiseValidity
      { pindex.nStatus with
        haveData := true
        proofOfStake := pindex.nStatus.proofOfStake || block.isProofOfStake }
      BLOCK_VALID_TRANSACTIONS }

def receivedBlockTransactions (node : Node) (block : CBlock) (pindex : CBlockIndex) : Node :=
  let node' := node.setIndex (receivedIndex pindex block)
  match pindex.pprev.bind node.mapBlockIndex.lookup with
  | none => linkQueue (node'.mapBlocksUnlinked.length + 1) node' [pindex.hashBlock]
  | some pprev =>
    if pprev.nChainTx ≠ 0 then
      linkQueue (node'.mapBlocksUnlinked.length + 1) node' [pindex.hashBlock]
    else if pprev.nStatus.isValid BLOCK_VALID_TREE then
      { node' with
        mapBlocksUnlinked := (pprev.hashBlock, pindex.hashBlock) :: node'.mapBlocksUnlinked }
    else node'

end Node

/-! ## Checks -/

def checkReceivedBlock (config : Config) (chain : ChainState) (block : CBlock)
    (pprev : List CBlockIndex) : Validate Unit := do
  let _ ← checkBlock config.crypto config.params chain.height block true true true
  contextualCheckBlock config.params block pprev

/-- Whether `AcceptBlock` leaves a block alone: its data is there, or it was not asked for and is of
no use. -/
def ignoresBlock (chain : ChainState) (pindex : CBlockIndex) (fRequested : Bool) : Bool :=
  let fHasMoreWork := match chain.tip with
    | none => true
    | some tip => decide (tip.nChainWork < pindex.nChainWork)
  let fTooFarAhead := decide (chain.height + MIN_BLOCKS_TO_KEEP < (pindex.nHeight : Int))
  pindex.nStatus.haveData ||
    (!fRequested && (pindex.nTx != 0 || !fHasMoreWork || fTooFarAhead))

/-- What a failed check does to the entry of the block. -/
def markIfInvalid (hash : Uint256) (s : Node × CValidationState) : Node × CValidationState :=
  if s.2.isInvalid && !s.2.corruptionPossible then (s.1.markFailedValid hash, s.2) else s

/-- `WriteBlockToDisk`; a failure is noted in the state, and the source goes on. -/
def writeBlockToDisk (env : Environment) (hash : Uint256) (block : CBlock) : NodeCheck Unit :=
  fun s =>
    if env.writeBlockToDisk hash then
      (.returned (), ({ s.1 with blockFiles := s.1.blockFiles.insert hash block }, s.2))
    else (.returned (), (s.1, markError "Failed to write block" s.2))

/-- `AcceptBlock` for a block whose header was accepted and that is to be processed. -/
def storeBlock (config : Config) (env : Environment) (block : CBlock) (pindex : CBlockIndex) :
    NodeCheck Unit := do
  let node ← readNode
  onRefused
    (validate (checkReceivedBlock config node.toChainState block (node.pathOfPrev pindex)))
    (markIfInvalid pindex.hashBlock)
  expect (!(block.isProofOfWork && decide (config.params.nLastPOWBlock < (pindex.nHeight : Int))))
    (doS 100 REJECT_INVALID "bad-pow-height")
  expect (env.findBlockPos pindex.hashBlock) (markError "out of disk space")
  writeBlockToDisk env pindex.hashBlock block
  modifyNode fun node => node.receivedBlockTransactions block pindex

def acceptBlock (config : Config) (env : Environment) (block : CBlock) (fRequested : Bool) :
    NodeCheck Unit := do
  let node ← readNode
  let (chain, pindex) ← validate
    (acceptBlockHeader config node.toChainState block.toCBlockHeader block.isProofOfStake)
  modifyNode fun node => { node with toChainState := chain }
  if ignoresBlock chain pindex fRequested then pure ()
  else storeBlock config env block pindex

/-! ## How the calls end -/

variable {config : Config} {env : Environment} {block : CBlock}

inductive StoreBlockEnds (config : Config) (env : Environment) (block : CBlock)
    (pindex : CBlockIndex) (s : Node × CValidationState) :
    Outcome Unit × (Node × CValidationState) → Prop
  | halted {state : CValidationState} :
      checkReceivedBlock config s.1.toChainState block (s.1.pathOfPrev pindex) s.2 =
        (.halted, state) →
      StoreBlockEnds config env block pindex s (.halted, (s.1, state))
  | refused {state : CValidationState} :
      checkReceivedBlock config s.1.toChainState block (s.1.pathOfPrev pindex) s.2 =
        (.refused, state) →
      StoreBlockEnds config env block pindex s
        (.refused, markIfInvalid pindex.hashBlock (s.1, state))
  | powHeight {state : CValidationState} :
      checkReceivedBlock config s.1.toChainState block (s.1.pathOfPrev pindex) s.2 =
        (.returned (), state) →
      (block.isProofOfWork && decide (config.params.nLastPOWBlock < (pindex.nHeight : Int))) =
        true →
      StoreBlockEnds config env block pindex s
        (.refused, (s.1, doS 100 REJECT_INVALID "bad-pow-height" state))
  | diskFull {state : CValidationState} :
      env.findBlockPos pindex.hashBlock = false →
      StoreBlockEnds config env block pindex s
        (.refused, (s.1, markError "out of disk space" state))
  | stored {state : CValidationState} :
      checkReceivedBlock config s.1.toChainState block (s.1.pathOfPrev pindex) s.2 =
        (.returned (), state) →
      (block.isProofOfWork && decide (config.params.nLastPOWBlock < (pindex.nHeight : Int))) =
        false →
      env.findBlockPos pindex.hashBlock = true →
      StoreBlockEnds config env block pindex s
        (.returned (), ((writeBlockToDisk env pindex.hashBlock block (s.1, state)).2.1
          |>.receivedBlockTransactions block pindex,
          (writeBlockToDisk env pindex.hashBlock block (s.1, state)).2.2))

lemma storeBlock_ends (pindex : CBlockIndex) (s : Node × CValidationState) :
    StoreBlockEnds config env block pindex s (storeBlock config env block pindex s) := by
  unfold storeBlock
  rw [readNode_bind, bind_apply]
  simp only [onRefused, validate]
  rcases hcheck : checkReceivedBlock config s.1.toChainState block (s.1.pathOfPrev pindex) s.2 with
    ⟨_ | _ | _, state⟩
  · dsimp only
    cases hpow : block.isProofOfWork &&
      decide (config.params.nLastPOWBlock < (pindex.nHeight : Int)) with
    | true =>
      exact .powHeight hcheck hpow
    | false =>
      rw [Bool.not_false, expect_true, pure_bind]
      cases hpos : env.findBlockPos pindex.hashBlock with
      | false =>
        exact .diskFull hpos
      | true =>
        have hwrite : writeBlockToDisk env pindex.hashBlock block (s.1, state) =
            (.returned (), (writeBlockToDisk env pindex.hashBlock block (s.1, state)).2) := by
          unfold writeBlockToDisk
          split_ifs <;> rfl
        rw [expect_true, pure_bind, bind_returned hwrite]
        exact .stored hcheck hpow hpos
  · exact .refused hcheck
  · exact .halted hcheck

inductive AcceptBlockEnds (config : Config) (env : Environment) (block : CBlock) (fRequested : Bool)
    (s : Node × CValidationState) : Outcome Unit × (Node × CValidationState) → Prop
  | unaccepted {outcome : Outcome Unit} {state : CValidationState} : outcome ≠ .returned () →
      AcceptBlockEnds config env block fRequested s (outcome, (s.1, state))
  | ignored {chain : ChainState} {pindex : CBlockIndex} {state : CValidationState} :
      acceptBlockHeader config s.1.toChainState block.toCBlockHeader block.isProofOfStake s.2 =
        (.returned (chain, pindex), state) →
      ignoresBlock chain pindex fRequested = true →
      AcceptBlockEnds config env block fRequested s
        (.returned (), ({ s.1 with toChainState := chain }, state))
  | processed {chain : ChainState} {pindex : CBlockIndex} {state : CValidationState}
      {r : Outcome Unit × (Node × CValidationState)} :
      acceptBlockHeader config s.1.toChainState block.toCBlockHeader block.isProofOfStake s.2 =
        (.returned (chain, pindex), state) →
      ignoresBlock chain pindex fRequested = false →
      StoreBlockEnds config env block pindex ({ s.1 with toChainState := chain }, state) r →
      AcceptBlockEnds config env block fRequested s r

variable (config env block) in
lemma acceptBlock_ends (fRequested : Bool) (s : Node × CValidationState) :
    AcceptBlockEnds config env block fRequested s (acceptBlock config env block fRequested s) := by
  unfold acceptBlock
  rw [readNode_bind, validate_bind]
  rcases haccept : acceptBlockHeader config s.1.toChainState block.toCBlockHeader
    block.isProofOfStake s.2 with ⟨⟨chain, pindex⟩ | _ | _, state⟩
  · simp only [modifyNode_bind]
    cases hignores : ignoresBlock chain pindex fRequested with
    | true => exact .ignored haccept hignores
    | false => exact .processed haccept hignores (storeBlock_ends _ _)
  · exact .unaccepted (by simp)
  · exact .unaccepted (by simp)

end Jumpcoin
