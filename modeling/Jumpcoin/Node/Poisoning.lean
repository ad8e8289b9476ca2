import Jumpcoin.Node.Activation
import Jumpcoin.Node.Marks
import Jumpcoin.Validation.Reports

/-!
# Altered copies of a block

A block is known by the hash of its header, and the header commits to the transactions but not to
the block signature. When `AcceptBlock` marks the entry of a block as failed, no other block with
that header will be looked at again; so it should do this only if all of them would be refused.

Here the checks of a received block are sorted by what they read. The size limit and the signature
check read the signature, which whoever relays a block can alter; all others see only the header and
the transactions (`checkUnsigned`). Of the latter, the proof of work is checked before the merkle
root, while the transactions may still be anyone's.
-/

namespace Jumpcoin

open Check CValidationState NodeCheck

/-! ## What the checks read -/

/-- The checks of a received block that do not read its signature. -/
def checkUnsigned (config : Config) (chain : ChainState) (block : CBlock)
    (pprev : List CBlockIndex) : Validate Unit := do
  checkBlockHeader config.hashes config.params block.toCBlockHeader block.isProofOfWork
  checkBlockMerkleRoot config.hashes block true
  checkBlockShape config.params chain.height block
  checkBlockTransactions config.crypto block.getBlockTime block.vtx
  checkBlockSigOps block.vtx
  contextualCheckBlock config.params block pprev

variable {config : Config} {chain : ChainState} {pprev : List CBlockIndex} {block : CBlock}

section

variable (config : Config) (chain : ChainState) (block : CBlock) (pprev : List CBlockIndex)

def Rejected : Prop :=
  Fails (checkReceivedBlock config chain block pprev) .init

def UnsignedFault : Prop :=
  Fails (checkUnsigned config chain block pprev) .init

end

/-- A block is refused for what the signature has no part in, for its size, or for its signature. -/
lemma rejected_iff (hchecked : block.fChecked = false) :
    Rejected config chain block pprev ↔ UnsignedFault config chain block pprev ∨
      blockSizeOk block = false ∨ checkBlockSignature config.crypto block = false := by
  simp only [Rejected, UnsignedFault, checkReceivedBlock, checkUnsigned, checkBlock, hchecked,
    checkBlockSize, checkBlockSigOps, Bool.false_eq_true, if_false, bind_assoc, pure_bind,
    Bool.true_and, Bool.not_true, Bool.false_or]
  rw [fails_bind (checkBlockHeader_decides _ _ _ _),
    fails_bind (checkBlockMerkleRoot_decides _ _ _), fails_bind .ensure,
    fails_bind (checkBlockShape_decides _ _ _), fails_bind .ensure,
    fails_bind (checkBlockHeader_decides _ _ _ _), fails_bind (checkBlockMerkleRoot_decides _ _ _),
    fails_bind (checkBlockShape_decides _ _ _), fails_bind (checkBlockTransactions_decides _ _ _),
    fails_bind .ensure]
  simp only [fails_ensure]
  tauto

/-- The parts of `checkUnsigned` that a block passes if it is not refused there. -/
lemma unsignedFault_of_part
    (h : Fails (checkBlockHeader config.hashes config.params block.toCBlockHeader
        block.isProofOfWork) .init ∨
      Fails (checkBlockMerkleRoot config.hashes block true) .init ∨
      Fails (checkBlockShape config.params chain.height block) .init) :
    UnsignedFault config chain block pprev := by
  simp only [UnsignedFault, checkUnsigned]
  rw [fails_bind (checkBlockHeader_decides _ _ _ _),
    fails_bind (checkBlockMerkleRoot_decides _ _ _), fails_bind (checkBlockShape_decides _ _ _)]
  tauto

/-! ## Bodies of a header -/

def ObsoleteVersion (config : Config) (header : CBlockHeader) : Prop :=
  (decide (header.nVersion < 7) && config.params.isProtocolV2 header.getBlockTime) = true

lemma unsignedFault_of_obsolete (h : ObsoleteVersion config block.toCBlockHeader) :
    UnsignedFault config chain block pprev := by
  refine unsignedFault_of_part (.inl ?_)
  unfold checkBlockHeader
  rw [fails_bind .ensure, fails_ensure]
  exact .inl (by simpa [ObsoleteVersion] using h)

lemma unsignedFault_of_not_committed (h : ¬Committed config.hashes block) :
    UnsignedFault config chain block pprev := by
  refine unsignedFault_of_part (.inr (.inl ?_))
  simp only [checkBlockMerkleRoot, if_true]
  rw [fails_bind .ensure, fails_ensure, fails_ensure]
  by_contra hboth
  simp only [not_or, Bool.not_eq_false, beq_iff_eq, Bool.not_eq_true'] at hboth
  exact h (Prod.ext hboth.1.symm hboth.2)

/-- A block that is not refused there starts with a coinbase. -/
lemma exists_coinBase (h : ¬UnsignedFault config chain block pprev) :
    ∃ coinBase rest, block.vtx = coinBase :: rest ∧ coinBase.isCoinBase = true := by
  have hshape : ¬Fails (checkBlockShape config.params chain.height block) .init :=
    fun hfails => h (unsignedFault_of_part (.inr (.inr hfails)))
  unfold checkBlockShape at hshape
  cases hvtx : block.vtx with
  | nil =>
    rw [hvtx] at hshape
    exact absurd (fails_refuse _ _) hshape
  | cons coinBase rest =>
    rw [hvtx] at hshape
    refine ⟨coinBase, rest, rfl, ?_⟩
    by_contra hcb
    exact hshape ((fails_bind .ensure).mpr (.inl (fails_ensure.mpr (by simpa using hcb))))

/-- A block with the header of another one, as it can arrive: any transactions that the format
allows, unless they collide with those of the first under the hash, and any signature. -/
structure Rival (hashes : Hashes) (block block' : CBlock) : Prop where
  header : block'.toCBlockHeader = block.toCBlockHeader
  unchecked : block'.fChecked = false
  wire : ∀ tx ∈ block.vtx, tx.WireForm
  wire' : ∀ tx ∈ block'.vtx, tx.WireForm
  collisionFree : CollisionFree hashes (merkleInputs hashes block.vtx)
    (merkleInputs hashes block'.vtx)

/-- The merkle tree of the block cannot be read in another way: it has a first transaction, which
has not the length of two hashes, and no two hashes in it spell out a coinbase. -/
structure Unambiguous (hashes : Hashes) (block : CBlock) : Prop where
  nonempty : block.vtx ≠ []
  head : ∀ tx ∈ block.vtx.head?, tx.getSerializeSize ≠ 64
  pairs : ∀ tx : CTransaction, tx.WireForm → tx.isCoinBase = true →
    tx.serialize ∉ merklePairs hashes block.vtx

/-- Bodies that are committed to by one header have the same transactions. -/
lemma Rival.vtx_eq {block' : CBlock} (h : Rival config.hashes block block')
    (hcommit : Committed config.hashes block) (hun : Unambiguous config.hashes block)
    (hok : ¬UnsignedFault config chain block' pprev) : block.vtx = block'.vtx := by
  obtain ⟨coinBase, rest, hvtx, hcb⟩ := exists_coinBase hok
  have hcommit' : Committed config.hashes block' := by
    by_contra hnot
    exact hok (unsignedFault_of_not_committed hnot)
  have hroot : block'.hashMerkleRoot = block.hashMerkleRoot :=
    congrArg CBlockHeader.hashMerkleRoot h.header
  refine vtx_eq_of_merkleRoot_eq hun.nonempty (by simp [hvtx]) h.wire h.wire' h.collisionFree ?_ ?_
    (congrArg Prod.snd hcommit) (congrArg Prod.snd hcommit') ?_
  · intro tx htx hmem
    obtain ⟨p, -, hp⟩ := List.mem_map.mp hmem
    exact hun.head tx htx (by rw [CTransaction.getSerializeSize, ← hp]; simp [writeUInt256])
  · intro tx htx
    obtain rfl : coinBase = tx := by simpa [hvtx] using htx
    exact hun.pairs coinBase (h.wire' _ (by simp [hvtx])) hcb
  · exact (congrArg Prod.fst hcommit).trans (hroot.symm.trans (congrArg Prod.fst hcommit').symm)

/-! ## Faults that no other copy repairs -/

/-- Some signature fits the header and the transactions, and leaves the block small enough. -/
def Signable (crypto : Crypto) (block : CBlock) : Prop :=
  ∃ vchBlockSig, blockSizeOk { block with vchBlockSig } = true ∧
    checkBlockSignature crypto { block with vchBlockSig } = true

/-- Every block with the header of the given one is refused in its place. -/
def PoisonProof (config : Config) (chain : ChainState) (block : CBlock)
    (pprev : List CBlockIndex) : Prop :=
  ∀ block', Rival config.hashes block block' → Rejected config chain block' pprev

lemma poisonProof_of_obsolete (h : ObsoleteVersion config block.toCBlockHeader) :
    PoisonProof config chain block pprev := by
  intro block' hrival
  rw [rejected_iff hrival.unchecked]
  refine .inl (unsignedFault_of_obsolete ?_)
  rw [hrival.header]
  exact h

/-- The block has a fault that is not in its signature, or no signature would do. -/
def LastingFault (config : Config) (chain : ChainState) (block : CBlock)
    (pprev : List CBlockIndex) : Prop :=
  UnsignedFault config chain block pprev ∨ ¬Signable config.crypto block

/-- All copies of a block that is committed to are refused if it has a lasting fault. -/
lemma LastingFault.poisonProof (hcommit : Committed config.hashes block)
    (hun : Unambiguous config.hashes block) (hfault : LastingFault config chain block pprev) :
    PoisonProof config chain block pprev := by
  intro block' hrival
  by_contra hnot
  rw [rejected_iff hrival.unchecked, not_or, not_or] at hnot
  obtain ⟨hok, hsize, hsig⟩ := hnot
  -- the other body has the same transactions, so that only the signature can be different
  have hvtx := hrival.vtx_eq hcommit hun hok
  have hblock : block' = { block with vchBlockSig := block'.vchBlockSig, fChecked := false } := by
    cases block'
    cases hrival.header
    cases hrival.unchecked
    cases hvtx
    rfl
  rw [hblock] at hok hsize hsig
  obtain hfault | hunsignable := hfault
  · exact hok hfault
  · exact hunsignable ⟨block'.vchBlockSig, eq_true_of_ne_false hsize, eq_true_of_ne_false hsig⟩

/-- Without a lasting fault, the block with another signature is not refused. -/
lemma PoisonProof.lastingFault (hproof : PoisonProof config chain block pprev)
    (hself : Rival config.hashes block { block with fChecked := false }) :
    LastingFault config chain block pprev := by
  by_contra hnot
  obtain ⟨hfault, hsignable⟩ := not_or.mp hnot
  obtain ⟨vchBlockSig, hsize, hsig⟩ := not_not.mp hsignable
  have hrival : Rival config.hashes block { block with vchBlockSig, fChecked := false } :=
    ⟨rfl, rfl, hself.wire, hself.wire, hself.collisionFree⟩
  obtain hfault' | hsize' | hsig' := (rejected_iff rfl).mp (hproof _ hrival)
  · exact hfault hfault'
  · exact ne_true_of_eq_false hsize' hsize
  · exact ne_true_of_eq_false hsig' hsig

def LacksWork (config : Config) (block : CBlock) : Prop :=
  block.isProofOfWork = true ∧
    checkProofOfWork config.params.powLimit (block.getPoWHash config.hashes) block.nBits = false

/-- A block that is not committed to is refused for its header, or the refusal blames the relay. -/
lemma obsolete_or_lacksWork (hchecked : block.fChecked = false)
    (hcommit : ¬Committed config.hashes block) {state' : CValidationState}
    (h : checkReceivedBlock config chain block pprev .init = (.refused, state'))
    (hblame : state'.corruptionPossible = false) :
    ObsoleteVersion config block.toCBlockHeader ∨ LacksWork config block := by
  simp only [checkReceivedBlock, checkBlock, hchecked, Bool.false_eq_true, if_false, bind_assoc,
    Bool.true_and] at h
  have hdecides : Decides (checkBlockHeader config.hashes config.params block.toCBlockHeader
      block.isProofOfWork) CValidationState.init := checkBlockHeader_decides _ _ _ _
  rcases hdecides with hfails | ⟨_, hheader⟩
  · unfold checkBlockHeader at hfails
    rw [fails_bind .ensure, fails_ensure, fails_ensure] at hfails
    rcases hfails with hversion | hwork
    · exact .inl (by simpa [ObsoleteVersion] using hversion)
    · exact .inr (by simpa [LacksWork] using hwork)
  · rw [bind_returned hheader] at h
    simp only [checkBlockMerkleRoot, if_true, bind_assoc] at h
    cases hroot : block.hashMerkleRoot == (blockMerkleRoot config.hashes block).1 with
    | false =>
      rw [hroot, ensure_false, refuse_bind] at h
      obtain rfl := (Prod.mk.inj h).2
      simp at hblame
    | true =>
      have hmutated : (blockMerkleRoot config.hashes block).2 = true := by
        by_contra hnot
        exact hcommit (Prod.ext (beq_iff_eq.mp hroot).symm (by simpa using hnot))
      rw [hroot, ensure_true, pure_bind, hmutated, Bool.not_true, ensure_false, refuse_bind] at h
      obtain rfl := (Prod.mk.inj h).2
      simp at hblame

/-! ## What `AcceptBlock` marks -/

variable {hash : Uint256} {m : BlockMap} {pindex : CBlockIndex}

section Headers

variable {header : CBlockHeader} {fProofOfStake : Bool} {pindex : CBlockIndex}
variable {chain' : ChainState} {state state' : CValidationState}

open ReportsInvalid in
lemma acceptBlockHeader_reports {c : Bool} :
    ReportsInvalid c (acceptBlockHeader config chain header fProofOfStake) := by
  have hcheckpoint : ∀ pindexPrev,
      ReportsInvalid c (checkAgainstCheckpoint config chain pindexPrev) := by
    intro pindexPrev
    refine .ite (.ite (.pure ()) ?_) (.pure ())
    cases getLastCheckpoint chain config.chainparams.checkpoints with
    | none => exact .pure ()
    | some pcheckpoint => exact ensure_doS
  have hcontext : ∀ path, ReportsInvalid c (contextualCheckBlockHeader config chain header path) :=
    fun path => .ite (.pure ()) (ensure_doS.bind fun _ => ensure_doS.bind fun _ =>
      ensure_doS.bind fun _ => ensure_doS.bind fun _ => (of_require _).bind fun _ =>
        ensure_markInvalid)
  have hnew : ReportsInvalid c (checkNewHeader config chain header fProofOfStake) := by
    refine (checkBlockHeader_reports _ _ _ _).bind fun _ => ?_
    cases chain.mapBlockIndex.lookup header.hashPrevBlock with
    | none => exact refuse_doSFull
    | some pindexPrev =>
      exact ensure_doS.bind fun _ => (hcheckpoint pindexPrev).bind fun _ => hcontext _
  refine .ite (.pure _) ?_
  cases chain.mapBlockIndex.lookup (header.getHash config.hashes) with
  | none => exact hnew.bind fun _ => .pure _
  | some pindex => exact ensure_markInvalid.bind fun _ => .pure _

/-- The entry that is found or made for a header, with its mark. -/
lemma addToBlockIndex_spec (hashes : Hashes) (header : CBlockHeader) (hkeyed : Keyed m) :
    (addToBlockIndex hashes m header).hashBlock = header.getHash hashes ∧
      (addToBlockIndex hashes m header).nStatus.failedValid =
        failedValidAt m (header.getHash hashes) := by
  cases hlookup : m.lookup (header.getHash hashes) with
  | some pindex =>
    simp only [addToBlockIndex, failedValidAt, hlookup]
    exact ⟨hkeyed _ _ hlookup, rfl⟩
  | none =>
    simp only [addToBlockIndex, failedValidAt, hlookup]
    generalize Finmap.lookup header.hashPrevBlock _ = pprev
    cases pprev <;> exact ⟨rfl, rfl⟩

/-- Acceptance of a header keeps the marks. -/
lemma acceptBlockHeader_failedValidAt (hkeyed : Keyed chain.mapBlockIndex)
    (h : acceptBlockHeader config chain header fProofOfStake state =
      (.returned (chain', pindex), state')) (hmark : failedValidAt chain.mapBlockIndex hash = false) :
    Keyed chain'.mapBlockIndex ∧ failedValidAt chain'.mapBlockIndex hash = false ∧
      pindex.hashBlock = header.getHash config.hashes ∧
      chain'.mapBlockIndex.lookup pindex.hashBlock = some pindex := by
  rcases acceptBlockHeader_returned h with ⟨-, heq⟩ | ⟨_, heq, -, hknown⟩ | ⟨-, heq, -⟩
  case inr.inl =>
    obtain ⟨rfl, rfl⟩ := Prod.mk.inj heq
    have hhash := hkeyed _ _ hknown
    exact ⟨hkeyed, hmark, hhash, hhash ▸ hknown⟩
  all_goals
    obtain ⟨rfl, rfl⟩ := Prod.mk.inj heq
    obtain ⟨hhash, hfailed⟩ := addToBlockIndex_spec config.hashes header hkeyed
    obtain ⟨proofOfStake, hstake⟩ :=
      markStake_status config.params (addToBlockIndex config.hashes chain.mapBlockIndex header)
    replace hhash := (congrArg CBlockIndex.hashBlock hstake).trans hhash
    replace hfailed := (congrArg (fun pindex => pindex.nStatus.failedValid) hstake).trans hfailed
    refine ⟨?_, ?_, hhash, ?_⟩
    · rw [← hhash]
      exact hkeyed.insert _
    · rw [failedValidAt_insert]
      split_ifs with hsame
      · rw [hfailed, ← hsame, hmark]
      · exact hmark
    · rw [hhash]
      exact Finmap.lookup_insert _

end Headers

def SetsFailedValid (config : Config) (env : Environment) (node : Node) (block : CBlock)
    (fRequested : Bool) : Prop :=
  failedValidAt node.mapBlockIndex (block.getHash config.hashes) = false ∧
    failedValidAt (acceptBlock config env block fRequested (node, .init)).2.1.mapBlockIndex
      (block.getHash config.hashes) = true

/-- `AcceptBlock` comes to the checks of a block: its header is accepted, and its data is wanted. -/
structure Receives (config : Config) (node : Node) (block : CBlock) (fRequested : Bool)
    (chain : ChainState) (pindex : CBlockIndex) : Prop where
  accepted : acceptBlockHeader config node.toChainState block.toCBlockHeader block.isProofOfStake
    .init = (.returned (chain, pindex), .init)
  wanted : ignoresBlock chain pindex fRequested = false

variable {env : Environment} {node : Node} {fRequested : Bool}

variable {s : Node × CValidationState}

/-- A mark is set where the checks refuse the block and do not blame the relay. -/
lemma StoreBlockEnds.failed {r : Outcome Unit × (Node × CValidationState)}
    (hends : StoreBlockEnds config env block pindex s r) (hkeyed : Keyed s.1.mapBlockIndex)
    (hlookup : s.1.mapBlockIndex.lookup pindex.hashBlock = some pindex)
    (h : failedValidAt s.1.mapBlockIndex hash = false)
    (hset : failedValidAt r.2.1.mapBlockIndex hash = true) :
    ∃ state', checkReceivedBlock config s.1.toChainState block (s.1.pathOfPrev pindex) s.2 =
      (.refused, state') ∧ state'.isInvalid = true ∧ state'.corruptionPossible = false := by
  have hunset : failedValidAt s.1.mapBlockIndex hash ≠ true := by simp [h]
  cases hends with
  | halted => exact absurd hset hunset
  | @refused state hcheck =>
    refine ⟨state, hcheck, ?_⟩
    by_contra hnot
    rw [markIfInvalid, if_neg (by simpa using hnot)] at hset
    exact hunset hset
  | powHeight => exact absurd hset hunset
  | diskFull => exact absurd hset hunset
  | @stored state =>
    have hsame := (stored_sameFlags env block state hkeyed hlookup).1
    exact absurd ((hsame.failedValidAt_eq hash).symm.trans hset) (by simp [h])

lemma SetsFailedValid.exists_receives (hkeyed : Keyed node.mapBlockIndex)
    (h : SetsFailedValid config env node block fRequested) :
    ∃ chain pindex, Receives config node block fRequested chain pindex ∧
      ∃ state', checkReceivedBlock config chain block (chain.pathOfPrev pindex) .init =
        (.refused, state') ∧ state'.isInvalid = true ∧ state'.corruptionPossible = false := by
  obtain ⟨hunset, hset⟩ := h
  have hends := acceptBlock_ends config env block fRequested (node, .init)
  generalize acceptBlock config env block fRequested (node, .init) = r at hset hends
  cases hends with
  | unaccepted =>
    rw [hunset] at hset
    cases hset
  | ignored haccept =>
    obtain ⟨-, hkept, -⟩ := acceptBlockHeader_failedValidAt hkeyed haccept hunset
    rw [hkept] at hset
    cases hset
  | @processed chain pindex state r haccept hignores hstore =>
    obtain ⟨hkeyed', hkept, -, hlookup⟩ := acceptBlockHeader_failedValidAt hkeyed haccept hunset
    obtain rfl := (acceptBlockHeader_reports (c := true) _ rfl).1 _ _ haccept
    exact ⟨chain, pindex, ⟨haccept, hignores⟩, hstore.failed hkeyed' hlookup hkept hset⟩

/-! ## Poisoning -/

/-- When `AcceptBlock` marks the entry of a block, every block with its header is refused in its
place if the version is obsolete, or if the block is committed to, its merkle tree cannot be read in
another way, and it has a lasting fault. For a block that is committed to, a lasting fault is also
necessary; and a block that is not committed to is marked for its header alone. -/
theorem marked_poisonProof (config : Config) (env : Environment) (node : Node) (block : CBlock)
    (fRequested : Bool) (hkeyed : Keyed node.mapBlockIndex)
    (hsets : SetsFailedValid config env node block fRequested) :
    ∃ chain pindex, Receives config node block fRequested chain pindex ∧
      ((ObsoleteVersion config block.toCBlockHeader ∨
          (Committed config.hashes block ∧ Unambiguous config.hashes block ∧
            LastingFault config chain block (chain.pathOfPrev pindex))) →
        PoisonProof config chain block (chain.pathOfPrev pindex)) ∧
      (Rival config.hashes block { block with fChecked := false } →
        PoisonProof config chain block (chain.pathOfPrev pindex) →
        LastingFault config chain block (chain.pathOfPrev pindex)) ∧
      (block.fChecked = false → ¬Committed config.hashes block →
        ObsoleteVersion config block.toCBlockHeader ∨ LacksWork config block) := by
  obtain ⟨chain, pindex, hreceives, state', hrefused, -, hblame⟩ := hsets.exists_receives hkeyed
  refine ⟨chain, pindex, hreceives, ?_, fun hself hproof => hproof.lastingFault hself, ?_⟩
  · rintro (hobsolete | ⟨hcommit, hun, hfault⟩)
    · exact poisonProof_of_obsolete hobsolete
    · exact hfault.poisonProof hcommit hun
  · exact fun hchecked hcommit => obsolete_or_lacksWork hchecked hcommit hrefused hblame

def toyWrongHeight : CBlock :=
  { toyBlock [toyCoinBase] with hashPrevBlock := 112 }

theorem toyWrongHeight_poisonProof :
    SetsFailedValid toyStakeConfig toyEnvironment toyStakeNode toyWrongHeight true ∧
      ∃ chain pindex, Receives toyStakeConfig toyStakeNode toyWrongHeight true chain pindex ∧
        PoisonProof toyStakeConfig chain toyWrongHeight (chain.pathOfPrev pindex) := by
  have hsets : SetsFailedValid toyStakeConfig toyEnvironment toyStakeNode toyWrongHeight true := by
    unfold SetsFailedValid
    decide +kernel
  obtain ⟨chain, pindex, hreceives, hproof, -⟩ := marked_poisonProof toyStakeConfig
    toyEnvironment toyStakeNode toyWrongHeight true (keyed_foldr toyStakePath) hsets
  refine ⟨hsets, chain, pindex, hreceives, hproof (.inr ⟨?_, ⟨?_, ?_, ?_⟩, .inl ?_⟩)⟩
  · unfold Committed
    decide +kernel
  · decide +kernel
  · decide +kernel
  · intro tx _ _
    have hnone : merklePairs toyStakeConfig.hashes toyWrongHeight.vtx = [] := by decide +kernel
    simp [hnone]
  · have hfails : (acceptBlockHeader toyStakeConfig toyStakeNode.toChainState
        toyWrongHeight.toCBlockHeader toyWrongHeight.isProofOfStake .init).1.returns (fun r =>
          (checkUnsigned toyStakeConfig r.1 toyWrongHeight (r.1.pathOfPrev r.2) .init).1 =
            .refused) = true := by
      decide +kernel
    rw [hreceives.accepted, Outcome.returns] at hfails
    exact ⟨_, eq_refused (of_decide_eq_true hfails)⟩

/-- Taking the signature off a proof-of-stake block is enough to poison its hash: the entry is
marked, although the block itself passes the checks, and the block is then refused as well. -/
theorem toyStakeBlock_poisoned : let altered := { toyStakeBlock 1000 with vchBlockSig := [] }
    let after := (acceptBlock toyStakeConfig toyEnvironment altered true (toyStakeNode, .init)).2.1
    SetsFailedValid toyStakeConfig toyEnvironment toyStakeNode altered true ∧
      Rival toyStakeConfig.hashes altered (toyStakeBlock 1000) ∧
      (∀ chain pindex, Receives toyStakeConfig toyStakeNode altered true chain pindex →
        ¬Rejected toyStakeConfig chain (toyStakeBlock 1000) (chain.pathOfPrev pindex)) ∧
      (acceptBlock toyStakeConfig toyEnvironment (toyStakeBlock 1000) true (after, .init)).1 =
        .refused ∧
      (acceptBlock toyStakeConfig toyEnvironment (toyStakeBlock 1000) true
        (toyStakeNode, .init)).1 = .returned () := by
  intro altered after
  refine ⟨?_, ⟨rfl, rfl, by decide +kernel, by decide +kernel, ?_⟩, ?_, by decide +kernel,
    by decide +kernel⟩
  · unfold SetsFailedValid
    decide +kernel
  · unfold CollisionFree
    decide +kernel
  · intro chain pindex hreceives hrejected
    have hpasses : (acceptBlockHeader toyStakeConfig toyStakeNode.toChainState
        altered.toCBlockHeader altered.isProofOfStake .init).1.returns (fun r =>
          (checkReceivedBlock toyStakeConfig r.1 (toyStakeBlock 1000) (r.1.pathOfPrev r.2)
            .init).1 = .returned ()) = true := by
      decide +kernel
    rw [hreceives.accepted, Outcome.returns] at hpasses
    obtain ⟨state', hrefused⟩ := hrejected
    have hreturned := of_decide_eq_true hpasses
    rw [congrArg Prod.fst hrefused] at hreturned
    cases hreturned

end Jumpcoin
