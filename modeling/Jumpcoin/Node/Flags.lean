import Jumpcoin.Node.Invalidate
import Jumpcoin.Node.Places

/-!
# Failure flags

An entry is marked `BLOCK_FAILED_VALID` when its block breaks a rule or is invalidated, and
`BLOCK_FAILED_CHILD` when that happened to an ancestor. `CheckBlockIndex` asserts that every flag
is justified by an entry that is marked `BLOCK_FAILED_VALID`, the entry itself or an ancestor.

All that happens to a node keeps this, except for `ResetBlockFailureFlags`. It removes the flags of
all ancestors of a block, but only those of the descendants of the block itself: an entry that
branched off below the block keeps the flag it got for the sake of such an ancestor.
-/

namespace Jumpcoin

open Check CValidationState NodeCheck

/-- Every entry with a failure flag stands on an entry that is marked `BLOCK_FAILED_VALID`, or is
marked itself. -/
def Justified (m : BlockMap) : Prop :=
  ∀ hash, failedAt m hash = true →
    ∃ hashInvalid, Ancestor (parentHash m) hashInvalid hash ∧ failedValidAt m hashInvalid = true

/-- A node whose index is a tree with justified flags. -/
structure Node.FlagsSound (genesis : Uint256) (node : Node) : Prop
    extends node.Treelike genesis where
  justified : Justified node.mapBlockIndex

/-! ## Changes of single entries -/

section Entries

variable {m m' : BlockMap} {hash : Uint256} {pindex : CBlockIndex}

/-- Justified flags stay so if no mark `BLOCK_FAILED_VALID` is removed and every new flag is
justified. -/
lemma Justified.update (hjust : Justified m) (hsame : SameIndex m m')
    (hvalid : ∀ hash, failedValidAt m hash = true → failedValidAt m' hash = true)
    (hfailed : ∀ hash, failedAt m' hash = true → failedAt m hash = true ∨
      ∃ hashInvalid, Ancestor (parentHash m) hashInvalid hash ∧
        failedValidAt m' hashInvalid = true) : Justified m' := by
  intro hash hflag
  rw [hsame.parentHash_eq]
  rcases hfailed hash hflag with hold | hnew
  · obtain ⟨hashInvalid, hanc, hmarked⟩ := hjust hash hold
    exact ⟨hashInvalid, hanc, hvalid hashInvalid hmarked⟩
  · exact hnew

lemma Justified.sameFlags (hjust : Justified m) (hsame : SameFlags m m') : Justified m' := by
  refine hjust.update hsame.toSameIndex ?_ ?_
  · intro hash hmarked
    rwa [hsame.failedValidAt_eq]
  · intro hash hflag
    rw [hsame.failedAt_eq] at hflag
    exact .inl hflag

lemma Justified.insert (hjust : Justified m) (hunknown : m.lookup hash = none)
    (hclean : pindex.nStatus.failed = false) : Justified (m.insert hash pindex) := by
  intro hash' hflag
  rw [failedAt_insert] at hflag
  split_ifs at hflag with heq
  · rw [hclean] at hflag
    cases hflag
  · obtain ⟨hashInvalid, hanc, hmarked⟩ := hjust hash' hflag
    refine ⟨hashInvalid, hanc.mono fun _ _ => (Extends.insert pindex hunknown).parentHash, ?_⟩
    rw [failedValidAt_insert]
    split_ifs with heq'
    · rw [heq', failedValidAt, hunknown] at hmarked
      cases hmarked
    · exact hmarked

end Entries

/-! ## Changes of a node -/

namespace Node

variable {genesis hash : Uint256} {node node' : Node}

namespace FlagsSound

section

variable (hnode : node.FlagsSound genesis)
include hnode

lemma sameFlags (hsame : SameFlags node.mapBlockIndex node'.mapBlockIndex)
    (hactive : node'.chainActive = node.chainActive) : node'.FlagsSound genesis :=
  ⟨hnode.toTreelike.sameIndex hsame.toSameIndex hactive, hnode.justified.sameFlags hsame⟩

lemma of_eq (hindex : node'.mapBlockIndex = node.mapBlockIndex)
    (hactive : node'.chainActive = node.chainActive) : node'.FlagsSound genesis :=
  hnode.sameFlags (hindex ▸ .refl _) hactive

lemma markFailedValid (hash : Uint256) : (node.markFailedValid hash).FlagsSound genesis := by
  refine ⟨hnode.toTreelike.sameIndex (setStatus_sameIndex _ _ _) (setStatus_chainActive _ _ _),
    hnode.justified.update (setStatus_sameIndex _ _ _) (fun _ => failedValidAt_markFailedValid) ?_⟩
  intro hash' hflag
  rcases failedAt_markFailedValid hflag with hold | hmarked
  · exact .inl hold
  · exact .inr ⟨hash', .self, hmarked⟩

/-- The flag for an ancestor may be set where an ancestor is marked. -/
lemma markFailedChild
    (hjust : ∃ hashInvalid, Ancestor (parentHash node.mapBlockIndex) hashInvalid hash ∧
      failedValidAt node.mapBlockIndex hashInvalid = true) :
    (node.markFailedChild hash).FlagsSound genesis := by
  have hmarked := node.failedValidAt_markFailedChild hash
  refine ⟨hnode.toTreelike.sameIndex (setStatus_sameIndex _ _ _) (setStatus_chainActive _ _ _),
    hnode.justified.update (setStatus_sameIndex _ _ _) (fun hash' h => by rwa [hmarked]) ?_⟩
  intro hash' hflag
  rcases failedAt_markFailedChild hflag with hold | rfl
  · exact .inl hold
  · obtain ⟨hashInvalid, hanc, h⟩ := hjust
    exact .inr ⟨hashInvalid, hanc, by rwa [hmarked]⟩

lemma eraseCandidate (hash : Uint256) : (node.eraseCandidate hash).FlagsSound genesis :=
  hnode.of_eq rfl rfl

end

end FlagsSound

/-! ## Dropping a branch -/

/-- The entries on top of an unusable one, from the top of a branch. -/
structure Unusable (node : Node) (above : List CBlockIndex) (pindexTest : CBlockIndex) : Prop where
  known : node.mapBlockIndex.lookup pindexTest.hashBlock = some pindexTest
  above : ∀ pindexFailed ∈ above,
    Ancestor (parentHash node.mapBlockIndex) pindexTest.hashBlock pindexFailed.hashBlock

lemma Treelike.unusable (hnode : node.Treelike genesis) {pindexNew pindexTest : CBlockIndex}
    {above rest : List CBlockIndex} (h : node.mapBlockIndex.lookup hash = some pindexNew)
    (hbranch : node.branch pindexNew = above ++ pindexTest :: rest) :
    node.Unusable above pindexTest := by
  have hsub : (above ++ pindexTest :: rest).Sublist (pathOf node.mapBlockIndex pindexNew) :=
    hbranch ▸ (List.takeWhile_prefix _).sublist
  have hmem : pindexTest ∈ pathOf node.mapBlockIndex pindexNew := hsub.mem (by simp)
  obtain ⟨hashTest, hlookup, -⟩ := (hnode.tree.mem_pathOf h).mp hmem
  refine ⟨by rwa [hnode.tree.keyed hashTest pindexTest hlookup], fun pindexFailed hfailed => ?_⟩
  have hpair := (hnode.tree.pathOf_pairwise h).sublist hsub
  exact (List.pairwise_append.mp hpair).2.2 pindexFailed hfailed pindexTest (by simp)

lemma FlagsSound.dropBranch (hnode : node.FlagsSound genesis) {above : List CBlockIndex}
    {pindexTest : CBlockIndex} (hunusable : node.Unusable above pindexTest) :
    (node.dropBranch above pindexTest).FlagsSound genesis := by
  have hjust : pindexTest.nStatus.failed = true → ∀ pindexFailed ∈ above,
      ∃ hashInvalid, Ancestor (parentHash node.mapBlockIndex) hashInvalid pindexFailed.hashBlock ∧
        failedValidAt node.mapBlockIndex hashInvalid = true := by
    intro hfailed pindexFailed hmem
    obtain ⟨hashInvalid, hanc, hmarked⟩ := hnode.justified pindexTest.hashBlock
      ((failedAt_of_lookup hunusable.known).trans hfailed)
    exact ⟨hashInvalid, hanc.trans (hunusable.above pindexFailed hmem), hmarked⟩
  clear hunusable
  refine FlagsSound.eraseCandidate ?_ _
  induction above generalizing node with
  | nil => exact hnode
  | cons pindexFailed above ih =>
    rw [List.foldl_cons]
    by_cases hfailed : pindexTest.nStatus.failed = true
    · have hall := hjust hfailed
      refine ih ?_ fun _ pindex hmem => ?_
      · rw [if_pos hfailed]
        exact (hnode.markFailedChild (hall pindexFailed List.mem_cons_self)).eraseCandidate _
      · obtain ⟨hashInvalid, hanc, hmarked⟩ := hall pindex (List.mem_cons_of_mem _ hmem)
        rw [if_pos hfailed]
        refine ⟨hashInvalid, ?_, (node.failedValidAt_markFailedChild _ _).trans hmarked⟩
        exact (node.setStatus_sameIndex _ _).parentHash_eq.symm ▸ hanc
    · refine ih ?_ fun h => absurd h hfailed
      rw [if_neg hfailed]
      exact hnode.of_eq rfl rfl

end Node

/-! ## The routines of a node -/

section Routines

variable {config : Config} {env : Environment} {genesis : Uint256}

/-- However the routine ends, it leaves justified flags justified. -/
def KeepsFlags {α : Type} (genesis : Uint256) (x : NodeCheck α) : Prop :=
  Relates (Kept fun s : Node × CValidationState => s.1.FlagsSound genesis) x

variable {s : Node × CValidationState} {r : Outcome Unit × (Node × CValidationState)}
  {pindex : CBlockIndex} {node : Node} {header : CBlockHeader} {chain : ChainState} {hash : Uint256}

lemma DisconnectTipEnds.flags (hends : DisconnectTipEnds env s r)
    (hnode : s.1.FlagsSound genesis) : r.2.1.FlagsSound genesis := by
  refine ⟨hends.treelike hnode.toTreelike, ?_⟩
  rw [hends.index]
  exact hnode.justified

/-- Marking the entry of a bad block; the node is the one from before or has the entry marked. -/
lemma invalidBlockFound_flags (hash : Uint256) (state : CValidationState)
    (hnode : node.FlagsSound genesis) :
    (invalidBlockFound hash (node, state)).1.FlagsSound genesis := by
  unfold invalidBlockFound
  split_ifs
  · exact (hnode.markFailedValid hash).eraseCandidate hash
  · exact hnode

lemma ConnectTipEnds.flags {pblock : Option CBlock}
    (hends : ConnectTipEnds config env hash pblock s r) (hnode : s.1.FlagsSound genesis) :
    r.2.1.FlagsSound genesis := by
  refine ⟨hends.treelike hnode.toTreelike, ?_⟩
  cases hends with
  | asserted => exact hnode.justified
  | unread => exact hnode.justified
  | halted => exact hnode.justified
  | refused => exact (invalidBlockFound_flags _ _ hnode).justified
  | unflushed hlookup hconnected =>
    exact hnode.justified.sameFlags (tipConnection_sameFlags hnode.tree.keyed hlookup hconnected)
  | connected hlookup hprev hconnected =>
    exact hnode.justified.sameFlags (tipConnection_sameFlags hnode.tree.keyed hlookup hconnected)

lemma flags_operations :
    OperationsKeep config env (Kept fun s : Node × CValidationState => s.1.FlagsSound genesis) where
  disconnect := fun s => (disconnectTip_ends _ _ s).flags
  connect := fun hash pblock s => (connectTip_ends _ _ hash pblock s).flags
  pruned := fun _ _ _ hnode => hnode.of_eq rfl rfl
  dropped := by
    intro s pindexNew pindexTest above rest hbest hbranch _ _ hnode
    obtain ⟨hash, -, hlookup⟩ := List.mem_filterMap.mp (Node.bestCandidate_mem hbest)
    exact hnode.dropBranch (hnode.toTreelike.unusable hlookup hbranch)
  settled := fun _ _ _ hnode => hnode.of_eq rfl rfl

/-! ## Headers and blocks -/

/-- An accepted header leaves the flags alone, and its entry is in the index. -/
lemma HeaderAccepted.flags (h : HeaderAccepted config node.toChainState header (chain, pindex))
    (hnode : node.FlagsSound genesis) :
    Node.FlagsSound genesis { node with toChainState := chain } ∧
      chain.mapBlockIndex.lookup pindex.hashBlock = some pindex := by
  obtain ⟨htree, hlookup, -⟩ := h.treelike hnode.toTreelike
  refine ⟨⟨htree, ?_⟩, hlookup⟩
  cases h with
  | @genesis pindex₀ _ hknown =>
    obtain ⟨proofOfStake, hmark⟩ := markStake_status config.params pindex₀
    refine hnode.justified.sameFlags (.insert hknown ?_ ?_ ?_)
    · exact hmark ▸ ⟨rfl, rfl, rfl, rfl, rfl⟩
    · rw [hmark]
    · rw [hmark]
  | known => exact hnode.justified
  | @added pindexPrev hunknown =>
    obtain ⟨proofOfStake, hmark⟩ := markStake_status config.params
      (newBlockIndex config.hashes header (some pindexPrev))
    exact hnode.justified.insert hunknown (hmark ▸ rfl)

lemma StoreBlockEnds.flags {block : CBlock}
    (hends : StoreBlockEnds config env block pindex s r) (hnode : s.1.FlagsSound genesis)
    (hlookup : s.1.mapBlockIndex.lookup pindex.hashBlock = some pindex) :
    r.2.1.FlagsSound genesis := by
  cases hends with
  | halted => exact hnode
  | refused =>
    unfold markIfInvalid
    split_ifs
    · exact hnode.markFailedValid _
    · exact hnode
  | powHeight => exact hnode
  | diskFull => exact hnode
  | @stored state =>
    obtain ⟨hsame, hactive⟩ := stored_sameFlags env block state hnode.tree.keyed hlookup
    exact hnode.sameFlags hsame hactive

lemma acceptBlock_keepsFlags (block : CBlock) (fRequested : Bool) :
    KeepsFlags config.params.hashGenesisBlock (acceptBlock config env block fRequested) := by
  intro s hnode
  have hends := acceptBlock_ends config env block fRequested s
  generalize acceptBlock config env block fRequested s = r at hends
  cases hends with
  | unaccepted => exact hnode
  | ignored haccept =>
    exact ((acceptBlockHeader_accepted hnode.genesis_known haccept).flags hnode).1
  | processed haccept _ hstore =>
    obtain ⟨hnode', hlookup⟩ := (acceptBlockHeader_accepted hnode.genesis_known haccept).flags hnode
    exact hstore.flags hnode' hlookup

/-- The index after headers came in by a message. -/
lemma acceptBlockHeader_flags {fProofOfStake : Bool} {r : ChainState × CBlockIndex}
    {state state' : CValidationState}
    (hnode : Node.FlagsSound config.params.hashGenesisBlock { node with toChainState := chain })
    (h : acceptBlockHeader config chain header fProofOfStake state = (.returned r, state')) :
    Node.FlagsSound config.params.hashGenesisBlock { node with toChainState := r.1 } :=
  ((acceptBlockHeader_accepted hnode.genesis_known h).flags hnode).1

/-! ## Invalidating -/

/-- A node with an entry that is marked `BLOCK_FAILED_VALID`. -/
structure Node.Invalidated (genesis : Uint256) (pindex : CBlockIndex) (node : Node) : Prop
    extends node.FlagsSound genesis where
  known : ∃ pindex', node.mapBlockIndex.lookup pindex.hashBlock = some pindex' ∧
    SameEntry pindex pindex'
  marked : failedValidAt node.mapBlockIndex pindex.hashBlock = true

namespace Node.Invalidated

variable {pindex : CBlockIndex} {node node' : Node}

lemma of_index (h : node.Invalidated genesis pindex) (hnode' : node'.FlagsSound genesis)
    (hindex : node'.mapBlockIndex = node.mapBlockIndex) : node'.Invalidated genesis pindex :=
  ⟨hnode', hindex.symm ▸ h.known, hindex.symm ▸ h.marked⟩

/-- While the entry is on the active chain, the tip may be marked as its descendant. -/
lemma markTip (h : node.Invalidated genesis pindex) {tip : CBlockIndex}
    (hcontains : node.contains pindex = true) (htip : node.tip = some tip) :
    ((node.markFailedChild tip.hashBlock).eraseCandidate tip.hashBlock).Invalidated genesis
      pindex := by
  obtain ⟨pindex', hknown, hsame⟩ := h.known
  have hmem : pindex.hashBlock ∈ node.chainActive := by
    rw [← h.toTreelike.contains_iff hknown]
    rwa [ChainState.contains, hsame.nHeight, hsame.hashBlock]
  obtain ⟨hashTip, hhead, hlookup⟩ := Option.bind_eq_some_iff.mp htip
  obtain ⟨rest, hactive⟩ := List.head?_eq_some_iff.mp hhead
  have hanc : Ancestor (parentHash node.mapBlockIndex) pindex.hashBlock tip.hashBlock := by
    rw [h.tree.keyed hashTip tip hlookup]
    exact (hactive ▸ h.active).ancestor_head (hactive ▸ hmem)
  refine ⟨(h.markFailedChild ⟨_, hanc, h.marked⟩).eraseCandidate _, ?_, ?_⟩
  · obtain ⟨pindex'', hknown', hsame'⟩ :=
      (node.setStatus_sameIndex tip.hashBlock _).kept _ _ hknown
    exact ⟨pindex'', hknown', hsame.trans hsame'⟩
  · exact (node.failedValidAt_markFailedChild _ _).trans h.marked

end Node.Invalidated

lemma invalidateLoop_keeps (pindex : CBlockIndex) (blocks : Nat) :
    Relates (Kept fun s : Node × CValidationState => s.1.Invalidated genesis pindex)
      (invalidateLoop config env pindex blocks) := by
  have hdisconnect : Relates
      (Kept fun s : Node × CValidationState => s.1.Invalidated genesis pindex)
      (onRefused (disconnectTip config env) fun s =>
        ({ s.1 with mempool := env.removeForReorg s.1.mempool }, s.2)) := by
    intro s h
    have hends := disconnectTip_ends config env s
    have h' := h.of_index (hends.flags h.toFlagsSound) hends.index
    revert h'
    unfold onRefused
    rcases disconnectTip config env s with ⟨_ | _ | _, s'⟩ <;> intro h'
    · exact h'
    · exact h'.of_index (h'.toFlagsSound.of_eq rfl rfl) rfl
    · exact h'
  induction blocks with
  | zero => exact Relates.pure ()
  | succ blocks ih =>
    refine relates_readNode_bind fun s h => ?_
    split_ifs with hcontains
    · cases htip : s.1.tip with
      | none => exact h
      | some tip => exact Relates.bind hdisconnect (fun _ => ih) (_, _) (h.markTip hcontains htip)
    · exact h

lemma Node.restoreCandidates_eq (node : Node) (tip : CBlockIndex) :
    ∃ setBlockIndexCandidates, node.restoreCandidates tip =
      { node with setBlockIndexCandidates } := by
  have hfold : ∀ (hashes : List Uint256) (p : Uint256 → Bool) (node : Node),
      ∃ setBlockIndexCandidates, hashes.foldl (fun node' hash =>
        if p hash then node'.insertCandidate hash else node') node =
          { node with setBlockIndexCandidates } := by
    intro hashes p
    induction hashes with
    | nil => exact fun node => ⟨node.setBlockIndexCandidates, rfl⟩
    | cons hash hashes ih =>
      intro node
      rw [List.foldl_cons]
      split_ifs
      · exact ih (node.insertCandidate hash)
      · exact ih node
  exact hfold _ _ node

lemma invalidateBlock_flags (hnode : s.1.FlagsSound genesis)
    (hlookup : s.1.mapBlockIndex.lookup pindex.hashBlock = some pindex) :
    (invalidateBlock config env pindex s).2.1.FlagsSound genesis := by
  have hmarked : ((s.1.markFailedValid pindex.hashBlock).eraseCandidate
      pindex.hashBlock).Invalidated genesis pindex := by
    refine ⟨(hnode.markFailedValid _).eraseCandidate _, ?_, ?_⟩
    · exact (s.1.setStatus_sameIndex pindex.hashBlock _).kept _ _ hlookup
    · exact (Node.failedValidAt_setStatus hlookup).trans (if_pos rfl)
  have hrest : Relates (Kept fun s : Node × CValidationState => s.1.FlagsSound genesis) (do
      let node ← readNode
      let tip ← Check.require node.tip
      modifyNode fun node =>
        let node' := node.restoreCandidates tip
        { node' with mempool := env.removeForReorg node'.mempool }) := by
    refine Relates.bind (fun _ h => h) fun node => Relates.bind (.require _) fun tip =>
      relates_modifyNode fun ⟨node, _⟩ hnode => ?_
    obtain ⟨candidates, heq⟩ := node.restoreCandidates_eq tip
    dsimp only
    rw [heq]
    exact hnode.of_eq rfl rfl
  unfold invalidateBlock
  exact (invalidateLoop_keeps pindex _).kept_bind (fun _ h => h.toFlagsSound) (fun _ => hrest)
    hmarked

end Routines

end Jumpcoin
