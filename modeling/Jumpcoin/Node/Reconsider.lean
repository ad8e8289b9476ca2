import Jumpcoin.Node.Flags

/-!
# Reconsidering a block

What `ResetBlockFailureFlags` leaves of the failure flags: those of all entries that are neither
ancestors nor descendants of the block. So the flags are justified afterwards exactly if each of
these entries is flagged for the sake of an entry that is no ancestor of the block.
-/

namespace Jumpcoin

open Check CValidationState NodeCheck

/-- The index with the flags of some of its entries removed. -/
structure Cleared (C : Uint256 → Prop) (m m' : BlockMap) : Prop extends SameIndex m m' where
  failedAt_iff : ∀ hash, failedAt m' hash = true ↔ failedAt m hash = true ∧ ¬C hash
  failedValidAt_iff : ∀ hash, failedValidAt m' hash = true ↔ failedValidAt m hash = true ∧ ¬C hash

namespace Cleared

variable {C D : Uint256 → Prop} {m m' m'' : BlockMap}

lemma trans (h : Cleared C m m') (h' : Cleared D m' m'') :
    Cleared (fun hash => C hash ∨ D hash) m m'' := by
  refine ⟨h.toSameIndex.trans h'.toSameIndex, fun hash => ?_, fun hash => ?_⟩
  · rw [h'.failedAt_iff, h.failedAt_iff, and_assoc, not_or]
  · rw [h'.failedValidAt_iff, h.failedValidAt_iff, and_assoc, not_or]

/-- Nothing changes where none of the entries has a flag. -/
lemma of_unflagged (h : ∀ hash, C hash → failedAt m hash = false) : Cleared C m m := by
  refine ⟨.refl m, fun hash => ?_, fun hash => ?_⟩
  · refine ⟨fun hflag => ⟨hflag, fun hC => ?_⟩, And.left⟩
    rw [h hash hC] at hflag
    cases hflag
  · refine ⟨fun hmarked => ⟨hmarked, fun hC => ?_⟩, And.left⟩
    have hflag := failedAt_of_failedValidAt hmarked
    rw [h hash hC] at hflag
    cases hflag

lemma congr (h : Cleared C m m')
    (hiff : ∀ hash, failedAt m hash = true → (C hash ↔ D hash)) : Cleared D m m' := by
  refine ⟨h.toSameIndex, fun hash => ?_, fun hash => ?_⟩
  · rw [h.failedAt_iff]
    exact and_congr_right fun hflag => not_congr (hiff hash hflag)
  · rw [h.failedValidAt_iff]
    exact and_congr_right fun hmarked => not_congr (hiff hash (failedAt_of_failedValidAt hmarked))

end Cleared

/-! ## The loops -/

section Reset

variable {genesis hash : Uint256} {node : Node} {pindex : CBlockIndex}
  {s s' : Node × CValidationState} {m m' : BlockMap}

lemma Node.clearFailure_cleared (node : Node) (hash : Uint256) :
    Cleared (· = hash) node.mapBlockIndex (node.clearFailure hash).mapBlockIndex := by
  refine ⟨node.setStatus_sameIndex hash _, fun hash' => ?_, fun hash' => ?_⟩
  all_goals
    unfold Node.clearFailure
    cases h : node.mapBlockIndex.lookup hash with
    | none =>
      rw [Node.setStatus_of_unknown h]
      refine ⟨fun hflag => ⟨hflag, ?_⟩, And.left⟩
      rintro rfl
      simp [failedAt, failedValidAt, h] at hflag
    | some pindex =>
      first | rw [Node.failedAt_setStatus h] | rw [Node.failedValidAt_setStatus h]
      split_ifs with heq <;> simp [BlockStatus.cleared, BlockStatus.failed, heq]

@[simp] lemma Node.clearFailure_chainActive (node : Node) (hash : Uint256) :
    (node.clearFailure hash).chainActive = node.chainActive :=
  node.setStatus_chainActive hash _

def Knows (m : BlockMap) (pindex : CBlockIndex) : Prop :=
  ∃ pindex', m.lookup pindex.hashBlock = some pindex' ∧ SameEntry pindex pindex'

lemma Knows.sameIndex (h : Knows m pindex) (hsame : SameIndex m m') : Knows m' pindex := by
  obtain ⟨pindex', hknown, heq⟩ := h
  obtain ⟨pindex'', hknown', heq'⟩ := hsame.kept _ _ hknown
  exact ⟨pindex'', hknown', heq.trans heq'⟩

/-- One turn of the first loop: an entry is cleared if it is a descendant of the block. -/
lemma resetDescendant_cleared (hnode : s.1.Treelike genesis)
    (hpindex : Knows s.1.mapBlockIndex pindex)
    (h : resetDescendant pindex hash s = (.returned (), s')) :
    Cleared (fun hash' => hash' = hash ∧
        Ancestor (parentHash s.1.mapBlockIndex) pindex.hashBlock hash') s.1.mapBlockIndex
      s'.1.mapBlockIndex ∧ s'.1.chainActive = s.1.chainActive := by
  obtain ⟨pindex', hknown, hsame⟩ := hpindex
  unfold resetDescendant at h
  rw [readNode_bind] at h
  cases hlookup : s.1.mapBlockIndex.lookup hash with
  | none =>
    simp only [hlookup, pure_eq_returned] at h
    obtain ⟨-, rfl⟩ := h
    refine ⟨.of_unflagged ?_, rfl⟩
    rintro _ ⟨rfl, -⟩
    rw [failedAt, hlookup, Option.any_none]
  | some pindexWalk =>
    simp only [hlookup] at h
    have hanc := hnode.tree.getAncestor_eq_iff hlookup hknown
    rw [hsame.nHeight] at hanc
    split_ifs at h with hcond hinsert
    · rw [Bool.and_eq_true, beq_iff_eq, hanc] at hcond
      rw [modifyNode_bind] at h
      obtain ⟨tip, _, htip, h⟩ := bind_eq_returned.mp h
      obtain ⟨-, rfl⟩ := require_eq_returned.mp htip
      obtain rfl := (Prod.mk.inj h).2
      have hclear := (s.1.clearFailure_cleared hash).congr
        (D := fun hash' => hash' = hash ∧
          Ancestor (parentHash s.1.mapBlockIndex) pindex.hashBlock hash') fun hash' _ =>
        ⟨fun heq => ⟨heq, heq ▸ hcond.2⟩, And.left⟩
      dsimp only
      split_ifs
      · exact ⟨hclear, s.1.clearFailure_chainActive hash⟩
      · exact ⟨hclear, s.1.clearFailure_chainActive hash⟩
    · rw [Bool.and_eq_true, beq_iff_eq, hanc] at hcond
      obtain rfl := (pure_eq_returned.mp h).2
      exact ⟨(s.1.clearFailure_cleared hash).congr fun hash' _ =>
        ⟨fun heq => ⟨heq, heq ▸ hcond.2⟩, And.left⟩, s.1.clearFailure_chainActive hash⟩
    · obtain rfl := (pure_eq_returned.mp h).2
      refine ⟨.of_unflagged ?_, rfl⟩
      rintro _ ⟨rfl, hdesc⟩
      rw [failedAt_of_lookup hlookup]
      simp only [Bool.and_eq_true, beq_iff_eq, hanc.mpr hdesc, and_true, BlockStatus.isValid,
        Bool.not_eq_true', Bool.not_eq_false, decide_eq_true_eq] at hcond
      exact hcond.1

lemma resetDescendants_cleared {hashes : List Uint256}
    (hnode : s.1.Treelike genesis) (hpindex : Knows s.1.mapBlockIndex pindex)
    (h : hashes.forM (resetDescendant pindex) s = (.returned (), s')) :
    Cleared (fun hash => hash ∈ hashes ∧
        Ancestor (parentHash s.1.mapBlockIndex) pindex.hashBlock hash) s.1.mapBlockIndex
      s'.1.mapBlockIndex ∧ s'.1.chainActive = s.1.chainActive := by
  induction hashes generalizing s with
  | nil =>
    obtain rfl := (pure_eq_returned.mp h).2
    exact ⟨.of_unflagged fun hash hmem => absurd hmem.1 List.not_mem_nil, rfl⟩
  | cons hash hashes ih =>
    obtain ⟨_, s₁, hfirst, hrest⟩ := bind_eq_returned.mp h
    obtain ⟨hcleared, hactive⟩ := resetDescendant_cleared hnode hpindex hfirst
    obtain ⟨hcleared', hactive'⟩ := ih (hnode.sameIndex hcleared.toSameIndex hactive)
      (hpindex.sameIndex hcleared.toSameIndex) hrest
    rw [hcleared.parentHash_eq] at hcleared'
    refine ⟨(hcleared.trans hcleared').congr fun hash' _ => ?_, hactive'.trans hactive⟩
    rw [List.mem_cons, or_and_right]

lemma resetAncestors_fold {m : BlockMap} (path : List CBlockIndex)
    (hpath : ∀ pindexWalk ∈ path, failedAt m pindexWalk.hashBlock = true →
      pindexWalk.nStatus.failed = true)
    (hsub : ∀ hash, failedAt node.mapBlockIndex hash = true → failedAt m hash = true) :
    let node' := path.foldl (fun node pindexWalk =>
      if pindexWalk.nStatus.failed then node.clearFailure pindexWalk.hashBlock else node) node
    Cleared (fun hash => ∃ pindexWalk ∈ path, pindexWalk.hashBlock = hash) node.mapBlockIndex
      node'.mapBlockIndex ∧ node'.chainActive = node.chainActive := by
  induction path generalizing node with
  | nil => exact ⟨.of_unflagged fun hash ⟨_, hmem, _⟩ => absurd hmem List.not_mem_nil, rfl⟩
  | cons pindexWalk path ih =>
    have hpath' : ∀ pindexWalk ∈ path, failedAt m pindexWalk.hashBlock = true →
        pindexWalk.nStatus.failed = true := fun _ hmem => hpath _ (List.mem_cons_of_mem _ hmem)
    rw [List.foldl_cons]
    -- an entry without a flag is left alone, which is the same as clearing it
    have hfirst : Cleared (· = pindexWalk.hashBlock) node.mapBlockIndex
        (if pindexWalk.nStatus.failed then node.clearFailure pindexWalk.hashBlock
          else node).mapBlockIndex ∧
        (if pindexWalk.nStatus.failed then node.clearFailure pindexWalk.hashBlock
          else node).chainActive = node.chainActive := by
      split_ifs with hfailed
      · exact ⟨node.clearFailure_cleared _, node.clearFailure_chainActive _⟩
      · refine ⟨.of_unflagged ?_, rfl⟩
        rintro _ rfl
        by_contra hflag
        exact hfailed (hpath pindexWalk List.mem_cons_self (hsub _ (by simpa using hflag)))
    obtain ⟨hcleared, hactive⟩ := ih hpath' fun hash hflag =>
      hsub hash ((hfirst.1.failedAt_iff hash).mp hflag).1
    refine ⟨(hfirst.1.trans hcleared).congr fun hash _ => ?_, hactive.trans hfirst.2⟩
    simp [eq_comm]

/-- The second loop clears the block and its ancestors. -/
lemma resetAncestors_cleared (hnode : node.Treelike genesis)
    (hpindex : node.mapBlockIndex.lookup hash = some pindex) :
    Cleared (fun hash' => Ancestor (parentHash node.mapBlockIndex) hash' hash) node.mapBlockIndex
      (node.resetAncestors hash).mapBlockIndex ∧
      (node.resetAncestors hash).chainActive = node.chainActive := by
  simp only [Node.resetAncestors, hpindex]
  have hwalk : ∀ pindexWalk ∈ pathOf node.mapBlockIndex pindex,
      node.mapBlockIndex.lookup pindexWalk.hashBlock = some pindexWalk ∧
        Ancestor (parentHash node.mapBlockIndex) pindexWalk.hashBlock hash := by
    intro pindexWalk hmem
    obtain ⟨hashWalk, hlookup, hanc⟩ := (hnode.tree.mem_pathOf hpindex).mp hmem
    rw [hnode.tree.keyed hashWalk pindexWalk hlookup]
    exact ⟨hlookup, hanc⟩
  obtain ⟨hcleared, hactive⟩ := resetAncestors_fold (pathOf node.mapBlockIndex pindex)
    (fun pindexWalk hmem hflag => (failedAt_of_lookup (hwalk pindexWalk hmem).1).symm.trans hflag)
    fun hash' (hflag : failedAt node.mapBlockIndex hash' = true) => hflag
  refine ⟨hcleared.congr fun hash' hflag => ⟨?_, fun hanc => ?_⟩, hactive⟩
  · rintro ⟨pindexWalk, hmem, rfl⟩
    exact (hwalk pindexWalk hmem).2
  · cases hlookup : node.mapBlockIndex.lookup hash' with
    | none => simp [failedAt, hlookup] at hflag
    | some pindexWalk =>
      exact ⟨pindexWalk, (hnode.tree.mem_pathOf hpindex).mpr ⟨hash', hlookup, hanc⟩,
        hnode.tree.keyed hash' pindexWalk hlookup⟩

/-- `ResetBlockFailureFlags` clears the ancestors and the descendants of the block. -/
lemma resetBlockFailureFlags_cleared (hnode : s.1.Treelike genesis)
    (hpindex : s.1.mapBlockIndex.lookup hash = some pindex)
    (h : resetBlockFailureFlags pindex s = (.returned (), s')) :
    Cleared (fun hash' => Ancestor (parentHash s.1.mapBlockIndex) hash hash' ∨
        Ancestor (parentHash s.1.mapBlockIndex) hash' hash) s.1.mapBlockIndex s'.1.mapBlockIndex ∧
      s'.1.chainActive = s.1.chainActive := by
  obtain rfl := hnode.tree.keyed hash pindex hpindex
  unfold resetBlockFailureFlags at h
  rw [readNode_bind] at h
  obtain ⟨_, s₁, hfirst, hrest⟩ := bind_eq_returned.mp h
  obtain rfl := (Prod.mk.inj hrest).2
  obtain ⟨hcleared, hactive⟩ := resetDescendants_cleared hnode ⟨pindex, hpindex, .refl _⟩ hfirst
  obtain ⟨pindex', hpindex', -⟩ := hcleared.kept _ _ hpindex
  obtain ⟨hcleared', hactive'⟩ := resetAncestors_cleared
    (hnode.sameIndex hcleared.toSameIndex hactive) hpindex'
  rw [hcleared.parentHash_eq] at hcleared'
  refine ⟨(hcleared.trans hcleared').congr fun hash' hflag => ?_, hactive'.trans hactive⟩
  have hmem : hash' ∈ s.1.mapBlockIndex.hashes := by
    rw [BlockMap.mem_hashes, Option.isSome_iff_ne_none]
    intro hnone
    simp [failedAt, hnone] at hflag
  simp [hmem]

/-- Every flagged entry that is neither an ancestor nor a descendant of a block stands on an entry
marked `BLOCK_FAILED_VALID` that is no ancestor of the block, or is marked itself. -/
def ResetSafe (m : BlockMap) (hash : Uint256) : Prop :=
  ∀ hash', failedAt m hash' = true → ¬Ancestor (parentHash m) hash hash' →
    ¬Ancestor (parentHash m) hash' hash →
    ∃ hashInvalid, Ancestor (parentHash m) hashInvalid hash' ∧ failedValidAt m hashInvalid = true ∧
      ¬Ancestor (parentHash m) hashInvalid hash

lemma Cleared.justified_iff
    (h : Cleared (fun hash' => Ancestor (parentHash m) hash hash' ∨
      Ancestor (parentHash m) hash' hash) m m') : Justified m' ↔ ResetSafe m hash := by
  constructor
  · intro hjust hash' hflag hdesc hanc
    obtain ⟨hashInvalid, hbelow, hmarked⟩ :=
      hjust hash' ((h.failedAt_iff hash').mpr ⟨hflag, not_or.mpr ⟨hdesc, hanc⟩⟩)
    obtain ⟨hmarked, hkept⟩ := (h.failedValidAt_iff hashInvalid).mp hmarked
    exact ⟨hashInvalid, h.parentHash_eq ▸ hbelow, hmarked, (not_or.mp hkept).2⟩
  · intro hsafe hash' hflag
    obtain ⟨hflag, hkept⟩ := (h.failedAt_iff hash').mp hflag
    obtain ⟨hdesc, hanc⟩ := not_or.mp hkept
    obtain ⟨hashInvalid, hbelow, hmarked, hoff⟩ := hsafe hash' hflag hdesc hanc
    refine ⟨hashInvalid, h.parentHash_eq.symm ▸ hbelow, ?_⟩
    exact (h.failedValidAt_iff hashInvalid).mpr
      ⟨hmarked, not_or.mpr ⟨fun hon => hdesc (hon.trans hbelow), hoff⟩⟩

end Reset

/-! ## Runs -/

/-- What happens to the flags of a node: headers and blocks come in, the best chain is activated,
and blocks are invalidated and reconsidered. All the rest leaves the index and the active chain
alone. -/
inductive FlagRun (config : Config) (start : Node) : Node → Prop
  | refl : FlagRun config start start
  | headers {node : Node} (headers : List CBlockHeader) : FlagRun config start node →
      FlagRun config start
        { node with toChainState := processHeaders config node.toChainState headers }
  | compact {node : Node} (header : CBlockHeader) : FlagRun config start node →
      FlagRun config start
        { node with toChainState := processCompactHeader config node.toChainState header }
  | block {node : Node} (env : Environment) (block : CBlock) (fRequested : Bool) :
      FlagRun config start node →
      FlagRun config start (acceptBlock config env block fRequested (node, .init)).2.1
  | activated {node : Node} (env : Environment) (pblock : Option CBlock) (passes : Nat) :
      FlagRun config start node →
      FlagRun config start (activateBestChain config env pblock passes (node, .init)).2.1
  | invalidated {node : Node} (env : Environment) {hash : Uint256} {pindex : CBlockIndex} :
      FlagRun config start node → node.mapBlockIndex.lookup hash = some pindex →
      FlagRun config start (invalidateBlock config env pindex (node, .init)).2.1
  | reconsidered {node : Node} {hash : Uint256} {pindex : CBlockIndex}
      {s' : Node × CValidationState} : FlagRun config start node →
      node.mapBlockIndex.lookup hash = some pindex →
      resetBlockFailureFlags pindex (node, .init) = (.returned (), s') →
      ResetSafe node.mapBlockIndex hash → FlagRun config start s'.1
  | elsewhere {node node' : Node} : FlagRun config start node →
      node'.mapBlockIndex = node.mapBlockIndex → node'.chainActive = node.chainActive →
      FlagRun config start node'

lemma FlagRun.flagsSound {config : Config} {start node : Node} (hrun : FlagRun config start node)
    (hstart : start.FlagsSound config.params.hashGenesisBlock) :
    node.FlagsSound config.params.hashGenesisBlock := by
  induction hrun with
  | refl => exact hstart
  | @headers node headers _ ih =>
    exact processHeaders_preserves (Q := fun _ => True)
      (P := fun chain => Node.FlagsSound _ { node with toChainState := chain })
      (fun _ _ _ _ _ hnode _ haccept => acceptBlockHeader_flags hnode haccept)
      (fun _ _ => trivial) ih
  | @compact node header _ ih =>
    exact processCompactHeader_preserves (Q := fun _ => True)
      (P := fun chain => Node.FlagsSound _ { node with toChainState := chain })
      (fun _ _ _ _ _ hnode _ haccept => acceptBlockHeader_flags hnode haccept) trivial ih
  | @block node env block fRequested _ ih => exact acceptBlock_keepsFlags block fRequested _ ih
  | @activated node env pblock passes _ ih =>
    exact flags_operations.passes.activateBestChainLoop pblock passes none _ ih
  | invalidated env _ hlookup ih =>
    exact invalidateBlock_flags ih (by rwa [ih.tree.keyed _ _ hlookup])
  | reconsidered _ hlookup hreset hsafe ih =>
    obtain ⟨hcleared, hactive⟩ := resetBlockFailureFlags_cleared ih.toTreelike hlookup hreset
    exact ⟨ih.toTreelike.sameIndex hcleared.toSameIndex hactive, hcleared.justified_iff.mpr hsafe⟩
  | elsewhere _ hindex hactive ih => exact ih.of_eq hindex hactive

/-- In every run whose resets are safe, the flags are justified in every state; in each of them the
flags after a reset are justified exactly if the reset is safe; and then it clears every entry whose
marked ancestors are all ancestors of the reconsidered block. -/
theorem flagRun_justified {config : Config} {start node : Node}
    (htree : BlockTree config.params.hashGenesisBlock start.mapBlockIndex)
    (hactive : ActiveChain start.mapBlockIndex start.chainActive)
    (hjust : Justified start.mapBlockIndex) (hrun : FlagRun config start node) :
    Justified node.mapBlockIndex ∧
      ∀ hash pindex s', node.mapBlockIndex.lookup hash = some pindex →
        resetBlockFailureFlags pindex (node, .init) = (.returned (), s') →
        (Justified s'.1.mapBlockIndex ↔ ResetSafe node.mapBlockIndex hash) ∧
        (ResetSafe node.mapBlockIndex hash → ∀ hash',
          (∀ hashInvalid, Ancestor (parentHash node.mapBlockIndex) hashInvalid hash' →
            failedValidAt node.mapBlockIndex hashInvalid = true →
            Ancestor (parentHash node.mapBlockIndex) hashInvalid hash) →
          failedAt s'.1.mapBlockIndex hash' = false) := by
  have hnode := hrun.flagsSound ⟨⟨htree, hactive⟩, hjust⟩
  refine ⟨hnode.justified, fun hash pindex s' hlookup hreset => ?_⟩
  have hcleared := (resetBlockFailureFlags_cleared hnode.toTreelike hlookup hreset).1
  refine ⟨hcleared.justified_iff, fun hsafe hash' hall => ?_⟩
  by_contra hflag
  rw [Bool.not_eq_false, hcleared.failedAt_iff, not_or] at hflag
  obtain ⟨hflag, hdesc, hanc⟩ := hflag
  obtain ⟨hashInvalid, hbelow, hmarked, hoff⟩ := hsafe hash' hflag hdesc hanc
  exact hoff (hall hashInvalid hbelow hmarked)

/-! ## A fork above an invalid block -/

/-- `toyStakeNode` with a tip that has more work than a block of the toy network on top of the
others. -/
def toyHeavyNode : Node :=
  { toyStakeNode with
    mapBlockIndex := toyStakeNode.mapBlockIndex.insert 112
      { toyIndex 112 (some 111) 12 1700000000 with nChainWork := 70000 } }

def toySideBlock : CBlock :=
  { toyBlock [{ toyCoinBase with vin := [⟨⟨0, 0xffffffff⟩, [0x5c, 0x00], 0xffffffff⟩] }] with
    hashPrevBlock := 111 }

def toyChildBlock (nNonce : UInt32) : CBlock :=
  { toyBlock [{ toyCoinBase with vin := [⟨⟨0, 0xffffffff⟩, [0x5d, 0x00], 0xffffffff⟩] }] with
    hashPrevBlock := toySideBlock.getHash toyCrypto.toHashes
    nTime := 1700001004
    nNonce }

def toyProcess (node : Node) (block : CBlock) : Node :=
  (activateBestChain toyStakeConfig toyEnvironment none 1
    ((acceptBlock toyStakeConfig toyEnvironment block true (node, .init)).2.1, .init)).2.1

def toyHeaders (node : Node) (headers : List CBlockHeader) : Node :=
  { node with toChainState := processHeaders toyStakeConfig node.toChainState headers }

def toySideNode : Node :=
  toyProcess (toyHeaders (toyHeaders toyHeavyNode
    [toySideBlock.toCBlockHeader, (toyChildBlock 0).toCBlockHeader])
    [(toyChildBlock 1).toCBlockHeader]) toySideBlock

def toyInvalidNode : Node :=
  match toySideNode.mapBlockIndex.lookup (toySideBlock.getHash toyCrypto.toHashes) with
  | none => toySideNode
  | some pindex => (invalidateBlock toyStakeConfig toyEnvironment pindex (toySideNode, .init)).2.1

def toyFlaggedNode : Node :=
  toyProcess (toyProcess toyInvalidNode (toyChildBlock 0)) (toyChildBlock 1)

lemma FlagRun.toyProcess {start node : Node} (hrun : FlagRun toyStakeConfig start node)
    (block : CBlock) : FlagRun toyStakeConfig start (toyProcess node block) :=
  .activated toyEnvironment none 1 (.block toyEnvironment block true hrun)

lemma toyInvalidNode_run : FlagRun toyStakeConfig toyHeavyNode toyInvalidNode := by
  have hside : FlagRun toyStakeConfig toyHeavyNode toySideNode :=
    FlagRun.toyProcess (.headers _ (.headers _ .refl)) toySideBlock
  unfold toyInvalidNode
  split
  · exact hside
  next pindex hlookup => exact hside.invalidated toyEnvironment hlookup

lemma mem_hashes_of_failedAt {m : BlockMap} {hash : Uint256} (hflag : failedAt m hash = true) :
    hash ∈ m.hashes := by
  rw [BlockMap.mem_hashes, Option.isSome_iff_ne_none]
  intro hnone
  rw [failedAt, hnone, Option.any_none] at hflag
  cases hflag

/-- A block that is invalidated and reconsidered is as it was. -/
theorem toySideBlock_reconsidered : let hash := toySideBlock.getHash toyCrypto.toHashes
    BlockTree 100 toyHeavyNode.mapBlockIndex ∧
      ActiveChain toyHeavyNode.mapBlockIndex toyHeavyNode.chainActive ∧
      Justified toyHeavyNode.mapBlockIndex ∧ Justified toyInvalidNode.mapBlockIndex ∧
      failedAt toyInvalidNode.mapBlockIndex hash = true ∧
      ∃ pindex s', toyInvalidNode.mapBlockIndex.lookup hash = some pindex ∧
        resetBlockFailureFlags pindex (toyInvalidNode, .init) = (.returned (), s') ∧
        Justified s'.1.mapBlockIndex ∧ failedAt s'.1.mapBlockIndex hash = false := by
  intro hash
  have htree : BlockTree 100 toyHeavyNode.mapBlockIndex := by decide +kernel
  have hactive : ActiveChain toyHeavyNode.mapBlockIndex toyHeavyNode.chainActive := by
    decide +kernel
  have hclean : toyHeavyNode.mapBlockIndex.hashes.all
      (fun hash' => !failedAt toyHeavyNode.mapBlockIndex hash') = true := by
    decide +kernel
  have hjust : Justified toyHeavyNode.mapBlockIndex := by
    intro hash' hflag
    have hunflagged := List.all_eq_true.mp hclean hash' (mem_hashes_of_failedAt hflag)
    rw [hflag] at hunflagged
    cases hunflagged
  obtain ⟨hnode, hreset⟩ := flagRun_justified htree hactive hjust toyInvalidNode_run
  have hfailed : failedAt toyInvalidNode.mapBlockIndex hash = true := by decide +kernel
  have hothers : toyInvalidNode.mapBlockIndex.hashes.all
      (fun hash' => !failedAt toyInvalidNode.mapBlockIndex hash' || hash' == hash) = true := by
    decide +kernel
  have hsafe : ResetSafe toyInvalidNode.mapBlockIndex hash := by
    intro hash' hflag hdesc
    have honly := List.all_eq_true.mp hothers hash' (mem_hashes_of_failedAt hflag)
    rw [hflag, Bool.not_true, Bool.false_or, beq_iff_eq] at honly
    exact absurd (honly ▸ .self) hdesc
  have hfound : ∃ pindex ∈ toyInvalidNode.mapBlockIndex.lookup hash,
      (resetBlockFailureFlags pindex (toyInvalidNode, .init)).1 = .returned () := by
    decide +kernel
  obtain ⟨pindex, hlookup, houtcome⟩ := hfound
  have hreturned : resetBlockFailureFlags pindex (toyInvalidNode, .init) =
      (.returned (), (resetBlockFailureFlags pindex (toyInvalidNode, .init)).2) :=
    eq_returned houtcome
  obtain ⟨hiff, hclear⟩ := hreset hash pindex _ hlookup hreturned
  exact ⟨htree, hactive, hjust, hnode, hfailed, pindex, _, hlookup, hreturned, hiff.mpr hsafe,
    hclear hsafe hash fun _ hanc _ => hanc⟩

/-- Reconsidering one successor of an invalidated block leaves the other one flagged, although no
entry is marked `BLOCK_FAILED_VALID` any more. -/
theorem toyChildBlock_reconsidered : let hashInvalid := toySideBlock.getHash toyCrypto.toHashes
    let hash := (toyChildBlock 0).getHash toyCrypto.toHashes
    let hashOther := (toyChildBlock 1).getHash toyCrypto.toHashes
    FlagRun toyStakeConfig toyHeavyNode toyFlaggedNode ∧
      failedValidAt toyFlaggedNode.mapBlockIndex hashInvalid = true ∧
      ∃ pindex s', toyFlaggedNode.mapBlockIndex.lookup hash = some pindex ∧
        resetBlockFailureFlags pindex (toyFlaggedNode, .init) = (.returned (), s') ∧
        parentHash s'.1.mapBlockIndex hash = some hashInvalid ∧
        parentHash s'.1.mapBlockIndex hashOther = some hashInvalid ∧
        failedAt s'.1.mapBlockIndex hashOther = true ∧ ¬Justified s'.1.mapBlockIndex := by
  intro hashInvalid hash hashOther
  have hmarked : failedValidAt toyFlaggedNode.mapBlockIndex hashInvalid = true := by
    decide +kernel
  have hfound : ∃ pindex ∈ toyFlaggedNode.mapBlockIndex.lookup hash,
      let r := resetBlockFailureFlags pindex (toyFlaggedNode, .init)
      r.1 = .returned () ∧ parentHash r.2.1.mapBlockIndex hash = some hashInvalid ∧
        parentHash r.2.1.mapBlockIndex hashOther = some hashInvalid ∧
        failedAt r.2.1.mapBlockIndex hashOther = true ∧
        r.2.1.mapBlockIndex.hashes.all
          (fun hash' => !failedValidAt r.2.1.mapBlockIndex hash') = true := by
    decide +kernel
  obtain ⟨pindex, hlookup, houtcome, hparent, hparentOther, hflag, hnone⟩ := hfound
  refine ⟨(toyInvalidNode_run.toyProcess _).toyProcess _, hmarked, pindex, _, hlookup,
    eq_returned houtcome, hparent, hparentOther, hflag, fun hjust => ?_⟩
  obtain ⟨hash', -, hinvalid⟩ := hjust hashOther hflag
  have hunmarked := List.all_eq_true.mp hnone hash'
    (mem_hashes_of_failedAt (failedAt_of_failedValidAt hinvalid))
  rw [hinvalid] at hunmarked
  cases hunmarked

end Jumpcoin
