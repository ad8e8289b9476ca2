import Jumpcoin.Node.Course
import Jumpcoin.Node.Marks
import Jumpcoin.Node.Tips
import Jumpcoin.Node.Tree

/-!
# Entries and their places

What happens to a node leaves the entries of the block index where they are: an entry keeps its
hash, its predecessor, its height and its work. New entries come with headers only, and an
activation moves the active chain along the tree.
-/

namespace Jumpcoin

open Check CValidationState NodeCheck

variable {config : Config} {env : Environment} {genesis : Uint256}

/-! ## The operations of an activation -/

variable {r : Outcome Unit × (Node × CValidationState)} {s : Node × CValidationState}

lemma DisconnectTipEnds.index (hends : DisconnectTipEnds env s r) :
    r.2.1.mapBlockIndex = s.1.mapBlockIndex := by
  cases hends <;> rfl

lemma DisconnectTipEnds.treelike (hends : DisconnectTipEnds env s r)
    (hnode : s.1.Treelike genesis) : r.2.1.Treelike genesis := by
  cases hends with
  | stopped => exact hnode
  | unflushed => exact hnode.sameIndex (.refl _) rfl
  | disconnected => exact ⟨hnode.tree, hnode.active.tail⟩

variable {hash : Uint256} {pblock : Option CBlock} {block : CBlock}

/-- The entry of a connected block keeps its place and its flags. -/
lemma tipConnection_sameFlags {pindexNew : CBlockIndex} {connected : Connected}
    {state : CValidationState} (hkeyed : Keyed s.1.mapBlockIndex)
    (hlookup : s.1.mapBlockIndex.lookup hash = some pindexNew)
    (h : tipConnection config env s block pindexNew = (.returned connected, state)) :
    SameFlags s.1.mapBlockIndex (s.1.withConnected config block connected).mapBlockIndex := by
  obtain rfl := hkeyed hash pindexNew hlookup
  change SameFlags _ (s.1.mapBlockIndex.insert connected.pindex.hashBlock connected.pindex)
  obtain ⟨-, heq⟩ | ⟨-, nStakeModifier, heq⟩ := connectBlock_pindex h
  · rw [heq]
    exact .insert hlookup (.refl _) rfl rfl
  · rw [heq]
    exact .insert hlookup ⟨rfl, rfl, rfl, rfl, rfl⟩ (BlockStatus.failedValid_raiseValidity _ _)
      (BlockStatus.failedChild_raiseValidity _ _)

lemma invalidBlockFound_sameIndex (hash : Uint256) (node : Node) (state : CValidationState) :
    SameIndex node.mapBlockIndex (invalidBlockFound hash (node, state)).1.mapBlockIndex ∧
      (invalidBlockFound hash (node, state)).1.chainActive = node.chainActive := by
  unfold invalidBlockFound
  split_ifs
  · exact ⟨node.setStatus_sameIndex _ _, node.setStatus_chainActive _ _⟩
  · exact ⟨.refl _, rfl⟩

lemma ConnectTipEnds.sameIndex (hends : ConnectTipEnds config env hash pblock s r)
    (hkeyed : Keyed s.1.mapBlockIndex) : SameIndex s.1.mapBlockIndex r.2.1.mapBlockIndex := by
  cases hends with
  | asserted => exact .refl _
  | unread => exact .refl _
  | halted => exact .refl _
  | refused => exact (invalidBlockFound_sameIndex _ _ _).1
  | unflushed hlookup hconnected =>
    exact (tipConnection_sameFlags hkeyed hlookup hconnected).toSameIndex
  | connected hlookup _ hconnected =>
    exact (tipConnection_sameFlags hkeyed hlookup hconnected).toSameIndex

lemma ConnectTipEnds.treelike (hends : ConnectTipEnds config env hash pblock s r)
    (hnode : s.1.Treelike genesis) : r.2.1.Treelike genesis := by
  have hsame := hends.sameIndex hnode.tree.keyed
  cases hends with
  | asserted => exact hnode
  | unread => exact hnode
  | halted => exact hnode
  | refused => exact hnode.sameIndex hsame (invalidBlockFound_sameIndex _ _ _).2
  | unflushed => exact hnode.sameIndex hsame rfl
  | connected hlookup hprev =>
    obtain ⟨pindex', hlookup', heq⟩ := hsame.kept _ _ hlookup
    exact ⟨hnode.tree.sameIndex hsame,
      .cons hlookup' (heq.pprev.trans hprev) (hnode.active.mono hsame.kept)⟩

lemma Node.dropBranch_sameIndex (node : Node) (above : List CBlockIndex)
    (pindexTest : CBlockIndex) :
    SameIndex node.mapBlockIndex (node.dropBranch above pindexTest).mapBlockIndex ∧
      (node.dropBranch above pindexTest).chainActive = node.chainActive := by
  induction above generalizing node with
  | nil => exact ⟨.refl _, rfl⟩
  | cons pindexFailed above ih =>
    refine ⟨SameIndex.trans ?_ (ih _).1, (ih _).2.trans ?_⟩
    · split_ifs
      · exact node.setStatus_sameIndex _ _
      · exact .refl _
    · split_ifs
      · exact node.setStatus_chainActive _ _
      · rfl

/-- The routine leaves every entry of the index in its place and adds none. -/
def KeepsEntries (s s' : Node × CValidationState) : Prop :=
  Keyed s.1.mapBlockIndex → SameIndex s.1.mapBlockIndex s'.1.mapBlockIndex

instance : Std.Refl KeepsEntries := ⟨fun _ _ => .refl _⟩

instance : IsTrans (Node × CValidationState) KeepsEntries :=
  ⟨fun _ _ _ h h' hkeyed => (h hkeyed).trans (h' (hkeyed.sameIndex (h hkeyed)))⟩

lemma entries_drops : DropsKeep KeepsEntries :=
  fun s _ _ _ _ _ _ _ _ _ => (s.1.dropBranch_sameIndex _ _).1

lemma entries_operations : OperationsKeep config env KeepsEntries where
  disconnect := by
    intro s _
    have hends := disconnectTip_ends config env s
    rw [hends.index]
    exact .refl _
  connect := fun hash pblock s hkeyed => (connectTip_ends _ _ hash pblock s).sameIndex hkeyed
  pruned := fun _ _ _ _ => .refl _
  dropped := entries_drops
  settled := fun _ _ _ _ => .refl _

lemma tree_drops : DropsKeep (Kept fun s : Node × CValidationState => s.1.Treelike genesis) := by
  intro s pindexNew pindexTest above rest _ _ _ _ hnode
  obtain ⟨hsame, hactive⟩ := s.1.dropBranch_sameIndex above pindexTest
  exact hnode.sameIndex hsame hactive

lemma tree_operations :
    OperationsKeep config env (Kept fun s : Node × CValidationState => s.1.Treelike genesis) where
  disconnect := fun s => (disconnectTip_ends _ _ s).treelike
  connect := fun hash pblock s => (connectTip_ends _ _ hash pblock s).treelike
  pruned := fun _ _ _ hnode => hnode.sameIndex (.refl _) rfl
  dropped := tree_drops
  settled := fun _ _ _ hnode => hnode.sameIndex (.refl _) rfl

/-! ## Headers and blocks -/

variable {node : Node}

lemma Node.Treelike.genesis_known (hnode : node.Treelike genesis) :
    (node.mapBlockIndex.lookup genesis).isSome = true := by
  obtain ⟨pindex, hlookup, -⟩ := hnode.tree.root
  rw [hlookup, Option.isSome_some]

/-- The index has grown by entries that were not too deep below the tip, and the active chain is the
one from before. -/
structure Grown (config : Config) (chain chain' : ChainState) : Prop where
  active : chain'.chainActive = chain.chainActive
  kept : Extends chain.mapBlockIndex chain'.mapBlockIndex
  added : ∀ hash pindex', chain'.mapBlockIndex.lookup hash = some pindex' →
    chain.mapBlockIndex.lookup hash = none →
    withinReorganizationDepth config.params chain.height pindex'.nHeight = true

namespace Grown

variable {chain chain' chain'' : ChainState}

lemma of_sameIndex (hsame : SameIndex chain.mapBlockIndex chain'.mapBlockIndex)
    (hactive : chain'.chainActive = chain.chainActive) : Grown config chain chain' := by
  refine ⟨hactive, hsame.kept, fun hash pindex' hlookup hnone => ?_⟩
  rw [hsame.unknown hash hnone] at hlookup
  cases hlookup

lemma refl (chain : ChainState) : Grown config chain chain := of_sameIndex (.refl _) rfl

lemma trans (h : Grown config chain chain') (h' : Grown config chain' chain'') :
    Grown config chain chain'' := by
  refine ⟨h'.active.trans h.active, h.kept.trans h'.kept, fun hash pindex'' hlookup hnone => ?_⟩
  cases hmiddle : chain'.mapBlockIndex.lookup hash with
  | none =>
    have hwithin := h'.added hash pindex'' hlookup hmiddle
    rwa [ChainState.height, h.active] at hwithin
  | some pindex' =>
    obtain ⟨pindex₁, hlookup₁, hsame⟩ := h'.kept hash pindex' hmiddle
    obtain rfl : pindex₁ = pindex'' := Option.some.inj (hlookup₁.symm.trans hlookup)
    rw [hsame.nHeight]
    exact h.added hash pindex' hmiddle hnone

end Grown

variable {pindex : CBlockIndex} {header : CBlockHeader} {chain : ChainState}

/-- The entry of an accepted header is in the index, which is still a tree. -/
lemma HeaderAccepted.treelike (h : HeaderAccepted config node.toChainState header (chain, pindex))
    (hnode : node.Treelike genesis) :
    Node.Treelike genesis { node with toChainState := chain } ∧
      chain.mapBlockIndex.lookup pindex.hashBlock = some pindex ∧
      Grown config node.toChainState chain := by
  cases h with
  | @genesis pindex₀ _ hlookup =>
    obtain ⟨proofOfStake, hmark⟩ := markStake_status config.params pindex₀
    have hsame : SameIndex node.mapBlockIndex
        (node.mapBlockIndex.insert (header.getHash config.hashes)
          (markStake config.params pindex₀)) :=
      .insert hlookup (hmark ▸ ⟨rfl, rfl, rfl, rfl, rfl⟩)
    refine ⟨hnode.sameIndex hsame rfl, ?_, .of_sameIndex hsame rfl⟩
    rw [hmark, ← hnode.tree.keyed _ _ hlookup]
    exact Finmap.lookup_insert _
  | known hlookup => exact ⟨hnode, by rwa [hnode.tree.keyed _ _ hlookup], .refl _⟩
  | @added pindexPrev hunknown hprev _ hwithin =>
    obtain ⟨proofOfStake, hmark⟩ := markStake_status config.params
      (newBlockIndex config.hashes header (some pindexPrev))
    refine ⟨⟨hnode.tree.insert hunknown (hmark ▸ rfl) (hmark ▸ rfl) hprev (hmark ▸ rfl),
      hnode.active.mono (.insert _ hunknown)⟩, ?_, rfl, .insert _ hunknown, ?_⟩
    · rw [hmark]
      exact Finmap.lookup_insert _
    · intro hash pindex' hlookup hnone
      obtain ⟨rfl, rfl⟩ | ⟨-, hold⟩ := lookup_insert_cases hlookup
      · rw [hmark]
        exact hwithin
      · rw [hnone] at hold
        cases hold

/-- Storing a block changes what is noted about entries, not where they are. -/
lemma StoreBlockEnds.sameIndex (hends : StoreBlockEnds config env block pindex s r)
    (hkeyed : Keyed s.1.mapBlockIndex)
    (hlookup : s.1.mapBlockIndex.lookup pindex.hashBlock = some pindex) :
    SameIndex s.1.mapBlockIndex r.2.1.mapBlockIndex ∧ r.2.1.chainActive = s.1.chainActive := by
  cases hends with
  | halted => exact ⟨.refl _, rfl⟩
  | refused =>
    unfold markIfInvalid
    split_ifs
    · exact ⟨s.1.setStatus_sameIndex _ _, s.1.setStatus_chainActive _ _⟩
    · exact ⟨.refl _, rfl⟩
  | powHeight => exact ⟨.refl _, rfl⟩
  | diskFull => exact ⟨.refl _, rfl⟩
  | @stored state =>
    obtain ⟨hsame, hactive⟩ := stored_sameFlags env block state hkeyed hlookup
    exact ⟨hsame.toSameIndex, hactive⟩

def Node.GrowsTo (config : Config) (node node' : Node) : Prop :=
  node'.Treelike config.params.hashGenesisBlock ∧ Grown config node.toChainState node'.toChainState

/-- A block that comes in adds at most the entry of its header. -/
lemma acceptBlock_grown (block : CBlock) (fRequested : Bool)
    (hnode : s.1.Treelike config.params.hashGenesisBlock) :
    s.1.GrowsTo config (acceptBlock config env block fRequested s).2.1 := by
  have hends := acceptBlock_ends config env block fRequested s
  generalize acceptBlock config env block fRequested s = r at hends
  cases hends with
  | unaccepted => exact ⟨hnode, .refl _⟩
  | ignored haccept =>
    obtain ⟨hnode', -, hgrown⟩ :=
      (acceptBlockHeader_accepted hnode.genesis_known haccept).treelike hnode
    exact ⟨hnode', hgrown⟩
  | processed haccept _ hstore =>
    obtain ⟨hnode', hlookup, hgrown⟩ :=
      (acceptBlockHeader_accepted hnode.genesis_known haccept).treelike hnode
    obtain ⟨hsame, hactive⟩ := hstore.sameIndex hnode'.tree.keyed hlookup
    exact ⟨hnode'.sameIndex hsame hactive, hgrown.trans (.of_sameIndex hsame hactive)⟩

/-- What a header does to a node that has taken some of a message's headers already. -/
lemma acceptBlockHeader_grown {fProofOfStake : Bool} {chain' : ChainState}
    {state state' : CValidationState}
    (hnode : node.GrowsTo config { node with toChainState := chain })
    (h : acceptBlockHeader config chain header fProofOfStake state =
      (.returned (chain', pindex), state')) : node.GrowsTo config { node with toChainState := chain' } := by
  obtain ⟨hnode', -, hgrown⟩ :=
    HeaderAccepted.treelike (acceptBlockHeader_accepted hnode.1.genesis_known h) hnode.1
  exact ⟨hnode', hnode.2.trans hgrown⟩

lemma processHeaders_grown (headers : List CBlockHeader)
    (hnode : node.Treelike config.params.hashGenesisBlock) :
    node.GrowsTo config
      { node with toChainState := processHeaders config node.toChainState headers } :=
  processHeaders_preserves (P := fun chain =>
    node.GrowsTo config { node with toChainState := chain })
    (Q := fun _ => True) (fun _ _ _ _ _ hchain _ h => acceptBlockHeader_grown hchain h)
    (fun _ _ => trivial) ⟨hnode, .refl _⟩

lemma processCompactHeader_grown (header : CBlockHeader)
    (hnode : node.Treelike config.params.hashGenesisBlock) :
    node.GrowsTo config
      { node with toChainState := processCompactHeader config node.toChainState header } :=
  processCompactHeader_preserves
    (P := fun chain => node.GrowsTo config { node with toChainState := chain })
    (Q := fun _ => True) (fun _ _ _ _ _ hchain _ h => acceptBlockHeader_grown hchain h)
    trivial ⟨hnode, .refl _⟩

end Jumpcoin
