import Jumpcoin.Node.Places

/-!
# The depth of reorganisations

`ContextualCheckBlockHeader` refuses a header that is `nMaxReorganizationDepth` or more blocks below
the tip, with the words "forked chain older than max reorganization depth". The check is made once,
when the header arrives. A switch to the branch of that header comes when its blocks have arrived,
and disconnects whatever has been connected above the fork by then.

A run of a node is followed here together with the height that the active chain had when each entry
was added.
-/

namespace Jumpcoin

open Check Codec CValidationState NodeCheck List

variable {config : Config} {env : Environment} {genesis : Uint256}

/-! ## What a switch disconnects -/

def blocksDisconnected (config : Config) (env : Environment) (pindexMostWork : CBlockIndex)
    (s : Node × CValidationState) : Nat :=
  s.1.chainActive.length - (disconnectPhase config env pindexMostWork s).2.1.chainActive.length

lemma ActiveChain.of_append {m : BlockMap} {l l' : List Uint256} (h : ActiveChain m (l ++ l')) :
    ActiveChain m l' := by
  induction l with
  | nil => exact h
  | cons hash l ih => exact ih h.tail

variable {pindex : CBlockIndex} {hash : Uint256} {node : Node} {s : Node × CValidationState}

/-- An entry on the active chain has as many blocks below it as its height says. -/
lemma Node.Treelike.split (hnode : node.Treelike genesis)
    (hlookup : node.mapBlockIndex.lookup hash = some pindex) (hmem : hash ∈ node.chainActive) :
    ∃ above below, node.chainActive = above ++ hash :: below ∧ hash ∉ above ∧
      below.length = pindex.nHeight := by
  obtain ⟨above, below, hsplit, habove⟩ := eq_append_cons_of_mem hmem
  refine ⟨above, below, hsplit, habove, ?_⟩
  have hactive := hnode.active
  rw [hsplit] at hactive
  rw [← heightOf_of_lookup hlookup, hactive.of_append.height_head hnode.tree]

/-- Disconnecting never goes beyond the fork, and gets there if nothing fails. -/
lemma disconnectTo_above {fork : Uint256} {blocks : Nat} {above below : List Uint256}
    (hsplit : s.1.chainActive = above ++ fork :: below) (hfork : fork ∉ above) :
    below.length + 1 ≤ (disconnectTo config env (some fork) blocks s).2.1.chainActive.length ∧
      ((disconnectTo config env (some fork) blocks s).1 = .returned () → above.length ≤ blocks →
        (disconnectTo config env (some fork) blocks s).2.1.chainActive = fork :: below) := by
  induction blocks generalizing s above with
  | zero =>
    refine ⟨by simp [disconnectTo, pure_apply, hsplit], fun _ hle => ?_⟩
    obtain rfl := length_eq_zero_iff.mp (Nat.le_zero.mp hle)
    exact hsplit
  | succ blocks ih =>
    unfold disconnectTo
    rw [readNode_bind]
    cases above with
    | nil =>
      rw [nil_append] at hsplit
      rw [if_pos (.inr (by rw [hsplit, head?_cons]))]
      exact ⟨by simp [pure_apply, hsplit], fun _ _ => hsplit⟩
    | cons hash above =>
      obtain ⟨hne, hfork⟩ := not_or.mp (mt mem_cons.mpr hfork)
      rw [if_neg (by simp [hsplit, Ne.symm hne])]
      have hends := disconnectTip_ends config env s
      rcases hr : disconnectTip config env s with ⟨outcome, s'⟩
      rw [hr] at hends
      cases hends with
      | @stopped outcome _ hstop =>
        have hlen : below.length + 1 ≤ s.1.chainActive.length := by
          simp only [hsplit, length_cons, length_append]
          omega
        cases outcome with
        | returned => exact absurd rfl hstop
        | refused =>
          rw [bind_refused hr]
          exact ⟨hlen, fun h => by simp at h⟩
        | halted =>
          rw [bind_halted hr]
          exact ⟨hlen, fun h => by simp at h⟩
      | unflushed =>
        rw [bind_refused hr]
        refine ⟨?_, fun h => by simp at h⟩
        simp only [Node.withDisconnected, hsplit, length_cons, length_append]
        omega
      | @disconnected hashes view block _ =>
        rw [bind_returned hr]
        have htail : ((s.1.withDisconnected hashes block view).withoutTip env block).chainActive =
            above ++ fork :: below := by
          simp [Node.withoutTip, Node.withDisconnected, hsplit]
        obtain ⟨hlen, hreach⟩ := @ih
          ((s.1.withDisconnected hashes block view).withoutTip env block, s.2)
          above htail hfork
        exact ⟨hlen, fun h hle => hreach h (Nat.le_of_succ_le_succ hle)⟩

variable {fork : CBlockIndex} {start : Node}

/-- The fork is an ancestor of the target on the active chain. -/
lemma Node.Treelike.findFork_spec (hnode : node.Treelike genesis)
    (hlookup : node.mapBlockIndex.lookup hash = some pindex)
    (hfork : node.findFork pindex = some fork) :
    node.mapBlockIndex.lookup fork.hashBlock = some fork ∧ fork.hashBlock ∈ node.chainActive := by
  obtain ⟨hashFork, hlookup', -⟩ := (hnode.tree.mem_pathOf hlookup).mp (mem_of_find?_eq_some hfork)
  have hhash := hnode.tree.keyed hashFork fork hlookup'
  rw [hhash]
  exact ⟨hlookup', (hnode.contains_iff hlookup').mp (find?_some hfork)⟩

/-- A switch that is not interrupted disconnects the blocks above the fork, and no switch
disconnects more. -/
lemma blocksDisconnected_le (hnode : s.1.Treelike genesis)
    (hlookup : s.1.mapBlockIndex.lookup hash = some pindex)
    (hfork : s.1.findFork pindex = some fork) :
    (blocksDisconnected config env pindex s : Int) ≤ s.1.height - fork.nHeight ∧
      ((disconnectPhase config env pindex s).1 = .returned () →
        (blocksDisconnected config env pindex s : Int) = s.1.height - fork.nHeight) := by
  obtain ⟨hknown, hmem⟩ := hnode.findFork_spec hlookup hfork
  obtain ⟨above, below, hsplit, habove, hbelow⟩ := hnode.split hknown hmem
  have hphase : disconnectPhase config env pindex s =
      disconnectTo config env (some fork.hashBlock) s.1.chainActive.length s := by
    unfold disconnectPhase
    rw [readNode_bind, hfork, Option.map_some]
  obtain ⟨hlen, hreach⟩ : _ ∧ ((disconnectTo config env (some fork.hashBlock)
      s.1.chainActive.length s).1 = _ → _) := disconnectTo_above hsplit habove
  have hlength : s.1.chainActive.length = above.length + (below.length + 1) := by
    rw [hsplit, length_append, length_cons]
  rw [blocksDisconnected, hphase, ChainState.height, ← hbelow]
  refine ⟨by omega, fun hreturned => ?_⟩
  rw [hreach hreturned (by omega), length_cons]
  omega

/-! ## Runs -/

/-- A node with the height that the active chain had when each entry was added. -/
structure History where
  node : Node
  heightAt : Uint256 → Int

/-- The node has changed; entries that are new are noted. -/
def History.after (s : History) (node' : Node) : History where
  node := node'
  heightAt hash := if (s.node.mapBlockIndex.lookup hash).isSome then s.heightAt hash else
    s.node.height

/-- Headers and blocks come in, and the best chain is activated step by step: a candidate is
searched for, and the active chain is switched to it as far as a call of `ActivateBestChainStep`
gets. All the rest leaves the index and the active chain alone. -/
inductive ReorgRun (config : Config) (start : Node) : History → Prop
  | start : ReorgRun config start ⟨start, fun _ => start.height⟩
  | headers {s : History} (headers : List CBlockHeader) : ReorgRun config start s →
      ReorgRun config start (s.after
        { s.node with toChainState := processHeaders config s.node.toChainState headers })
  | compact {s : History} (header : CBlockHeader) : ReorgRun config start s →
      ReorgRun config start (s.after
        { s.node with toChainState := processCompactHeader config s.node.toChainState header })
  | block {s : History} (env : Environment) (block : CBlock) (fRequested : Bool) :
      ReorgRun config start s →
      ReorgRun config start (s.after (acceptBlock config env block fRequested (s.node, .init)).2.1)
  | searched {s : History} (state : CValidationState) : ReorgRun config start s →
      ReorgRun config start (s.after (findMostWorkChain (s.node, state)).2.1)
  | switched {s : History} (env : Environment) (hash : Uint256) (pblock : Option CBlock)
      (state : CValidationState) : ReorgRun config start s →
      ReorgRun config start
        (s.after (activateBestChainStep config env hash pblock (s.node, state)).2.1)
  | elsewhere {s : History} {node' : Node} : ReorgRun config start s →
      node'.mapBlockIndex = s.node.mapBlockIndex → node'.chainActive = s.node.chainActive →
      ReorgRun config start (s.after node')

/-- Entries that were added since the start were within the depth limit when they were added. -/
structure History.Within (config : Config) (start : Node) (s : History) : Prop
    extends s.node.Treelike config.params.hashGenesisBlock where
  kept : Extends start.mapBlockIndex s.node.mapBlockIndex
  within : ∀ hash pindex, s.node.mapBlockIndex.lookup hash = some pindex →
    start.mapBlockIndex.lookup hash = none →
    withinReorganizationDepth config.params (s.heightAt hash) pindex.nHeight = true

namespace History.Within

variable {start : Node} {s : History} {node' : Node}

lemma after (h : s.Within config start) (hnode' : node'.Treelike config.params.hashGenesisBlock)
    (hkept : Extends s.node.mapBlockIndex node'.mapBlockIndex)
    (hadded : ∀ hash pindex', node'.mapBlockIndex.lookup hash = some pindex' →
      s.node.mapBlockIndex.lookup hash = none →
      withinReorganizationDepth config.params s.node.height pindex'.nHeight = true) :
    (s.after node').Within config start := by
  refine ⟨hnode', h.kept.trans hkept, fun hash pindex' hlookup hnew => ?_⟩
  cases hold : s.node.mapBlockIndex.lookup hash with
  | none =>
    have hheight : (s.after node').heightAt hash = s.node.height := by
      simp [History.after, hold]
    rw [hheight]
    exact hadded hash pindex' hlookup hold
  | some pindex =>
    have hheight : (s.after node').heightAt hash = s.heightAt hash := by
      simp [History.after, hold]
    obtain ⟨pindex₁, hlookup₁, hsame⟩ := hkept hash pindex hold
    obtain rfl : pindex₁ = pindex' := Option.some.inj (hlookup₁.symm.trans hlookup)
    rw [hheight, hsame.nHeight]
    exact h.within hash pindex hold hnew

lemma grown (h : s.Within config start) (hgrown : s.node.GrowsTo config node') :
    (s.after node').Within config start :=
  h.after hgrown.1 hgrown.2.kept hgrown.2.added

lemma sameIndex (h : s.Within config start) (hnode' : node'.Treelike config.params.hashGenesisBlock)
    (hsame : SameIndex s.node.mapBlockIndex node'.mapBlockIndex) :
    (s.after node').Within config start := by
  refine h.after hnode' hsame.kept fun hash pindex' hlookup hnone => ?_
  rw [hsame.unknown hash hnone] at hlookup
  cases hlookup

end History.Within

lemma ReorgRun.within {s : History} (hrun : ReorgRun config start s)
    (hstart : start.Treelike config.params.hashGenesisBlock) : s.Within config start := by
  induction hrun with
  | start =>
    refine ⟨hstart, .refl _, fun hash pindex hlookup hnone => ?_⟩
    rw [hnone] at hlookup
    cases hlookup
  | headers headers _ ih => exact ih.grown (processHeaders_grown headers ih.toTreelike)
  | compact header _ ih => exact ih.grown (processCompactHeader_grown header ih.toTreelike)
  | @block s env block fRequested _ ih =>
    exact ih.grown (acceptBlock_grown (s := (s.node, .init)) block fRequested ih.toTreelike)
  | @searched s state _ ih =>
    exact ih.sameIndex (tree_drops.findMostWorkChain (s.node, state) ih.toTreelike)
      (entries_drops.findMostWorkChain (s.node, state) ih.tree.keyed)
  | @switched s env hash pblock state _ ih =>
    exact ih.sameIndex
      (tree_operations.activateBestChainStep hash pblock (s.node, state) ih.toTreelike)
      (entries_operations.activateBestChainStep hash pblock (s.node, state) ih.tree.keyed)
  | elsewhere _ hindex hactive ih =>
    exact ih.sameIndex (ih.toTreelike.sameIndex (hindex ▸ .refl _) hactive) (hindex ▸ .refl _)

/-- A call of `ActivateBestChain` is a series of searches and switches. -/
lemma ReorgRun.activated {s : History} (hrun : ReorgRun config start s)
    (pblock : Option CBlock) (passes : Nat) (state : CValidationState) :
    ∃ s', ReorgRun config start s' ∧
      s'.node = (activateBestChain config env pblock passes (s.node, state)).2.1 := by
  let R : Node × CValidationState → Node × CValidationState → Prop := Kept fun t =>
    ∃ s', ReorgRun config start s' ∧ s'.node = t.1
  have hpasses : PassesKeep config env R := by
    refine ⟨?_, ?_, fun t state => id⟩
    · rintro ⟨node, state⟩ ⟨s', hrun', rfl⟩
      exact ⟨_, .searched state hrun', rfl⟩
    · rintro hash pblock ⟨node, state⟩ ⟨s', hrun', rfl⟩
      exact ⟨_, .switched env hash pblock state hrun', rfl⟩
  exact hpasses.activateBestChainLoop pblock passes none (s.node, state) ⟨s, hrun, rfl⟩

/-! ## The depth of a switch -/

def Node.branchStart (node : Node) (pindex : CBlockIndex) : Option CBlockIndex :=
  (node.branch pindex).getLast?

lemma Node.Treelike.branchStart_height (hnode : node.Treelike genesis) {first : CBlockIndex}
    (hlookup : node.mapBlockIndex.lookup hash = some pindex)
    (hfork : node.findFork pindex = some fork) (hfirst : node.branchStart pindex = some first) :
    node.mapBlockIndex.lookup first.hashBlock = some first ∧
      first.nHeight = fork.nHeight + 1 := by
  obtain ⟨hcontains, above, below, hpath, habove⟩ := find?_eq_some_iff_append.mp hfork
  have hbranch : node.branch pindex = above := by
    rw [Node.branch, hpath, takeWhile_append_of_pos habove, takeWhile_cons_of_neg (by
      simp [hcontains]), append_nil]
  rw [Node.branchStart, hbranch] at hfirst
  obtain ⟨rest, rfl⟩ := getLast?_eq_some_iff.mp hfirst
  rw [append_assoc, singleton_append] at hpath
  exact ⟨(hnode.tree.pathOf_suffix hlookup hpath).1, (hnode.tree.pathOf_next hlookup hpath).2⟩

lemma withinReorganizationDepth_iff {params : Params} {nActiveHeight nHeight : Int} :
    withinReorganizationDepth params nActiveHeight nHeight = true ↔
      nActiveHeight - nHeight < params.nMaxReorganizationDepth := by
  rw [withinReorganizationDepth, Bool.not_eq_true', decide_eq_false_iff_not, not_le]

/-- At any time in a run, a switch of the active chain disconnects no more than
`nMaxReorganizationDepth` blocks exactly if a header on top of the fork would still be accepted.
That is so if the active chain is not higher than it was when the first header of the branch was
accepted. -/
theorem reorgRun_depth {start : Node} {s : History}
    (hstart : start.Treelike config.params.hashGenesisBlock) (hrun : ReorgRun config start s)
    {hash : Uint256} {pindex fork : CBlockIndex}
    (hlookup : s.node.mapBlockIndex.lookup hash = some pindex)
    (hfork : s.node.findFork pindex = some fork) (env : Environment) (state : CValidationState) :
    ((disconnectPhase config env pindex (s.node, state)).1 = .returned () →
      ((blocksDisconnected config env pindex (s.node, state) : Int) ≤
          config.params.nMaxReorganizationDepth ↔
        withinReorganizationDepth config.params s.node.height (fork.nHeight + 1) = true)) ∧
    ∀ first, s.node.branchStart pindex = some first →
      start.mapBlockIndex.lookup first.hashBlock = none →
      s.node.height ≤ s.heightAt first.hashBlock →
      (blocksDisconnected config env pindex (s.node, state) : Int) ≤
        config.params.nMaxReorganizationDepth := by
  have hwithin := hrun.within hstart
  obtain ⟨hle, heq⟩ : (blocksDisconnected config env pindex (s.node, state) : Int) ≤
      s.node.height - fork.nHeight ∧ (_ → _ = s.node.height - fork.nHeight) :=
    blocksDisconnected_le (s := (s.node, state)) hwithin.toTreelike hlookup hfork
  constructor
  · intro hreturned
    rw [heq hreturned, withinReorganizationDepth_iff]
    omega
  · intro first hfirst hnew hheight
    obtain ⟨hknown, hup⟩ := hwithin.toTreelike.branchStart_height hlookup hfork hfirst
    have hdepth := withinReorganizationDepth_iff.mp (hwithin.within _ _ hknown hnew)
    omega

/-- At any time in a run the index is a tree on the genesis block that holds all earlier entries in
their places, and the active chain is a path in it, with each block at its height. -/
theorem reorgRun_treelike {start : Node} {s : History}
    (hstart : start.Treelike config.params.hashGenesisBlock) (hrun : ReorgRun config start s) :
    s.node.Treelike config.params.hashGenesisBlock ∧
      Extends start.mapBlockIndex s.node.mapBlockIndex ∧
      ∀ i hash, s.node.chainActive.reverse[i]? = some hash →
        heightOf s.node.mapBlockIndex hash = i := by
  have hwithin := hrun.within hstart
  exact ⟨hwithin.toTreelike, hwithin.kept, fun i hash hi => hwithin.active.height hwithin.tree hi⟩

/-! ## A branch whose data comes late -/

def nonceHash (bytes : Bytes) : Uint256 :=
  if bytes.length = 80 then
    BitVec.ofNat 256 ((bytes.drop 76).foldr (fun byte n => n * 256 + byte.toNat) 0)
  else toyHash bytes

/-- A node in regression-test mode in which blocks are named by their nonces. -/
def towerConfig : Config :=
  { toyConfig with crypto := { toyCrypto with hash256 := nonceHash } }

/-- The block of a given height with a given name, on the block with another; its coinbase creates
no coins. -/
def towerBlock (nHeight nPrev nNonce : Nat) : CBlock :=
  let nTime := UInt32.ofNat (1699990000 + 16 * nHeight)
  let coinBase : CTransaction :=
    { toyCoinBase with
      nTime
      vin := [⟨⟨0, 0xffffffff⟩, pushHeight nHeight ++ [0], 0xffffffff⟩]
      vout := [⟨0, [0x6a]⟩] }
  { toyBlock [coinBase] with
    hashPrevBlock := BitVec.ofNat 256 nPrev
    hashMerkleRoot :=
      (computeMerkleRoot towerConfig.hashes [coinBase.getHash towerConfig.hashes]).1
    nTime
    nNonce := UInt32.ofNat nNonce }

def towerIndex (nHeight : Nat) : CBlockIndex :=
  { toyIndex (BitVec.ofNat 256 (100 + nHeight))
      (if nHeight = 0 then none else some (BitVec.ofNat 256 (99 + nHeight))) nHeight
      (UInt32.ofNat (1699990000 + 16 * nHeight)) with
    nChainWork := BitVec.ofNat 256 (65537 * (nHeight + 1)) }

def towerNode : Node where
  mapBlockIndex := (List.range 51).foldr
    (fun nHeight m => m.insert (BitVec.ofNat 256 (100 + nHeight)) (towerIndex nHeight)) ∅
  chainActive := (List.range 51).reverse.map fun nHeight => BitVec.ofNat 256 (100 + nHeight)
  pcoinsTip := ⟨∅, 150⟩
  mempool := ∅
  blockFiles := (List.range 51).foldr (fun nHeight m => m.insert (BitVec.ofNat 256 (100 + nHeight))
    (towerBlock nHeight (99 + nHeight) (100 + nHeight))) ∅
  txIndex := ∅
  adjustedTime := 1700001000
  undoFiles := (List.range 51).foldr (fun nHeight m => m.insert (BitVec.ofNat 256 (100 + nHeight))
    (CBlockUndo.undoWriteToDisk towerConfig.hashes towerConfig.keys ⟨[]⟩
      (BitVec.ofNat 256 (99 + nHeight)))) ∅
  setBlockIndexCandidates := [150]
  mapBlocksUnlinked := []
  nBlockSequenceId := 1

def towerTop : CBlock := towerBlock 51 150 151

/-- The block of a given height, from 1 on, of a branch on the genesis block. -/
def towerRival (nHeight : Nat) : CBlock :=
  towerBlock nHeight (if nHeight = 1 then 100 else 199 + nHeight) (200 + nHeight)

def towerRivals (nHeight : Nat) : List CBlock :=
  (List.range nHeight).map fun n => towerRival (n + 1)

def towerHeaders (nHeight : Nat) : Node :=
  { towerNode with
    toChainState := processHeaders towerConfig towerNode.toChainState
      ((towerRivals nHeight).map CBlock.toCBlockHeader) }

def towerProcess (node : Node) (block : CBlock) : Node :=
  (activateBestChain towerConfig toyEnvironment none 1
    ((acceptBlock towerConfig toyEnvironment block true (node, .init)).2.1, .init)).2.1

/-- The node after the active chain has grown by a block and the branch has come in. -/
def towerFull : Node :=
  (acceptBlock towerConfig toyEnvironment (towerRival 52) true
    ((towerTop :: towerRivals 51).foldl towerProcess (towerHeaders 52), .init)).2.1

lemma ReorgRun.towerProcess (blocks : List CBlock)
    (hrun : ∃ s, ReorgRun towerConfig start s ∧ s.node = node) :
    ∃ s, ReorgRun towerConfig start s ∧ s.node = blocks.foldl towerProcess node := by
  induction blocks generalizing node with
  | nil => exact hrun
  | cons block blocks ih =>
    obtain ⟨s, hrun, rfl⟩ := hrun
    exact ih ((hrun.block toyEnvironment block true).activated none 1 .init)

/-- A switch to a block that has just come in disconnects 50 blocks at most. -/
theorem towerRival_depth :
    towerNode.Treelike 100 ∧
      ∃ pindex ∈ (towerHeaders 1).mapBlockIndex.lookup 201,
        (blocksDisconnected towerConfig toyEnvironment pindex (towerHeaders 1, .init) : Int) ≤
          50 := by
  have hstart : towerNode.Treelike 100 := ⟨by decide +kernel, by decide +kernel⟩
  have hfound : ∃ pindex ∈ (towerHeaders 1).mapBlockIndex.lookup 201,
      ∃ fork ∈ (towerHeaders 1).findFork pindex,
        ∃ first ∈ (towerHeaders 1).branchStart pindex,
          towerNode.mapBlockIndex.lookup first.hashBlock = none := by
    decide +kernel
  obtain ⟨pindex, hlookup, fork, hfork, first, hfirst, hnew⟩ := hfound
  let s : History := (History.mk towerNode fun _ => towerNode.height).after (towerHeaders 1)
  have hrun : ReorgRun towerConfig towerNode s :=
    .headers ((towerRivals 1).map CBlock.toCBlockHeader) .start
  obtain ⟨-, hdepth⟩ := reorgRun_depth hstart hrun hlookup hfork toyEnvironment .init
  refine ⟨hstart, pindex, hlookup, hdepth first hfirst hnew ?_⟩
  have hheight : s.heightAt first.hashBlock = towerNode.height := by
    simp [s, History.after]
  rw [hheight]
  decide +kernel

theorem towerHeaders_treelike : (towerHeaders 1).Treelike 100 := by
  have hstart : towerNode.Treelike 100 := ⟨by decide +kernel, by decide +kernel⟩
  have hrun : ReorgRun towerConfig towerNode (.after ⟨towerNode, _⟩ (towerHeaders 1)) :=
    .headers ((towerRivals 1).map CBlock.toCBlockHeader) .start
  exact (reorgRun_treelike hstart hrun).1

/-- The headers of a branch on the genesis block are accepted when the active chain has height 50.
When all blocks of the branch have come the active chain has grown, and the switch to the branch
disconnects 51 blocks. -/
theorem towerRivals_depth :
    towerConfig.params.nMaxReorganizationDepth = 50 ∧
      (∃ s, ReorgRun towerConfig towerNode s ∧ s.node = towerFull) ∧
      (findMostWorkChain (towerFull, .init)).1 = .returned (some 252) ∧
      ∃ pindex ∈ towerFull.mapBlockIndex.lookup 252,
        (disconnectPhase towerConfig toyEnvironment pindex (towerFull, .init)).1 = .returned () ∧
        blocksDisconnected towerConfig toyEnvironment pindex (towerFull, .init) = 51 := by
  have hheaders : ∃ s, ReorgRun towerConfig towerNode s ∧ s.node = towerHeaders 52 :=
    ⟨_, .headers ((towerRivals 52).map CBlock.toCBlockHeader) .start, rfl⟩
  obtain ⟨s, hrun, hnode⟩ := ReorgRun.towerProcess (towerTop :: towerRivals 51) hheaders
  refine ⟨by decide, ⟨_, hrun.block toyEnvironment (towerRival 52) true, ?_⟩, by decide +kernel⟩
  rw [towerFull, ← hnode]
  rfl

end Jumpcoin
