import Jumpcoin.Node.AcceptBlock

/-!
# Marks of entries

The failure flags of the entries of a block index, and which of the changes that a node makes to its
entries leave the flags alone: everything but the marking of a failure itself.
-/

namespace Jumpcoin

open Check CValidationState NodeCheck

def failedAt (m : BlockMap) (hash : Uint256) : Bool :=
  (m.lookup hash).any fun pindex => pindex.nStatus.failed

def failedValidAt (m : BlockMap) (hash : Uint256) : Bool :=
  (m.lookup hash).any fun pindex => pindex.nStatus.failedValid

/-! ## Changes of single entries -/

section Entries

variable {m m' : BlockMap} {hash hash' : Uint256} {pindex pindex' : CBlockIndex}

lemma failedAt_of_lookup (h : m.lookup hash = some pindex) :
    failedAt m hash = pindex.nStatus.failed := by
  rw [failedAt, h, Option.any_some]

lemma failedValidAt_of_lookup (h : m.lookup hash = some pindex) :
    failedValidAt m hash = pindex.nStatus.failedValid := by
  rw [failedValidAt, h, Option.any_some]

lemma failedAt_of_failedValidAt (h : failedValidAt m hash = true) : failedAt m hash = true := by
  cases hlookup : m.lookup hash with
  | none =>
    rw [failedValidAt, hlookup] at h
    cases h
  | some pindex =>
    rw [failedValidAt_of_lookup hlookup] at h
    rw [failedAt_of_lookup hlookup, BlockStatus.failed, h, Bool.true_or]

lemma failedAt_insert : failedAt (m.insert hash pindex) hash' =
    if hash' = hash then pindex.nStatus.failed else failedAt m hash' := by
  split_ifs with heq
  · rw [failedAt, heq, Finmap.lookup_insert, Option.any_some]
  · rw [failedAt, failedAt, Finmap.lookup_insert_of_ne _ heq]

lemma failedValidAt_insert : failedValidAt (m.insert hash pindex) hash' =
    if hash' = hash then pindex.nStatus.failedValid else failedValidAt m hash' := by
  split_ifs with heq
  · rw [failedValidAt, heq, Finmap.lookup_insert, Option.any_some]
  · rw [failedValidAt, failedValidAt, Finmap.lookup_insert_of_ne _ heq]

structure SameFlags (m m' : BlockMap) : Prop extends SameIndex m m' where
  failedAt_eq : ∀ hash, failedAt m' hash = failedAt m hash
  failedValidAt_eq : ∀ hash, failedValidAt m' hash = failedValidAt m hash

lemma SameFlags.refl (m : BlockMap) : SameFlags m m :=
  ⟨.refl m, fun _ => rfl, fun _ => rfl⟩

lemma SameFlags.trans {m₁ m₂ m₃ : BlockMap} (h : SameFlags m₁ m₂) (h' : SameFlags m₂ m₃) :
    SameFlags m₁ m₃ :=
  ⟨h.toSameIndex.trans h'.toSameIndex,
    fun hash => (h'.failedAt_eq hash).trans (h.failedAt_eq hash),
    fun hash => (h'.failedValidAt_eq hash).trans (h.failedValidAt_eq hash)⟩

lemma SameFlags.insert (h : m.lookup hash = some pindex) (hsame : SameEntry pindex pindex')
    (hvalid : pindex'.nStatus.failedValid = pindex.nStatus.failedValid)
    (hchild : pindex'.nStatus.failedChild = pindex.nStatus.failedChild) :
    SameFlags m (m.insert hash pindex') := by
  refine ⟨.insert h hsame, fun hash' => ?_, fun hash' => ?_⟩
  · rw [failedAt_insert]
    split_ifs with heq
    · rw [heq, failedAt_of_lookup h, BlockStatus.failed, BlockStatus.failed, hvalid, hchild]
    · rfl
  · rw [failedValidAt_insert]
    split_ifs with heq
    · rw [heq, failedValidAt_of_lookup h, hvalid]
    · rfl

lemma keyed_foldr (entries : List CBlockIndex) :
    Keyed (entries.foldr (fun pindex m => m.insert pindex.hashBlock pindex) ∅) := by
  induction entries with
  | nil =>
    intro hash pindex h
    simp at h
  | cons pindex entries ih => exact ih.insert pindex

@[simp] lemma BlockStatus.failedValid_raiseValidity (status : BlockStatus) (nUpTo : Nat) :
    (status.raiseValidity nUpTo).failedValid = status.failedValid := by
  unfold raiseValidity
  split_ifs <;> rfl

@[simp] lemma BlockStatus.failedChild_raiseValidity (status : BlockStatus) (nUpTo : Nat) :
    (status.raiseValidity nUpTo).failedChild = status.failedChild := by
  unfold raiseValidity
  split_ifs <;> rfl

end Entries

/-! ## Changes of a status -/

namespace Node

variable {hash hash' : Uint256} {node : Node} {pindex : CBlockIndex} {f : BlockStatus → BlockStatus}

lemma setStatus_sameIndex (node : Node) (hash : Uint256) (f : BlockStatus → BlockStatus) :
    SameIndex node.mapBlockIndex (node.setStatus hash f).mapBlockIndex := by
  unfold setStatus
  cases h : node.mapBlockIndex.lookup hash with
  | none => exact .refl _
  | some pindex => exact .insert h ⟨rfl, rfl, rfl, rfl, rfl⟩

@[simp] lemma setStatus_chainActive (node : Node) (hash : Uint256) (f : BlockStatus → BlockStatus) :
    (node.setStatus hash f).chainActive = node.chainActive := by
  unfold setStatus
  cases node.mapBlockIndex.lookup hash <;> rfl

lemma failedAt_setStatus (h : node.mapBlockIndex.lookup hash = some pindex) :
    failedAt (node.setStatus hash f).mapBlockIndex hash' =
      if hash' = hash then (f pindex.nStatus).failed else failedAt node.mapBlockIndex hash' := by
  simp only [setStatus, h, failedAt_insert]

lemma failedValidAt_setStatus (h : node.mapBlockIndex.lookup hash = some pindex) :
    failedValidAt (node.setStatus hash f).mapBlockIndex hash' =
      if hash' = hash then (f pindex.nStatus).failedValid
      else failedValidAt node.mapBlockIndex hash' := by
  simp only [setStatus, h, failedValidAt_insert]

lemma setStatus_of_unknown (h : node.mapBlockIndex.lookup hash = none) :
    node.setStatus hash f = node := by
  simp only [setStatus, h]

lemma failedValidAt_markFailedChild (node : Node) (hash hash' : Uint256) :
    failedValidAt (node.markFailedChild hash).mapBlockIndex hash' =
      failedValidAt node.mapBlockIndex hash' := by
  unfold markFailedChild
  cases h : node.mapBlockIndex.lookup hash with
  | none => rw [setStatus_of_unknown h]
  | some pindex =>
    rw [failedValidAt_setStatus h]
    split_ifs with heq
    · rw [heq, failedValidAt_of_lookup h]
    · rfl

lemma failedAt_markFailedChild
    (hflag : failedAt (node.markFailedChild hash).mapBlockIndex hash' = true) :
    failedAt node.mapBlockIndex hash' = true ∨ hash' = hash := by
  unfold markFailedChild at hflag
  cases h : node.mapBlockIndex.lookup hash with
  | none =>
    rw [setStatus_of_unknown h] at hflag
    exact .inl hflag
  | some pindex =>
    rw [failedAt_setStatus h] at hflag
    split_ifs at hflag with heq
    · exact .inr heq
    · exact .inl hflag

lemma failedValidAt_markFailedValid (hmarked : failedValidAt node.mapBlockIndex hash' = true) :
    failedValidAt (node.markFailedValid hash).mapBlockIndex hash' = true := by
  unfold markFailedValid
  cases h : node.mapBlockIndex.lookup hash with
  | none => rwa [setStatus_of_unknown h]
  | some pindex =>
    rw [failedValidAt_setStatus h]
    split_ifs
    · rfl
    · exact hmarked

lemma failedAt_markFailedValid
    (hflag : failedAt (node.markFailedValid hash).mapBlockIndex hash' = true) :
    failedAt node.mapBlockIndex hash' = true ∨
      failedValidAt (node.markFailedValid hash).mapBlockIndex hash' = true := by
  unfold markFailedValid at hflag ⊢
  cases h : node.mapBlockIndex.lookup hash with
  | none =>
    rw [setStatus_of_unknown h] at hflag
    exact .inl hflag
  | some pindex =>
    rw [failedAt_setStatus h] at hflag
    rw [failedValidAt_setStatus h]
    split_ifs at hflag ⊢ with heq
    · exact .inr rfl
    · exact .inl hflag

/-! ## Received blocks -/

lemma linkBlock_sameFlags (hkeyed : Keyed node.mapBlockIndex) (hash : Uint256) :
    SameFlags node.mapBlockIndex (node.linkBlock hash).1.mapBlockIndex := by
  unfold linkBlock
  cases hlookup : node.mapBlockIndex.lookup hash with
  | none => exact .refl _
  | some pindex =>
    obtain rfl := hkeyed hash pindex hlookup
    have hset : ∀ nChainTx nSequenceId, SameFlags node.mapBlockIndex
        (node.mapBlockIndex.insert pindex.hashBlock { pindex with nChainTx, nSequenceId }) :=
      fun _ _ => .insert hlookup ⟨rfl, rfl, rfl, rfl, rfl⟩ rfl rfl
    dsimp only
    split_ifs <;> exact hset _ _

@[simp] lemma linkBlock_chainActive (node : Node) (hash : Uint256) :
    (node.linkBlock hash).1.chainActive = node.chainActive := by
  unfold linkBlock
  cases node.mapBlockIndex.lookup hash with
  | none => rfl
  | some pindex =>
    dsimp only
    split_ifs <;> rfl

lemma linkQueue_sameFlags (hkeyed : Keyed node.mapBlockIndex) (fuel : Nat) (queue : List Uint256) :
    SameFlags node.mapBlockIndex (linkQueue fuel node queue).mapBlockIndex ∧
      (linkQueue fuel node queue).chainActive = node.chainActive := by
  induction fuel generalizing node queue with
  | zero => exact ⟨.refl _, rfl⟩
  | succ fuel ih =>
    cases queue with
    | nil => exact ⟨.refl _, rfl⟩
    | cons hash queue =>
      have hlink := linkBlock_sameFlags hkeyed hash
      obtain ⟨hrest, hactive⟩ := ih (hkeyed.sameIndex hlink.toSameIndex)
        (queue ++ (node.linkBlock hash).2)
      exact ⟨hlink.trans hrest, hactive.trans (linkBlock_chainActive node hash)⟩

lemma receivedIndex_sameFlags (block : CBlock)
    (hlookup : node.mapBlockIndex.lookup pindex.hashBlock = some pindex) :
    SameFlags node.mapBlockIndex (node.setIndex (receivedIndex pindex block)).mapBlockIndex :=
  .insert hlookup ⟨rfl, rfl, rfl, rfl, rfl⟩ (BlockStatus.failedValid_raiseValidity _ _)
    (BlockStatus.failedChild_raiseValidity _ _)

lemma receivedBlockTransactions_sameFlags (block : CBlock) (hkeyed : Keyed node.mapBlockIndex)
    (hlookup : node.mapBlockIndex.lookup pindex.hashBlock = some pindex) :
    SameFlags node.mapBlockIndex
        (node.receivedBlockTransactions block pindex).mapBlockIndex ∧
      (node.receivedBlockTransactions block pindex).chainActive = node.chainActive := by
  have hset := receivedIndex_sameFlags block hlookup
  have hqueue := linkQueue_sameFlags (hkeyed.sameIndex hset.toSameIndex)
    ((node.setIndex (receivedIndex pindex block)).mapBlocksUnlinked.length + 1) [pindex.hashBlock]
  unfold receivedBlockTransactions
  dsimp only
  split
  · exact ⟨hset.trans hqueue.1, hqueue.2⟩
  · split_ifs
    · exact ⟨hset.trans hqueue.1, hqueue.2⟩
    · exact ⟨hset, rfl⟩
    · exact ⟨hset, rfl⟩

end Node

lemma stored_sameFlags (env : Environment) {node : Node} {pindex : CBlockIndex} (block : CBlock)
    (state : CValidationState) (hkeyed : Keyed node.mapBlockIndex)
    (hlookup : node.mapBlockIndex.lookup pindex.hashBlock = some pindex) :
    let stored := (writeBlockToDisk env pindex.hashBlock block (node, state)).2.1
      |>.receivedBlockTransactions block pindex
    SameFlags node.mapBlockIndex stored.mapBlockIndex ∧ stored.chainActive = node.chainActive := by
  unfold writeBlockToDisk
  cases env.writeBlockToDisk pindex.hashBlock with
  | true =>
    exact @Node.receivedBlockTransactions_sameFlags
      { node with blockFiles := node.blockFiles.insert _ block } pindex block hkeyed hlookup
  | false => exact Node.receivedBlockTransactions_sameFlags block hkeyed hlookup

end Jumpcoin
