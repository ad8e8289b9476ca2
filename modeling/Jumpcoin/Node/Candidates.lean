import Jumpcoin.Foundation.Sequences
import Jumpcoin.Node.Activation

/-!
# The search for the best candidate

`CBlockIndexWorkComparator` is a strict order, total on entries with different hashes: more work is
better, then the lower sequence number, then the lower hash. The last element of the set of
candidates is one that no other candidate exceeds. A turn of `FindMostWorkChain` settles on it, or
drops it because of an entry on its branch that cannot be used.
-/

namespace Jumpcoin

open Check NodeCheck List

variable {pindex : CBlockIndex} {node : Node} {hash : Uint256}

namespace Node

lemma bestCandidate_mem (h : node.bestCandidate = some pindex) : pindex ∈ node.candidates := by
  have heq : node.bestCandidate = node.candidates.foldl (keepBest workLess) none := by
    unfold bestCandidate
    congr 1
    funext best pindex
    cases best <;> rfl
  rcases foldl_keepBest_mem (heq.symm.trans h) with hmem | hnone
  · exact hmem
  · cases hnone

end Node

/-! ## Turns of the search -/

/-- What a turn of `FindMostWorkChain` does. -/
inductive SearchTurn (turns : Nat) (s : Node × CValidationState) :
    Outcome (Option Uint256) × (Node × CValidationState) → Prop
  | empty : s.1.bestCandidate = none → SearchTurn turns s (.returned none, s)
  | asserted {pindexNew pindexTest : CBlockIndex} : s.1.bestCandidate = some pindexNew →
      pindexTest ∈ s.1.branch pindexNew → pindexTest.nChainTx = 0 → pindexTest.nHeight ≠ 0 →
      SearchTurn turns s (.halted, s)
  | found {pindexNew : CBlockIndex} : s.1.bestCandidate = some pindexNew →
      (∀ pindexTest ∈ s.1.branch pindexNew, Node.usable pindexTest = true) →
      SearchTurn turns s (.returned (some pindexNew.hashBlock), s)
  | dropped {pindexNew pindexTest : CBlockIndex} {above rest : List CBlockIndex} :
      s.1.bestCandidate = some pindexNew →
      s.1.branch pindexNew = above ++ pindexTest :: rest →
      (∀ pindexFailed ∈ above, Node.usable pindexFailed = true) →
      Node.usable pindexTest = false →
      SearchTurn turns s (findMostWorkLoop turns (s.1.dropBranch above pindexTest, s.2))

lemma findMostWorkLoop_turn (turns : Nat) (s : Node × CValidationState) :
    SearchTurn turns s (findMostWorkLoop (turns + 1) s) := by
  unfold findMostWorkLoop
  rw [readNode_bind]
  cases hbest : s.1.bestCandidate with
  | none => exact .empty hbest
  | some pindexNew =>
    dsimp only
    rw [demand_bind_apply]
    have hsplit := takeWhile_append_dropWhile (p := Node.usable) (l := s.1.branch pindexNew)
    have hdrop : (s.1.branch pindexNew).drop
        ((s.1.branch pindexNew).takeWhile Node.usable).length =
        (s.1.branch pindexNew).dropWhile Node.usable := by
      conv_lhs => rw [← hsplit]
      rw [drop_append, drop_eq_nil_of_le (by simp), nil_append,
        takeWhile_append_dropWhile]
      simp
    split_ifs with hall
    · rw [hdrop]
      cases hrest : (s.1.branch pindexNew).dropWhile Node.usable with
      | nil =>
        refine .found hbest ?_
        rw [hrest, append_nil] at hsplit
        exact takeWhile_eq_self_iff.mp hsplit
      | cons pindexTest rest =>
        rw [hrest] at hsplit
        refine .dropped hbest hsplit.symm (fun _ => mem_takeWhile_imp) ?_
        have hhead := head?_dropWhile_not Node.usable (s.1.branch pindexNew)
        simpa [hrest] using hhead
    · simp only [all_eq_true, not_forall] at hall
      obtain ⟨pindexTest, hmem, hbad⟩ := hall
      simp only [bne_iff_ne, ne_eq, Bool.or_eq_true, beq_iff_eq, not_or, not_not] at hbad
      exact .asserted hbest (mem_of_mem_take hmem) hbad.1 hbad.2

/-! ## Pruning -/

def Node.asGoodAs (node : Node) (tip : CBlockIndex) : List Uint256 :=
  node.setBlockIndexCandidates.filter fun hash =>
    (node.mapBlockIndex.lookup hash).any fun pindex => !workLess pindex tip

inductive PruneEnds (s : Node × CValidationState) : Outcome Unit × (Node × CValidationState) → Prop
  | tipless : s.1.tip = none → PruneEnds s (.halted, s)
  | asserted {tip : CBlockIndex} : s.1.tip = some tip → s.1.asGoodAs tip = [] →
      PruneEnds s (.halted, s)
  | pruned {tip : CBlockIndex} : s.1.tip = some tip →
      PruneEnds s (.returned (), ({ s.1 with setBlockIndexCandidates := s.1.asGoodAs tip }, s.2))

lemma pruneBlockIndexCandidates_ends (s : Node × CValidationState) :
    PruneEnds s (pruneBlockIndexCandidates s) := by
  unfold pruneBlockIndexCandidates
  rw [readNode_bind]
  cases htip : s.1.tip with
  | none =>
    exact .tipless htip
  | some tip =>
    rw [require_some, pure_bind, demand_bind_apply]
    split_ifs with hkept
    · exact .pruned htip
    · rw [Bool.not_eq_true, Bool.not_eq_false'] at hkept
      exact .asserted htip (isEmpty_iff.mp hkept)

end Jumpcoin
