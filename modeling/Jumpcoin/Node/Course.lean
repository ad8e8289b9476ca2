import Jumpcoin.Node.Candidates

/-!
# The course of an activation

`ActivateBestChain` is made of a few operations: the search for the best candidate, the two tip
operations, the pruning of candidates and changes of the memory pool. What each of these keeps, the
whole keeps, however it ends.
-/

namespace Jumpcoin

open Check CValidationState NodeCheck

variable {config : Config} {env : Environment}
variable {R : Node × CValidationState → Node × CValidationState → Prop}

/-- Dropping the best candidate, if it cannot be used, keeps a relation. -/
def DropsKeep (R : Node × CValidationState → Node × CValidationState → Prop) : Prop :=
  ∀ (s : Node × CValidationState) pindexNew pindexTest above rest,
    s.1.bestCandidate = some pindexNew → s.1.branch pindexNew = above ++ pindexTest :: rest →
    (∀ pindexFailed ∈ above, Node.usable pindexFailed = true) → Node.usable pindexTest = false →
    R s (s.1.dropBranch above pindexTest, s.2)

lemma DropsKeep.search [Std.Refl R] [IsTrans (Node × CValidationState) R] (h : DropsKeep R)
    (turns : Nat) : Relates R (findMostWorkLoop turns) := by
  induction turns with
  | zero => exact .pure none
  | succ turns ih =>
    intro s
    have hturn := findMostWorkLoop_turn turns s
    generalize findMostWorkLoop (turns + 1) s = r at hturn
    cases hturn with
    | empty => exact Std.Refl.refl s
    | asserted => exact Std.Refl.refl s
    | found => exact Std.Refl.refl s
    | dropped hbest hbranch habove htest =>
      exact IsTrans.trans _ _ _ (h s _ _ _ _ hbest hbranch habove htest) (ih _)

lemma DropsKeep.findMostWorkChain [Std.Refl R] [IsTrans (Node × CValidationState) R]
    (h : DropsKeep R) : Relates R findMostWorkChain :=
  fun s => h.search (s.1.candidates.length + 1) s

/-! ## Properties of the parts -/

/-- A property of routines that sequencing passes on. -/
structure Composes (P : ∀ {α : Type}, NodeCheck α → Prop) : Prop where
  pure : ∀ {α : Type} (a : α), P (Pure.pure a : NodeCheck α)
  halt : ∀ {α : Type}, P (Check.halt : NodeCheck α)
  readNode : P NodeCheck.readNode
  bind : ∀ {α β : Type} {x : NodeCheck α} {f : α → NodeCheck β}, P x → (∀ a, P (f a)) → P (x >>= f)

variable {P : ∀ {α : Type}, NodeCheck α → Prop}

namespace Composes

variable {α : Type}

lemma require (h : Composes P) (o : Option α) : P (Check.require o : NodeCheck α) := by
  cases o with
  | none => exact h.halt
  | some a => exact h.pure a

lemma ite {c : Prop} [Decidable c] {x y : NodeCheck α} (hx : P x) (hy : P y) :
    P (if c then x else y) := by
  split_ifs
  · exact hx
  · exact hy

/-- The two halves of a pass, a search and a switch, have the property, and so has the loop. -/
lemma activateBestChainLoop (h : Composes P) (hsearch : P findMostWorkChain)
    (hstep : ∀ hash pblock, P (activateBestChainStep config env hash pblock))
    (hflush : P (expect env.flushPeriodic (markError "Failed to write to coin database")))
    (pblock : Option CBlock) (passes : Nat) (cached : Option Uint256) :
    P (activateBestChainLoop config env pblock passes cached) := by
  have hpass (cached : Option Uint256) : P (activatePass config env cached pblock) := by
    have hselect : P (selectCandidate cached) := by
      cases cached with
      | some hash => exact h.pure _
      | none => exact hsearch
    refine h.bind hselect fun pindexMostWork => h.bind h.readNode fun node => ?_
    cases pindexMostWork with
    | none => exact h.pure _
    | some hash =>
      exact ite (h.pure _) (h.bind (hstep _ _) fun _ => h.bind h.readNode fun _ => h.pure _)
  induction passes generalizing cached with
  | zero => exact h.pure none
  | succ passes ih =>
    refine h.bind (hpass cached) fun pass => ?_
    cases pass with
    | idle => exact h.pure _
    | reached => exact h.bind hflush fun _ => h.pure _
    | again cached' => exact ih cached'

/-- The operations of a switch have the property, and so has the switch. -/
lemma activateBestChainStep (h : Composes P) (hdisconnect : P (disconnectTip config env))
    (hconnect : ∀ hash pblock, P (tryConnect config env hash pblock))
    (hprune : P pruneBlockIndexCandidates)
    (hsettle : ∀ f, (∀ node : Node, ∃ mempool, f node = { node with mempool }) → P (modifyNode f))
    (hash : Uint256) (pblock : Option CBlock) :
    P (activateBestChainStep config env hash pblock) := by
  have hdisconnectTo (fork : Option Uint256) (blocks : Nat) :
      P (disconnectTo config env fork blocks) := by
    induction blocks with
    | zero => exact h.pure ()
    | succ blocks ih =>
      exact h.bind h.readNode fun _ => ite (h.pure ()) (h.bind hdisconnect fun _ => ih)
  have hconnectPath (pindexOldTip : Option CBlockIndex) (pblock : Uint256 → Option CBlock)
      (hashes : List Uint256) : P (connectPath config env pindexOldTip pblock hashes) := by
    induction hashes with
    | nil => exact h.pure false
    | cons hash rest ih =>
      exact h.bind (hconnect hash (pblock hash)) fun _ => ite (h.pure true)
        (h.bind hprune fun _ => h.bind h.readNode fun _ => ite (h.pure false) ih)
  refine h.bind h.readNode fun node => h.bind (h.require _) fun pindexMostWork =>
    h.bind (h.bind h.readNode fun _ => hdisconnectTo _ _) fun _ => h.bind h.readNode fun forked =>
    h.bind (hconnectPath _ _ _) fun _ => h.bind (hsettle _ fun node => ?_) fun _ => h.pure _
  split_ifs
  · exact ⟨_, rfl⟩
  · exact ⟨node.mempool, rfl⟩

end Composes

/-! ## Relations that the parts keep -/

/-- The operations that an activation consists of keep a relation. -/
structure OperationsKeep (config : Config) (env : Environment)
    (R : Node × CValidationState → Node × CValidationState → Prop) : Prop where
  disconnect : Relates R (disconnectTip config env)
  connect : ∀ hash pblock, Relates R (connectTip config env hash pblock)
  pruned : ∀ (s : Node × CValidationState) tip, s.1.tip = some tip →
    R s ({ s.1 with setBlockIndexCandidates := s.1.asGoodAs tip }, s.2)
  dropped : DropsKeep R
  settled : ∀ (s : Node × CValidationState) mempool state, R s ({ s.1 with mempool }, state)

/-- The two halves of a pass, a search and a switch, keep a relation. -/
structure PassesKeep (config : Config) (env : Environment)
    (R : Node × CValidationState → Node × CValidationState → Prop) : Prop where
  search : Relates R findMostWorkChain
  step : ∀ hash pblock, Relates R (activateBestChainStep config env hash pblock)
  settled : ∀ (s : Node × CValidationState) state, R s (s.1, state)

lemma composes_relates [Std.Refl R] [IsTrans (Node × CValidationState) R] : Composes (Relates R) :=
  ⟨.pure, .halt, fun s => Std.Refl.refl s, .bind⟩

lemma PassesKeep.activateBestChainLoop [Std.Refl R] [IsTrans (Node × CValidationState) R]
    (h : PassesKeep config env R) (pblock : Option CBlock) (passes : Nat)
    (cached : Option Uint256) :
    Relates R (activateBestChainLoop config env pblock passes cached) := by
  refine composes_relates.activateBestChainLoop h.search h.step ?_ pblock passes cached
  cases env.flushPeriodic with
  | true => exact .pure _
  | false => exact fun s => h.settled s _

namespace OperationsKeep

variable [Std.Refl R] [IsTrans (Node × CValidationState) R] (h : OperationsKeep config env R)
include h

omit [IsTrans (Node × CValidationState) R] in
lemma prune : Relates R pruneBlockIndexCandidates := by
  intro s
  have hends := pruneBlockIndexCandidates_ends s
  generalize pruneBlockIndexCandidates s = r at hends
  cases hends with
  | tipless => exact Std.Refl.refl s
  | asserted => exact Std.Refl.refl s
  | pruned htip => exact h.pruned s _ htip

omit [Std.Refl R] in
lemma tryConnect (hash : Uint256) (pblock : Option CBlock) :
    Relates R (tryConnect config env hash pblock) := by
  intro s
  have hconnect := h.connect hash pblock s
  unfold Jumpcoin.tryConnect
  rcases hr : connectTip config env hash pblock s with ⟨_ | _ | _, s'⟩
  · rwa [hr] at hconnect
  · rw [hr] at hconnect
    dsimp only
    split_ifs
    · exact IsTrans.trans _ _ _ hconnect (h.settled s' s'.1.mempool _)
    · exact hconnect
  · rwa [hr] at hconnect

lemma activateBestChainStep (hash : Uint256) (pblock : Option CBlock) :
    Relates R (activateBestChainStep config env hash pblock) := by
  refine composes_relates.activateBestChainStep h.disconnect h.tryConnect h.prune
    (fun f hf => relates_modifyNode fun s => ?_) hash pblock
  obtain ⟨mempool, hmempool⟩ := hf s.1
  rw [hmempool]
  exact h.settled s _ _

lemma passes : PassesKeep config env R where
  search := h.dropped.findMostWorkChain
  step := h.activateBestChainStep
  settled := fun s => h.settled s s.1.mempool

end OperationsKeep

end Jumpcoin
