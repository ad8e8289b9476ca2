import Jumpcoin.Node.Course
import Jumpcoin.Node.Tips

/-!
# Liveness after a bad block

A block that breaks a rule must not stop a node. `ConnectTip` marks its entry as failed and drops
it from the candidates, and `ActivateBestChain` goes on to the next best one; but only if
`ConnectBlock` left an invalid state behind. A refusal with any other state is taken for a system
error, and `ActivateBestChain` returns false with the block still its best candidate.

Every failure of `ActivateBestChain` is traced here to the call that caused it: a tip that could not
be disconnected, a block that could not be read, or a block with an untraceable stake.
-/

namespace Jumpcoin

open Check CValidationState NodeCheck

variable {config : Config} {env : Environment}

/-! ## The course of an activation -/

/-- The states in which `ActivateBestChain`, started in a given one, calls the tip operations. -/
inductive Visits (config : Config) (env : Environment) (s : Node × CValidationState) :
    Node × CValidationState → Prop
  | start : Visits config env s s
  | selected {s₁ s₂ : Node × CValidationState} {hash : Option Uint256} :
      Visits config env s s₁ → findMostWorkChain s₁ = (.returned hash, s₂) → Visits config env s s₂
  | disconnected {s₁ s₂ : Node × CValidationState} :
      Visits config env s s₁ → disconnectTip config env s₁ = (.returned (), s₂) →
      Visits config env s s₂
  | connected {s₁ s₂ : Node × CValidationState} {hash : Uint256} {pblock : Option CBlock}
      {fInvalidFound : Bool} :
      Visits config env s s₁ →
      tryConnect config env hash pblock s₁ = (.returned fInvalidFound, s₂) →
      Visits config env s s₂
  | pruned {s₁ s₂ : Node × CValidationState} :
      Visits config env s s₁ → pruneBlockIndexCandidates s₁ = (.returned (), s₂) →
      Visits config env s s₂
  | settled {s₁ : Node × CValidationState} (mempool : Mempool) :
      Visits config env s s₁ → Visits config env s ({ s₁.1 with mempool }, s₁.2)

variable {s : Node × CValidationState}

lemma Visits.trans {s₁ s₂ : Node × CValidationState} (h : Visits config env s s₁)
    (h' : Visits config env s₁ s₂) : Visits config env s s₂ := by
  induction h' with
  | start => exact h
  | selected _ hstep ih => exact ih.selected hstep
  | disconnected _ hstep ih => exact ih.disconnected hstep
  | connected _ hstep ih => exact ih.connected hstep
  | pruned _ hstep ih => exact ih.pruned hstep
  | settled mempool _ ih => exact ih.settled mempool

/-- A tip operation returns false, and not because of a block that breaks a rule. -/
def TipFailure (config : Config) (env : Environment) (s s' : Node × CValidationState) : Prop :=
  disconnectTip config env s = (.refused, s') ∨
    ∃ hash pblock, connectTip config env hash pblock s = (.refused, s') ∧ s'.2.isInvalid = false

/-- A part of `ActivateBestChain`: it returns in a state that the activation visits, and a refusal
comes from a tip operation. -/
structure Activates {α : Type} (config : Config) (env : Environment) (x : NodeCheck α) : Prop where
  returned : ∀ s a s', x s = (.returned a, s') → Visits config env s s'
  refused : ∀ s s', x s = (.refused, s') →
    ∃ s₁, Visits config env s s₁ ∧ TipFailure config env s₁ s'

namespace Activates

variable {α β : Type}

lemma bind {x : NodeCheck α} {f : α → NodeCheck β} (hx : Activates config env x)
    (hf : ∀ a, Activates config env (f a)) : Activates config env (x >>= f) := by
  constructor
  · intro s b s' h
    obtain ⟨a, s₁, hfirst, hrest⟩ := bind_eq_returned.mp h
    exact (hx.returned s a s₁ hfirst).trans ((hf a).returned s₁ b s' hrest)
  · intro s s' h
    rcases hxs : x s with ⟨a | _ | _, s₁⟩
    · rw [bind_returned hxs] at h
      obtain ⟨s₂, hvisit, hfail⟩ := (hf a).refused s₁ s' h
      exact ⟨s₂, (hx.returned s a s₁ hxs).trans hvisit, hfail⟩
    · rw [bind_refused hxs] at h
      obtain rfl := (Prod.mk.inj h).2
      exact hx.refused s s₁ hxs
    · rw [bind_halted hxs] at h
      simp at h

lemma pure (a : α) : Activates config env (Pure.pure a : NodeCheck α) := by
  refine ⟨fun s b s' h => ?_, fun s s' h => by simp [pure_apply] at h⟩
  obtain ⟨-, rfl⟩ := pure_eq_returned.mp h
  exact .start

lemma halt : Activates config env (Check.halt : NodeCheck α) :=
  ⟨fun s a s' h => by simp [Check.halt] at h, fun s s' h => by simp [Check.halt] at h⟩

lemma readNode : Activates config env NodeCheck.readNode := by
  refine ⟨fun s a s' h => ?_, fun s s' h => by simp [NodeCheck.readNode] at h⟩
  obtain rfl : s = s' := (Prod.mk.inj h).2
  exact .start

end Activates

/-! ## The activation in its parts -/

lemma findMostWorkLoop_ne_refused (turns : Nat) (s s' : Node × CValidationState) :
    findMostWorkLoop turns s ≠ (.refused, s') := by
  induction turns generalizing s with
  | zero => simp [findMostWorkLoop, pure_apply]
  | succ turns ih =>
    have hturn := findMostWorkLoop_turn turns s
    generalize findMostWorkLoop (turns + 1) s = r at hturn
    cases hturn with
    | dropped => exact ih _
    | _ => simp

lemma findMostWorkChain_activates : Activates config env findMostWorkChain :=
  ⟨fun _ _ _ h => .selected .start h, fun s s' h =>
    absurd h (findMostWorkLoop_ne_refused (s.1.candidates.length + 1) s s')⟩

lemma pruneBlockIndexCandidates_activates : Activates config env pruneBlockIndexCandidates := by
  refine ⟨fun _ _ _ h => .pruned .start h, fun s s' h => ?_⟩
  have hends := pruneBlockIndexCandidates_ends s
  rw [h] at hends
  cases hends

lemma disconnectTip_activates : Activates config env (disconnectTip config env) :=
  ⟨fun _ _ _ h => .disconnected .start h, fun s _ h => ⟨s, .start, .inl h⟩⟩

lemma tryConnect_activates (hash : Uint256) (pblock : Option CBlock) :
    Activates config env (tryConnect config env hash pblock) := by
  refine ⟨fun _ _ _ h => .connected .start h, fun s s' h => ?_⟩
  unfold tryConnect at h
  rcases hconnect : connectTip config env hash pblock s with ⟨_ | _ | _, s₁⟩
  · simp [hconnect] at h
  · rw [hconnect] at h
    dsimp only at h
    split_ifs at h with hinvalid
    · simp at h
    · obtain rfl := (Prod.mk.inj h).2
      exact ⟨s, .start, .inr ⟨hash, pblock, hconnect, by simpa using hinvalid⟩⟩
  · simp [hconnect] at h

lemma modifyNode_activates {f : Node → Node}
    (hf : ∀ node : Node, ∃ mempool, f node = { node with mempool }) :
    Activates config env (modifyNode f) := by
  refine ⟨fun s a s' h => ?_, fun s s' h => by simp [modifyNode] at h⟩
  obtain rfl := (Prod.mk.inj h).2
  obtain ⟨mempool, hmempool⟩ := hf s.1
  rw [hmempool]
  exact .settled mempool .start

lemma activateBestChainLoop_activates (hdisk : env.DiskOk) (pblock : Option CBlock)
    (passes : Nat) (cached : Option Uint256) :
    Activates config env (activateBestChainLoop config env pblock passes cached) := by
  have hparts : Composes (Activates config env) := ⟨.pure, .halt, .readNode, .bind⟩
  refine hparts.activateBestChainLoop findMostWorkChain_activates (hparts.activateBestChainStep
    disconnectTip_activates tryConnect_activates pruneBlockIndexCandidates_activates
    fun f => modifyNode_activates) ?_ pblock passes cached
  rw [hdisk.flushPeriodic, expect_true]
  exact .pure _

/-! ## The state of a visit -/

def KeepsState {α : Type} (x : NodeCheck α) : Prop :=
  Relates (fun s s' : Node × CValidationState => s'.2 = s.2) x

instance : Std.Refl fun s s' : Node × CValidationState => s'.2 = s.2 := ⟨fun _ => rfl⟩

instance : IsTrans (Node × CValidationState) fun s s' => s'.2 = s.2 :=
  ⟨fun _ _ _ h h' => h'.trans h⟩

lemma findMostWorkChain_keepsState : KeepsState findMostWorkChain :=
  DropsKeep.findMostWorkChain fun _ _ _ _ _ _ _ _ _ => rfl

lemma pruneBlockIndexCandidates_keepsState : KeepsState pruneBlockIndexCandidates :=
  Relates.bind (fun _ => rfl) fun _ => Relates.bind (Relates.require _) fun _ =>
    Relates.bind (Relates.demand _) fun _ _ => rfl

variable {s' : Node × CValidationState} {pindexNew : CBlockIndex} {block : CBlock}

lemma KeepsState.eq {α : Type} {x : NodeCheck α} (hx : KeepsState x) {outcome : Outcome α}
    (h : x s = (outcome, s')) : s'.2 = s.2 := by
  have hkeep := hx s
  rwa [h] at hkeep

/-- While no disk operation fails, the state is valid whenever a tip operation is called. -/
lemma Visits.isValid (hdisk : env.DiskOk) {s₁ : Node × CValidationState}
    (h : Visits config env s s₁) (hvalid : s.2.isValid = true) : s₁.2.isValid = true := by
  induction h with
  | start => exact hvalid
  | selected _ hstep ih => rwa [findMostWorkChain_keepsState.eq hstep]
  | @disconnected s₁ s₂ _ hstep ih =>
    have hends := disconnectTip_ends config env s₁
    rw [hstep] at hends
    cases hends with
    | stopped hne => exact absurd rfl hne
    | disconnected => exact ih
  | @connected s₁ s₂ hash pblock _ _ hstep ih =>
    have hends := connectTip_ends config env hash pblock s₁
    unfold tryConnect at hstep
    rcases hconnect : connectTip config env hash pblock s₁ with ⟨_ | _ | _, s'⟩
    · rw [hconnect] at hstep hends
      obtain rfl := (Prod.mk.inj hstep).2
      cases hends with
      | connected _ _ hreturned =>
        unfold tipConnection at hreturned
        rw [hdisk.connectDisk] at hreturned
        obtain rfl := connectBlock_state ih hreturned
        exact ih
    · rw [hconnect] at hstep
      dsimp only at hstep
      split_ifs at hstep
      · obtain rfl := (Prod.mk.inj hstep).2
        rfl
      · simp at hstep
    · simp [hconnect] at hstep
  | pruned _ hstep ih => rwa [pruneBlockIndexCandidates_keepsState.eq hstep]
  | settled _ _ ih => exact ih

/-! ## Why an activation fails -/

/-- `ConnectTip`, called for the entry `pindexNew`, meets an untraceable stake. -/
def StuckOn (config : Config) (s : Node × CValidationState) (block : CBlock)
    (pindexNew : CBlockIndex) : Prop :=
  MeetsUntraceableStake config s.1.toChainState block (s.1.pathOfPrev pindexNew) s.1.pcoinsTip false
    s.2

/-- What makes a tip operation return false although the disk works and no block broke a rule that
it was told about. -/
inductive FailureCause (config : Config) (env : Environment) (s : Node × CValidationState) : Prop
  | disconnect {s' : Node × CValidationState} : disconnectTip config env s = (.refused, s') →
      FailureCause config env s
  | unread {hash : Uint256} {pindexNew : CBlockIndex} {pblock : Option CBlock} :
      s.1.mapBlockIndex.lookup hash = some pindexNew →
      blockToConnect config s.1 pindexNew pblock = none → FailureCause config env s
  | stake {hash : Uint256} {pindexNew : CBlockIndex} {pblock : Option CBlock} {block : CBlock} :
      s.1.mapBlockIndex.lookup hash = some pindexNew →
      blockToConnect config s.1 pindexNew pblock = some block → StuckOn config s block pindexNew →
      FailureCause config env s

lemma TipFailure.cause (hdisk : env.DiskOk) (h : TipFailure config env s s')
    (hvalid : s.2.isValid = true) : FailureCause config env s := by
  obtain hdisconnect | ⟨hash, pblock, hconnect, hinvalid⟩ := h
  · exact .disconnect hdisconnect
  · have hends := connectTip_ends config env hash pblock s
    rw [hconnect] at hends
    cases hends with
    | unread hlookup hblock => exact .unread hlookup hblock
    | @refused pindexNew block state hlookup hblock hrefused =>
      have hstate : (invalidBlockFound pindexNew.hashBlock (s.1, state)).2 = state := by
        unfold invalidBlockFound
        split_ifs <;> rfl
      rw [hstate] at hinvalid
      refine .stake hlookup hblock ?_
      unfold tipConnection at hrefused
      rw [hdisk.connectDisk] at hrefused
      by_contra hno
      have hreports := (connectBlock_refused_iff hvalid).mpr hno state hrefused
      simp [hreports] at hinvalid
    | unflushed _ _ hflush => simp [hdisk.flushStateToDisk] at hflush

variable {pblock : Option CBlock}

/-- Every failure of `ActivateBestChain` has its cause in a tip operation. -/
lemma activateBestChain_cause (hdisk : env.DiskOk) {passes : Nat} (hvalid : s.2.isValid = true)
    (h : activateBestChain config env pblock passes s = (.refused, s')) :
    ∃ s₁, Visits config env s s₁ ∧ FailureCause config env s₁ := by
  obtain ⟨s₁, hvisits, hfailure⟩ :=
    (activateBestChainLoop_activates hdisk pblock passes none).refused s s' h
  exact ⟨s₁, hvisits, hfailure.cause hdisk (hvisits.isValid hdisk hvalid)⟩

lemma activateBestChain_of_refused (h : activatePass config env none pblock s = (.refused, s'))
    (passes : Nat) : activateBestChain config env pblock (passes + 1) s = (.refused, s') :=
  bind_refused h

/-! ## A block that breaks a rule -/

variable {hash : Uint256}

/-- `ConnectTip` on a block that breaks a rule: the entry is marked and is no candidate. -/
lemma connectTip_marks (hdisk : env.DiskOk) (hvalid : s.2.isValid = true)
    (hlookup : s.1.mapBlockIndex.lookup hash = some pindexNew) (hhash : pindexNew.hashBlock = hash)
    (hblock : blockToConnect config s.1 pindexNew pblock = some block)
    (hcommit : Committed config.hashes block) (hstuck : ¬StuckOn config s block pindexNew)
    (h : connectTip config env hash pblock s = (.refused, s')) :
    s'.2.isInvalid = true ∧
      (s'.1.mapBlockIndex.lookup hash).any (·.nStatus.failedValid) = true ∧
      hash ∉ s'.1.setBlockIndexCandidates := by
  have hends := connectTip_ends config env hash pblock s
  rw [h] at hends
  cases hends with
  | unread hlookup' hnone =>
    obtain rfl := Option.some.inj (hlookup.symm.trans hlookup')
    simp [hblock] at hnone
  | @refused pindexNew' block' state hlookup' hblock' hrefused =>
    obtain rfl := Option.some.inj (hlookup.symm.trans hlookup')
    obtain rfl := Option.some.inj (hblock.symm.trans hblock')
    unfold tipConnection at hrefused
    rw [hdisk.connectDisk] at hrefused
    obtain ⟨hinvalid, hblame⟩ := (connectBlock_reports (c := false) hvalid (.inl hcommit) hstuck).2
      state hrefused
    have hmark : invalidBlockFound hash (s.1, state) =
        ((s.1.markFailedValid hash).eraseCandidate hash, state) := by
      simp [invalidBlockFound, hinvalid, Bool.eq_false_iff.mpr fun h => Bool.noConfusion (hblame h)]
    rw [hhash, hmark]
    refine ⟨hinvalid, ?_, by simp [Node.eraseCandidate]⟩
    change ((s.1.markFailedValid hash).mapBlockIndex.lookup hash).any _ = true
    simp [Node.markFailedValid, Node.setStatus, hlookup]
  | unflushed _ _ hflush => simp [hdisk.flushStateToDisk] at hflush

/-- A chain that `FindMostWorkLoop` settles on has data for all its blocks, and none of them
failed. -/
lemma findMostWorkLoop_usable {turns : Nat}
    (h : findMostWorkLoop turns s = (.returned (some hash), s')) :
    ∃ pindexNew, s'.1.bestCandidate = some pindexNew ∧ pindexNew.hashBlock = hash ∧
      ∀ pindexTest ∈ s'.1.branch pindexNew, Node.usable pindexTest = true := by
  induction turns generalizing s with
  | zero => simp [findMostWorkLoop, pure_apply] at h
  | succ turns ih =>
    unfold findMostWorkLoop at h
    rw [readNode_bind] at h
    cases hbest : s.1.bestCandidate with
    | none => simp [hbest, pure_apply] at h
    | some pindexNew =>
      simp only [hbest] at h
      obtain ⟨_, _, hdemand, h⟩ := bind_eq_returned.mp h
      obtain ⟨-, rfl⟩ := demand_eq_returned.mp hdemand
      cases hdrop : (s.1.branch pindexNew).drop
          ((s.1.branch pindexNew).takeWhile Node.usable).length with
      | nil =>
        rw [hdrop] at h
        obtain ⟨hhash, rfl⟩ := pure_eq_returned.mp h
        refine ⟨pindexNew, hbest, Option.some.inj hhash, ?_⟩
        exact List.takeWhile_eq_self_iff.mp ((List.takeWhile_prefix _).eq_of_length_le
          (List.drop_eq_nil_iff.mp hdrop))
      | cons pindexTest rest =>
        rw [hdrop] at h
        exact ih (s := (s.1.dropBranch _ pindexTest, s.2)) h

def toyBadBlock : CBlock :=
  toyWorkBlock [{ toySpend with vin := [⟨⟨8, 0⟩, [], 0xffffffff⟩] }]

def toyReceive (blocks : List CBlock) : Outcome Unit × (Node × CValidationState) :=
  blocks.forM (fun block => acceptBlock toyStakeConfig toyEnvironment block true)
    (toyStakeNode, .init)

end Jumpcoin
