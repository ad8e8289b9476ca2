import Jumpcoin.Node.Activation
import Jumpcoin.Validation.Reports

/-!
# What connecting and disconnecting a tip does

Every way a call of `ConnectTip` or `DisconnectTip` can end, said once: later results go through the
cases and do not look into the two routines again.
-/

namespace Jumpcoin

open Check CValidationState NodeCheck

variable {config : Config} {env : Environment}

/-! ## Connecting -/

/-- The block that `ConnectTip` works on: the one it is given, or the one on disk. -/
def blockToConnect (config : Config) (node : Node) (pindexNew : CBlockIndex)
    (pblock : Option CBlock) : Option CBlock :=
  match pblock with
  | some block => some block
  | none => readBlockFromDisk config node.toChainState pindexNew

def tipConnection (config : Config) (env : Environment) (s : Node × CValidationState)
    (block : CBlock) (pindexNew : CBlockIndex) : Outcome Connected × CValidationState :=
  connectBlock config s.1.toChainState (env.connectDisk pindexNew.hashBlock) block pindexNew
    (s.1.pathOfPrev pindexNew) s.1.pcoinsTip false s.2

inductive ConnectTipEnds (config : Config) (env : Environment) (hash : Uint256)
    (pblock : Option CBlock) (s : Node × CValidationState) :
    Outcome Unit × (Node × CValidationState) → Prop
  | asserted : ConnectTipEnds config env hash pblock s (.halted, s)
  | unread {pindexNew : CBlockIndex} :
      s.1.mapBlockIndex.lookup hash = some pindexNew →
      blockToConnect config s.1 pindexNew pblock = none →
      ConnectTipEnds config env hash pblock s
        (.refused, (s.1, markError "Failed to read block" s.2))
  | halted {pindexNew : CBlockIndex} {block : CBlock} {state : CValidationState} :
      tipConnection config env s block pindexNew = (.halted, state) →
      ConnectTipEnds config env hash pblock s (.halted, (s.1, state))
  | refused {pindexNew : CBlockIndex} {block : CBlock} {state : CValidationState} :
      s.1.mapBlockIndex.lookup hash = some pindexNew →
      blockToConnect config s.1 pindexNew pblock = some block →
      tipConnection config env s block pindexNew = (.refused, state) →
      ConnectTipEnds config env hash pblock s
        (.refused, invalidBlockFound pindexNew.hashBlock (s.1, state))
  | unflushed {pindexNew : CBlockIndex} {block : CBlock} {connected : Connected}
      {state : CValidationState} :
      s.1.mapBlockIndex.lookup hash = some pindexNew →
      tipConnection config env s block pindexNew = (.returned connected, state) →
      env.flushStateToDisk hash = false →
      ConnectTipEnds config env hash pblock s
        (.refused, (s.1.withConnected config block connected,
          markError "Failed to write to coin database" state))
  | connected {pindexNew : CBlockIndex} {block : CBlock} {connected : Connected}
      {state : CValidationState} :
      s.1.mapBlockIndex.lookup hash = some pindexNew →
      pindexNew.pprev = s.1.chainActive.head? →
      tipConnection config env s block pindexNew = (.returned connected, state) →
      ConnectTipEnds config env hash pblock s
        (.returned (), ((s.1.withConnected config block connected).withTip env block hash, state))

lemma connectOrMark_apply (block : CBlock) (pindexNew : CBlockIndex)
    (s : Node × CValidationState) :
    connectOrMark config env block pindexNew s =
      match tipConnection config env s block pindexNew with
      | (.returned connected, state) => (.returned connected, (s.1, state))
      | (.refused, state) => (.refused, invalidBlockFound pindexNew.hashBlock (s.1, state))
      | (.halted, state) => (.halted, (s.1, state)) := by
  unfold connectOrMark tipConnection
  rw [readNode_bind]
  simp only [onRefused, validate]
  rcases connectBlock config s.1.toChainState (env.connectDisk pindexNew.hashBlock) block pindexNew
    (s.1.pathOfPrev pindexNew) s.1.pcoinsTip false s.2 with ⟨connected | _ | _, state⟩ <;> rfl

variable (config env) in
lemma connectTip_ends (hash : Uint256) (pblock : Option CBlock) (s : Node × CValidationState) :
    ConnectTipEnds config env hash pblock s (connectTip config env hash pblock s) := by
  unfold connectTip
  rw [readNode_bind]
  cases hlookup : s.1.mapBlockIndex.lookup hash with
  | none =>
    exact .asserted
  | some pindexNew =>
    rw [require_some, pure_bind]
    cases htip : pindexNew.pprev == s.1.chainActive.head? with
    | false =>
      exact .asserted
    | true =>
      change ConnectTipEnds config env hash pblock s
        ((obtainOr (blockToConnect config s.1 pindexNew pblock) _ >>= _) s)
      cases hblock : blockToConnect config s.1 pindexNew pblock with
      | none =>
        exact .unread hlookup hblock
      | some block =>
        rw [obtainOr_some, pure_bind, bind_apply, connectOrMark_apply]
        rcases hconnect : tipConnection config env s block pindexNew with
          ⟨connected | _ | _, state⟩
        · cases hflush : env.flushStateToDisk hash with
          | false =>
            exact .unflushed hlookup hconnect hflush
          | true =>
            exact .connected hlookup (by simpa using htip) hconnect
        · exact .refused hlookup hblock hconnect
        · exact .halted hconnect

/-! ## Disconnecting -/

inductive DisconnectTipEnds (env : Environment) (s : Node × CValidationState) :
    Outcome Unit × (Node × CValidationState) → Prop
  | stopped {outcome : Outcome Unit} {state : CValidationState} : outcome ≠ .returned () →
      DisconnectTipEnds env s (outcome, (s.1, state))
  | unflushed {hashes : Hashes} {block : CBlock} {view : CCoinsViewCache}
      {state : CValidationState} :
      DisconnectTipEnds env s (.refused, (s.1.withDisconnected hashes block view, state))
  | disconnected {hashes : Hashes} {view : CCoinsViewCache} {block : CBlock} :
      s.1.chainActive ≠ [] →
      DisconnectTipEnds env s
        (.returned (), ((s.1.withDisconnected hashes block view).withoutTip env block, s.2))

variable {undoFile : Option Codec.Bytes} {state' state : CValidationState}
  {view' view : CCoinsViewCache} {hash hashPrev : Uint256} {keys : PubKeyLib} {hashes : Hashes}
  {block : CBlock} {nHeight : Nat}

lemma disconnectBlock_returned
    (h : disconnectBlock hashes keys block hash hashPrev nHeight undoFile view state = (.returned
      view', state')) :
    state' = state ∧ ∃ blockUndo view₁,
      disconnectTransactions hashes nHeight block blockUndo view = some view₁ ∧
        view' = view₁.setBestBlock hashPrev := by
  obtain ⟨_, _, hdemand, h⟩ := bind_eq_returned.mp h
  obtain ⟨-, rfl⟩ := demand_eq_returned.mp hdemand
  revert h
  rcases undoFile.bind fun bytes => CBlockUndo.undoReadFromDisk hashes keys bytes hashPrev with
    _ | blockUndo
  · exact fun h => absurd h refuse_ne_returned
  · dsimp only
    rcases hundone : disconnectTransactions hashes nHeight block blockUndo view with _ | view₁
    · exact fun h => absurd h refuse_ne_returned
    · intro h
      obtain ⟨rfl, rfl⟩ := pure_eq_returned.mp h
      exact ⟨rfl, blockUndo, view₁, hundone, rfl⟩

variable (config env) in
lemma disconnectTip_ends (s : Node × CValidationState) :
    DisconnectTipEnds env s (disconnectTip config env s) := by
  unfold disconnectTip
  rw [readNode_bind]
  cases htip : s.1.tip with
  | none =>
    exact .stopped (by simp)
  | some pindexDelete =>
    rw [require_some, pure_bind]
    cases readBlockFromDisk config s.1.toChainState pindexDelete with
    | none =>
      exact .stopped (by simp)
    | some block =>
      rw [obtainOr_some, pure_bind, validate_bind]
      split
      next view state hview =>
        obtain ⟨rfl, -⟩ := disconnectBlock_returned hview
        cases env.flushStateToDisk pindexDelete.hashBlock with
        | false =>
          exact .unflushed
        | true =>
          refine .disconnected fun hnil => ?_
          simp [ChainState.tip, hnil] at htip
      next => exact .stopped (by simp)
      next => exact .stopped (by simp)

/-! ## Successful calls

What a call that returns true has done, with the block it worked on. -/

variable {s' s : Node × CValidationState} {α : Type}

lemma obtainOr_eq_returned {o : Option α} {f : CValidationState → CValidationState} {a : α} :
    (obtainOr o f : NodeCheck α) s = (.returned a, s') ↔ o = some a ∧ s = s' := by
  cases o with
  | none => simp [obtainOr_none, reject, refuse]
  | some b => rw [obtainOr_some, pure_eq_returned, Option.some.injEq]

lemma validate_eq_returned {x : Validate α} {a : α} :
    validate x s = (.returned a, s') ↔
      ∃ state, x s.2 = (.returned a, state) ∧ (s.1, state) = s' := by
  rcases hx : x s.2 with ⟨b | _ | _, state⟩ <;> simp [validate, hx]

lemma connectTip_returned {pblock : Option CBlock}
    (h : connectTip config env hash pblock s = (.returned (), s')) :
    ∃ pindexNew block connected state, s.1.mapBlockIndex.lookup hash = some pindexNew ∧
      pindexNew.pprev = s.1.chainActive.head? ∧
      blockToConnect config s.1 pindexNew pblock = some block ∧
      tipConnection config env s block pindexNew = (.returned connected, state) ∧
      s' = ((s.1.withConnected config block connected).withTip env block hash, state) := by
  unfold connectTip at h
  rw [readNode_bind] at h
  simp only [bind_eq_returned, require_eq_returned, demand_eq_returned, obtainOr_eq_returned,
    ensure_eq_returned, expect] at h
  obtain ⟨pindexNew, _, ⟨hlookup, rfl⟩, _, _, ⟨hprev, rfl⟩, block, _, ⟨hblock, rfl⟩, connected, s₁,
    hconnect, _, s₂, hcoins, _, _, ⟨-, rfl⟩, htip⟩ := h
  rw [connectOrMark_apply] at hconnect
  rcases hrun : tipConnection config env s block pindexNew with ⟨c | _ | _, state⟩ <;>
    simp only [hrun, Prod.mk.injEq, Outcome.returned.injEq, reduceCtorEq, false_and] at hconnect
  obtain ⟨rfl, rfl⟩ := hconnect
  obtain ⟨-, rfl⟩ := Prod.mk.inj hcoins
  obtain ⟨-, rfl⟩ := Prod.mk.inj htip
  exact ⟨pindexNew, block, c, state, hlookup, by simpa using hprev, hblock, hrun, rfl⟩

lemma disconnectTip_returned (h : disconnectTip config env s = (.returned (), s')) :
    ∃ pindexDelete block blockUndo view₁ view, s.1.tip = some pindexDelete ∧
      readBlockFromDisk config s.1.toChainState pindexDelete = some block ∧
      disconnectTransactions config.hashes pindexDelete.nHeight block blockUndo s.1.pcoinsTip =
        some view₁ ∧
      view.cacheCoins = view₁.cacheCoins ∧
      s' = ((s.1.withDisconnected config.hashes block view).withoutTip env block, s.2) := by
  unfold disconnectTip at h
  rw [readNode_bind] at h
  simp only [bind_eq_returned, require_eq_returned, obtainOr_eq_returned, ensure_eq_returned,
    expect, validate_eq_returned] at h
  obtain ⟨pindexDelete, _, ⟨htip, rfl⟩, block, _, ⟨hblock, rfl⟩, view, _, ⟨state, hrun, rfl⟩, _, s₂,
    hcoins, _, _, ⟨-, rfl⟩, hend⟩ := h
  obtain ⟨-, rfl⟩ := Prod.mk.inj hcoins
  obtain ⟨-, rfl⟩ := Prod.mk.inj hend
  obtain ⟨rfl, blockUndo, view₁, hundone, rfl⟩ := disconnectBlock_returned hrun
  exact ⟨pindexDelete, block, blockUndo, view₁, view₁.setBestBlock (pindexDelete.pprev.getD 0),
    htip, hblock, hundone, rfl, rfl⟩

end Jumpcoin
