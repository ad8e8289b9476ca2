import Jumpcoin.Validation.Accepted

/-!
# What a refused block leaves behind

Every check of a block returns with the validation state untouched or refuses with the state marked
invalid, with one exception: a stake whose transaction is found, but in no block of the index, is
refused without a word unless the node runs with `fDebug`.

`ConnectBlock` therefore leaves an invalid state behind exactly where it does not come across such a
stake, disk errors aside.
-/

namespace Jumpcoin

open Check CValidationState

/-- From a valid state the check returns with the state untouched or marks it invalid. Only with
`blamesRelay` may the state then say that the data may have been altered on its way. -/
def ReportsInvalid {α : Type} (blamesRelay : Bool) (x : Validate α) : Prop :=
  Reports (fun state => state.isValid = true)
    (fun state => state.isInvalid = true ∧ (state.corruptionPossible = true → blamesRelay = true)) x

namespace ReportsInvalid

variable {α β : Type} {c : Bool} {level : Int} {code : Nat} {reason debug : String} {x : Validate α}

lemma pure (a : α) : ReportsInvalid c (Pure.pure a : Validate α) := Reports.pure a

lemma bind {f : α → Validate β} (hx : ReportsInvalid c x)
    (hf : ∀ a, ReportsInvalid c (f a)) : ReportsInvalid c (x >>= f) := Reports.bind hx hf

lemma of_require (o : Option α) : ReportsInvalid c (Check.require o) := Reports.require o

lemma refuse_doSFull :
    ReportsInvalid c (refuse (doSFull level code reason false debug) : Validate α) :=
  Reports.refuse fun _ hs => ⟨isInvalid_doSFull hs, by simp⟩

variable {ok : Bool}

lemma ensure_doSFull : ReportsInvalid c (ensure ok (doSFull level code reason false debug)) :=
  Reports.ensure fun _ hs => ⟨isInvalid_doSFull hs, by simp⟩

lemma ensure_corruption (h : ok = true ∨ c = true) :
    ReportsInvalid c (ensure ok (doSFull level code reason true debug)) := by
  rcases h with rfl | rfl
  · exact .pure ()
  · exact Reports.ensure fun _ hs => ⟨isInvalid_doSFull hs, fun _ => rfl⟩

lemma ensure_doS : ReportsInvalid c (ensure ok (doS level code reason)) :=
  ensure_doSFull

lemma ensure_markInvalid : ReportsInvalid c (ensure ok (markInvalid code reason debug)) :=
  ensure_doSFull

lemma onRefused_doSFull {f : CValidationState → CValidationState}
    (hx : ReportsInvalid c x) (hf : ∀ state, ∃ level code reason debug,
      f state = doSFull level code reason false debug state) :
    ReportsInvalid c (onRefused x f) := by
  refine Reports.onRefused hx fun state hstate => ?_
  obtain ⟨level, code, reason, debug, heq⟩ := hf state
  have hmode : state.mode = .invalid := by simpa [isInvalid] using hstate.1
  refine ⟨by simp [heq, doSFull, isInvalid, hmode], ?_⟩
  simp [heq]

lemma ite {c' : Prop} [Decidable c'] {x y : Validate α} (hx : ReportsInvalid c x)
    (hy : ReportsInvalid c y) : ReportsInvalid c (if c' then x else y) :=
  Reports.ite (fun _ => hx) fun _ => hy

end ReportsInvalid

open ReportsInvalid

variable {c : Bool} {block : CBlock}

/-! ## Transactions -/

lemma checkTransactionOutputs_reports (words : Signed.Words) (userTx : Bool) (nValueOut : CAmount)
    (vout : List CTxOut) :
    ReportsInvalid c (checkTransactionOutputs words userTx nValueOut vout) := by
  induction vout generalizing nValueOut with
  | nil => exact .pure ()
  | cons txout vout ih =>
    exact ensure_doS.bind fun _ => ensure_doS.bind fun _ => ensure_doS.bind fun _ =>
      ensure_doS.bind fun _ => ih _

lemma checkTransactionInputs_reports (seen : List COutPoint) (vin : List CTxIn) :
    ReportsInvalid c (checkTransactionInputs seen vin) := by
  induction vin generalizing seen with
  | nil => exact .pure ()
  | cons txin vin ih => exact ensure_doS.bind fun _ => ih _

lemma checkTransaction_reports (words : Signed.Words) (tx : CTransaction) :
    ReportsInvalid c (checkTransaction words tx) :=
  ensure_doS.bind fun _ => ensure_doS.bind fun _ => ensure_doS.bind fun _ =>
    (checkTransactionOutputs_reports _ _ _ _).bind fun _ =>
      (checkTransactionInputs_reports _ _).bind fun _ => .ite ensure_doS ensure_doS

lemma checkTxInputsLoop_reports (words : Signed.Words) (params : Params) (inputs : CCoinsViewCache)
    (nSpendHeight nTimeTx : Int) (nValueIn : CAmount) (vin : List CTxIn) :
    ReportsInvalid c (checkTxInputsLoop words params inputs nSpendHeight nTimeTx nValueIn vin) := by
  induction vin generalizing nValueIn with
  | nil => exact .pure _
  | cons txin vin ih =>
    have hone : ReportsInvalid c
        (checkTxInput words params inputs nSpendHeight nTimeTx nValueIn txin) :=
      (of_require _).bind fun _ => ensure_markInvalid.bind fun _ => ensure_doS.bind fun _ =>
        (of_require _).bind fun _ => ensure_doS.bind fun _ => .pure _
    exact hone.bind fun _ => ih _

lemma checkTxInputs_reports (words : Signed.Words) (params : Params) (adjustedTime : Int)
    (tx : CTransaction) (inputs : CCoinsViewCache) (nSpendHeight : Int) :
    ReportsInvalid c (checkTxInputs words params adjustedTime tx inputs nSpendHeight) := by
  refine ensure_markInvalid.bind fun _ => (checkTxInputsLoop_reports _ _ _ _ _ _ _).bind fun _ =>
    .ite (.pure ()) ?_
  exact (of_require _).bind fun _ => ensure_doS.bind fun _ => ensure_doS.bind fun _ =>
    ensure_doS.bind fun _ => ensure_doS

/-! ## Blocks on their own -/

lemma checkBlockHeader_reports (hashes : Hashes) (params : Params) (header : CBlockHeader)
    (fCheckPOW : Bool) : ReportsInvalid c (checkBlockHeader hashes params header fCheckPOW) :=
  ensure_doSFull.bind fun _ => ensure_doSFull

/-- The merkle root is that of the transactions, and their list is not one of the mutated lists
with the same root. -/
def Committed (hashes : Hashes) (block : CBlock) : Prop :=
  blockMerkleRoot hashes block = (block.hashMerkleRoot, false)

lemma checkBlockMerkleRoot_reports {hashes : Hashes} (fCheckMerkleRoot : Bool)
    (h : Committed hashes block ∨ c = true) :
    ReportsInvalid c (checkBlockMerkleRoot hashes block fCheckMerkleRoot) := by
  refine .ite ?_ (.pure ())
  rcases h with hcommit | rfl
  · rw [hcommit]
    exact (ensure_corruption (.inl (by simp))).bind fun _ => ensure_corruption (.inl rfl)
  · exact (ensure_corruption (.inr rfl)).bind fun _ => ensure_corruption (.inr rfl)

lemma checkBlockStake_reports (params : Params) (block : CBlock) (coinBase : CTransaction) :
    ReportsInvalid c (checkBlockStake params block coinBase) := by
  refine .ite ?_ (.pure ())
  exact (of_require _).bind fun _ => ensure_doSFull.bind fun _ => ensure_doSFull.bind fun _ =>
    ensure_doSFull.bind fun _ => ensure_doSFull

lemma checkBlockShape_reports (params : Params) (nActiveHeight : Int) (block : CBlock) :
    ReportsInvalid c (checkBlockShape params nActiveHeight block) := by
  unfold checkBlockShape
  cases block.vtx with
  | nil => exact refuse_doSFull
  | cons coinBase rest =>
    exact ensure_doSFull.bind fun _ => ensure_doSFull.bind fun _ => ensure_doSFull.bind fun _ =>
      checkBlockStake_reports _ _ _

lemma checkBlockTransactions_reports (crypto : Crypto) (nBlockTime : Int)
    (vtx : List CTransaction) :
    ReportsInvalid c (checkBlockTransactions crypto nBlockTime vtx) := by
  induction vtx with
  | nil => exact .pure ()
  | cons tx vtx ih =>
    refine (onRefused_doSFull (checkTransaction_reports _ tx) fun state => ?_).bind fun _ =>
      ensure_doSFull.bind fun _ => ih
    exact ⟨0, state.chRejectCode, state.strRejectReason, _, rfl⟩

variable {crypto : Crypto}

lemma checkBlock_reports (params : Params) (nActiveHeight : Int)
    (fCheckPOW fCheckMerkleRoot fCheckSig : Bool) (h : Committed crypto.toHashes block ∨ c = true) :
    ReportsInvalid c (checkBlock crypto params nActiveHeight block fCheckPOW fCheckMerkleRoot
      fCheckSig) := by
  refine .ite (.pure _) ?_
  exact (checkBlockHeader_reports _ _ _ _).bind fun _ =>
    (checkBlockMerkleRoot_reports _ h).bind fun _ => ensure_doSFull.bind fun _ =>
    (checkBlockShape_reports _ _ _).bind fun _ => ensure_doSFull.bind fun _ =>
    (checkBlockTransactions_reports _ _ _).bind fun _ => ensure_doSFull.bind fun _ => .pure _

/-! ## Blocks on a chain -/

section Connect

variable (config : Config) (chain : ChainState) (ctx : ConnectContext)

lemma runScriptChecks_reports (crypto : Crypto) (checks : List CScriptCheck) :
    ReportsInvalid c (runScriptChecks crypto checks) := by
  induction checks with
  | nil => exact .pure ()
  | cons check rest ih =>
    unfold runScriptChecks
    cases check.error crypto with
    | none => exact ih
    | some error => exact .ite refuse_doSFull refuse_doSFull

lemma checkInputs_reports (tx : CTransaction) (inputs : CCoinsViewCache) (fScriptChecks : Bool)
    (flags : Nat) : ReportsInvalid c (checkInputs config chain tx inputs fScriptChecks flags) := by
  refine .ite (.pure _) ((of_require _).bind fun _ => (checkTxInputs_reports _ _ _ _ _ _).bind
    fun _ =>     .ite ((of_require _).bind fun _ => .ite ?_ (.pure _)) (.pure _))
  exact (runScriptChecks_reports _ _).bind fun _ => .pure _

lemma connectTx_reports (i : Nat) (tx : CTransaction) (s : ConnectLoop) :
    ReportsInvalid c (ctx.connectTx i tx s) := by
  have havailable : ReportsInvalid c (ctx.checkInputsAvailable s.view tx) :=
    .ite (.pure ()) (ensure_doS.bind fun _ => (of_require _).bind fun _ =>
      (of_require _).bind fun _ => ensure_doS)
  have hfees : ReportsInvalid c (ConnectContext.countFees ctx.config.crypto.words s tx) :=
    .ite (.pure _) ((of_require _).bind fun _ => (of_require _).bind fun _ => .pure _)
  exact havailable.bind fun _ => (of_require _).bind fun _ => ensure_doS.bind fun _ =>
    hfees.bind fun _ => (checkInputs_reports _ _ _ _ _ _).bind fun _ =>
    (of_require _).bind fun _ => .pure _

lemma connectTxs_reports (i : Nat) (vtx : List CTransaction) (s : ConnectLoop) :
    ReportsInvalid c (ctx.connectTxs i vtx s) := by
  induction vtx generalizing i s with
  | nil => exact .pure s
  | cons tx vtx ih => exact (connectTx_reports ctx i tx s).bind fun s' => ih (i + 1) s'

lemma checkReward_reports (config : Config) (block : CBlock) (s : ConnectLoop) :
    ReportsInvalid c (checkReward config block s) :=
  .ite ((of_require _).bind fun _ => (of_require _).bind fun _ => ensure_doS)
    (.ite ensure_doS (.pure ()))

/-- The stake of the block leads to a transaction that is in no block of the index, and the node
does not say so. -/
def StakeUntraceable (block : CBlock) : Prop :=
  block.isProofOfStake = true ∧ config.params.isProtocolV3 block.getBlockTime = true ∧
    config.fDebug = false ∧ ∃ tx txin txPrev hashBlock, block.coinStake = some tx ∧
      tx.vin.head? = some txin ∧
      getTransaction config chain txin.prevout.hash = some (txPrev, hashBlock) ∧
      chain.mapBlockIndex.lookup hashBlock = none

variable {config chain} {block : CBlock} {pprev : List CBlockIndex}

lemma isCoinStake_of_coinStake {tx : CTransaction} (hpos : block.isProofOfStake = true)
    (htx : block.coinStake = some tx) : tx.isCoinStake = true := by
  obtain ⟨coinBase, coinStake, rest, hvtx, hcs⟩ := CBlock.isProofOfStake_iff.mp hpos
  obtain rfl : coinStake = tx := by simpa [CBlock.coinStake, hvtx] using htx
  exact hcs

/-- A stake that can be traced is checked with a reason for every refusal. -/
lemma checkBlockProofOfStake_reports (h : ¬StakeUntraceable config chain block) :
    ReportsInvalid c (checkBlockProofOfStake config chain block pprev) := by
  refine Reports.ite (fun hpos => (of_require _).bind fun pindexPrev => ?_) fun _ => .pure ()
  obtain ⟨hpos, hv3⟩ := Bool.and_eq_true_iff.mp hpos
  cases htx : block.coinStake with
  | none =>
    exact Reports.halt
  | some tx =>
    rw [require_some, pure_bind, checkProofOfStake, isCoinStake_of_coinStake hpos htx, ensure_true,
      pure_bind]
    cases htxin : tx.vin.head? with
    | none =>
      exact Reports.halt
    | some txin =>
      rw [require_some, pure_bind]
      cases hget : getTransaction config chain txin.prevout.hash with
      | none => exact refuse_doSFull
      | some found =>
        obtain ⟨txPrev, hashBlock⟩ := found
        cases hindex : chain.mapBlockIndex.lookup hashBlock with
        | some pblockindex =>
          simp only [hindex]
          exact ensure_doS.bind fun _ => ensure_doS.bind fun _ => ensure_doS.bind fun _ =>
            (of_require _).bind fun _ => ensure_doS
        | none =>
          simp only [hindex]
          refine Reports.ite (fun _ => refuse_doSFull) fun hdebug => ?_
          exact absurd ⟨hpos, hv3, by simpa using hdebug, tx, txin, txPrev, hashBlock, htx, htxin,
            hget, hindex⟩ h

/-- A stake that cannot be traced is refused with the state as it was. -/
lemma checkBlockProofOfStake_untraceable (h : StakeUntraceable config chain block)
    {pindexPrev : CBlockIndex} (hprev : pprev.head? = some pindexPrev) (state : CValidationState) :
    checkBlockProofOfStake config chain block pprev state = (.refused, state) := by
  obtain ⟨hpos, hv3, hdebug, tx, txin, txPrev, hashBlock, htx, htxin, hget, hindex⟩ := h
  simp only [checkBlockProofOfStake, hpos, hv3, Bool.and_self, if_true, hprev, htx, require_some,
    pure_bind, checkProofOfStake, isCoinStake_of_coinStake hpos htx, ensure_true, htxin, hget,
    hindex, hdebug, Bool.false_eq_true, if_false]
  rfl

/-- After an untraceable stake is ruled out, the rest of `ConnectBlock` always gives a reason. -/
lemma connectTransactions_reports {pindex : CBlockIndex} {view : CCoinsViewCache}
    {fJustCheck : Bool} (h : ¬StakeUntraceable config chain block) :
    ReportsInvalid c
      (connectTransactions config chain .ok block pindex pprev view fJustCheck) := by
  refine ensure_doS.bind fun _ => (checkBlockProofOfStake_reports h).bind fun _ =>
    (of_require _).bind fun _ => ensure_doS.bind fun _ => (connectTxs_reports _ _ _ _).bind fun _ =>
    (checkReward_reports _ _ _).bind fun _ => (of_require _).bind fun _ => ensure_doS.bind fun _ =>
    .ite (.pure _) ?_
  have hundo : ∀ pindex' hashPrev blockundo,
      ReportsInvalid c (writeUndo config .ok pindex' hashPrev blockundo) := fun _ _ _ =>
    .ite (.pure _) ((ReportsInvalid.pure ()).bind fun _ => (ReportsInvalid.pure ()).bind fun _ =>
      .pure _)
  refine (hundo _ _ _).bind fun _ => ?_
  have htrue : (!config.fTxIndex || Disk.ok.writeTxIndex) = true := by simp [Disk.ok]
  rw [htrue]
  exact (ReportsInvalid.pure ()).bind fun _ => .pure _

end Connect

/-! ## The block -/

section Block

variable {config : Config} {chain : ChainState} {block block' : CBlock} {pindex : CBlockIndex}
variable {pprev : List CBlockIndex} {view : CCoinsViewCache} {fJustCheck : Bool}
variable {state state' : CValidationState}

variable {fCheckMerkleRoot fCheckPOW fCheckSig : Bool} {nActiveHeight : Int} {params : Params}

lemma checkBlock_state (hvalid : state.isValid = true)
    (h : checkBlock crypto params nActiveHeight block fCheckPOW fCheckMerkleRoot fCheckSig state =
      (.returned block', state')) : state' = state :=
  (checkBlock_reports (c := true) _ _ _ _ _ (.inr rfl) state hvalid).1 _ _ h

/-- `ConnectBlock` gets as far as a stake that it cannot trace. -/
structure MeetsUntraceableStake (config : Config) (chain : ChainState) (block : CBlock)
    (pprev : List CBlockIndex) (view : CCoinsViewCache) (fJustCheck : Bool)
    (state : CValidationState) : Prop where
  checked : ∃ block' state', checkBlock config.crypto config.params chain.height block
    (!fJustCheck) (!fJustCheck) (!fJustCheck) state = (.returned block', state')
  best : view.hashBlock = (pprev.head?.map CBlockIndex.hashBlock).getD 0
  prev : pprev ≠ []
  notGenesis : block.getHash config.hashes ≠ config.params.hashGenesisBlock
  target : block.nBits = getNextTargetRequired config.params pprev block.isProofOfStake
  stake : StakeUntraceable config chain block

/-- `ConnectBlock` on an untraceable stake returns false and leaves the state as it was. -/
lemma MeetsUntraceableStake.refused
    (h : MeetsUntraceableStake config chain block pprev view fJustCheck state)
    (hvalid : state.isValid = true) :
    connectBlock config chain .ok block pindex pprev view fJustCheck state = (.refused, state) := by
  obtain ⟨block', state', hcheck⟩ := h.checked
  obtain rfl : state' = state := checkBlock_state hvalid hcheck
  obtain ⟨fChecked, rfl⟩ := checkBlock_returned_eq hcheck
  obtain ⟨pindexPrev, hprev⟩ : ∃ pindexPrev, pprev.head? = some pindexPrev := by
    cases hpath : pprev with
    | nil => exact absurd hpath h.prev
    | cons pindexPrev _ => exact ⟨pindexPrev, rfl⟩
  have hstake : StakeUntraceable config chain { block with fChecked } := h.stake
  have hbits : (block.nBits ==
      getNextTargetRequired config.params pprev block.isProofOfStake) = true := by
    simpa using h.target
  have hbest : (view.hashBlock == (pprev.head?.map CBlockIndex.hashBlock).getD 0) = true := by
    simpa using h.best
  unfold connectBlock
  rw [bind_returned hcheck, hbest, demand_true, pure_bind, if_neg h.notGenesis]
  unfold connectTransactions
  rw [show (({ block with fChecked } : CBlock).nBits == getNextTargetRequired config.params pprev
    ({ block with fChecked } : CBlock).isProofOfStake) = true from hbits, ensure_true, pure_bind]
  exact bind_refused (checkBlockProofOfStake_untraceable hstake hprev _)

/-- An untraceable stake is reached only with a predecessor and the right target. -/
lemma connectTransactions_untraceable (pindex : CBlockIndex) (view : CCoinsViewCache)
    (fJustCheck : Bool) (hvalid : state.isValid = true)
    (hstake : StakeUntraceable config chain block)
    (hno : ¬(pprev ≠ [] ∧
      block.nBits = getNextTargetRequired config.params pprev block.isProofOfStake)) :
    ∃ state',
      connectTransactions config chain .ok block pindex pprev view fJustCheck state =
          (.halted, state') ∨
        connectTransactions config chain .ok block pindex pprev view fJustCheck state =
          (.refused, state') ∧ state'.isInvalid = true ∧ state'.corruptionPossible = false := by
  unfold connectTransactions
  cases hbits : block.nBits == getNextTargetRequired config.params pprev block.isProofOfStake with
  | false =>
    exact ⟨_, .inr ⟨rfl, isInvalid_doSFull hvalid, by simp [doS]⟩⟩
  | true =>
    obtain rfl : pprev = [] := by
      by_contra hne
      exact hno ⟨hne, by simpa using hbits⟩
    have hhalt : checkBlockProofOfStake config chain block [] state = (.halted, state) := by
      obtain ⟨hpos, hv3, -⟩ := hstake
      simp only [checkBlockProofOfStake, hpos, hv3, Bool.and_self, if_true, List.head?_nil,
        require_none, halt_bind]
      rfl
    rw [ensure_true, pure_bind, bind_halted hhalt]
    exact ⟨state, .inl rfl⟩

/-- Where `ConnectBlock` does not meet an untraceable stake, it returns with the state untouched or
refuses with a reason; for a committed block the reason does not blame the relay. -/
lemma connectBlock_reports (hvalid : state.isValid = true)
    (hcommit : Committed config.hashes block ∨ c = true)
    (hno : ¬MeetsUntraceableStake config chain block pprev view fJustCheck state) :
    (∀ r state', connectBlock config chain .ok block pindex pprev view fJustCheck state =
        (.returned r, state') → state' = state) ∧
      ∀ state', connectBlock config chain .ok block pindex pprev view fJustCheck state =
        (.refused, state') →
          state'.isInvalid = true ∧ (state'.corruptionPossible = true → c = true) := by
  have hreports := checkBlock_reports config.params chain.height (!fJustCheck) (!fJustCheck)
    (!fJustCheck) hcommit state hvalid
  unfold connectBlock
  rcases hcheck : checkBlock config.crypto config.params chain.height block (!fJustCheck)
    (!fJustCheck) (!fJustCheck) state with ⟨block' | _ | _, state₁⟩
  · obtain rfl : state₁ = state := checkBlock_state hvalid hcheck
    obtain ⟨fChecked, rfl⟩ := checkBlock_returned_eq hcheck
    rw [bind_returned hcheck]
    cases hbest : view.hashBlock == (pprev.head?.map CBlockIndex.hashBlock).getD 0 with
    | false =>
      simp [halt]
    | true =>
      rw [demand_true, pure_bind]
      by_cases hgen : block.getHash config.hashes = config.params.hashGenesisBlock
      · rw [if_pos hgen]
        simp [pure_apply]
      · rw [if_neg hgen]
        by_cases hstake : StakeUntraceable config chain { block with fChecked }
        · have hno' : ¬(pprev ≠ [] ∧
              block.nBits = getNextTargetRequired config.params pprev block.isProofOfStake) :=
            fun h => hno ⟨⟨_, _, hcheck⟩, by simpa using hbest, h.1, hgen, h.2, hstake⟩
          obtain ⟨state', heq | ⟨heq, hinvalid, hblame⟩⟩ :=
            connectTransactions_untraceable pindex view fJustCheck hvalid hstake hno'
          · rw [heq]
            simp
          · rw [heq]
            refine ⟨by simp, fun s h => ?_⟩
            obtain rfl := (Prod.mk.inj h).2
            exact ⟨hinvalid, by simp [hblame]⟩
        · exact connectTransactions_reports hstake state₁ hvalid
  · rw [bind_refused hcheck]
    refine ⟨by simp, fun state' h => ?_⟩
    obtain rfl := (Prod.mk.inj h).2
    exact hreports.2 state₁ hcheck
  · rw [bind_halted hcheck]
    simp

/-- A refusal leaves an invalid state exactly where `ConnectBlock` does not meet an untraceable
stake. -/
lemma connectBlock_refused_iff (hvalid : state.isValid = true) :
    (∀ state', connectBlock config chain .ok block pindex pprev view fJustCheck state =
        (.refused, state') → state'.isInvalid = true) ↔
      ¬MeetsUntraceableStake config chain block pprev view fJustCheck state := by
  constructor
  · intro h hmeets
    have hinvalid := h state (hmeets.refused hvalid)
    have hmode : state.mode = .valid := by simpa [isValid] using hvalid
    simp [isInvalid, hmode] at hinvalid
  · intro hno state' hrefused
    exact ((connectBlock_reports (c := true) hvalid (.inr rfl) hno).2 state' hrefused).1

lemma connectBlock_state {r : Connected} (hvalid : state.isValid = true)
    (h : connectBlock config chain .ok block pindex pprev view fJustCheck state =
      (.returned r, state')) : state' = state := by
  by_cases hmeets : MeetsUntraceableStake config chain block pprev view fJustCheck state
  · rw [hmeets.refused hvalid] at h
    simp at h
  · exact (connectBlock_reports (c := true) hvalid (.inr rfl) hmeets).1 r state' h

end Block

end Jumpcoin
