import Jumpcoin.Coins.Spending
import Jumpcoin.Validation.ConnectBlock

/-!
# What acceptance of a block says

The facts that a successful `CheckBlock` and a successful `ConnectBlock` establish, stated once for
all results about connected blocks.

`CheckBlock` does nothing for a block that carries the mark of an earlier success. `Checked` says
that the block passes, now or when it was marked.
-/

namespace Jumpcoin

open Check CValidationState CCoinsViewCache

variable {config : Config} {crypto : Crypto} {params : Params} {chain : ChainState} {disk : Disk}
variable {block block' : CBlock} {state state' : CValidationState}

/-! ## Checked blocks -/

/-- What `CheckBlock` establishes about the transactions of a block, whatever it is told to skip. -/
structure WellFormed (block : CBlock) : Prop where
  size_le : block.getSerializeSize ≤ MAX_BLOCK_SIZE
  length_le : block.vtx.length ≤ MAX_BLOCK_SIZE
  coinBase : ∃ coinBase rest, block.vtx = coinBase :: rest ∧ coinBase.isCoinBase = true ∧
    ∀ tx ∈ rest, tx.isCoinBase = false
  stake : block.isProofOfStake = true → ∃ coinBase coinStake rest,
    block.vtx = coinBase :: coinStake :: rest ∧
      (coinBase.vout.length = 1 ∧ ∀ txout ∈ coinBase.vout, txout.isEmpty = true) ∧
      coinStake.isCoinStake = true ∧ ∀ tx ∈ rest, tx.isCoinStake = false
  txs : ∀ tx ∈ block.vtx, CheckedTransaction tx

/-- The mark on a block was set by a successful `CheckBlock`. -/
def FlagSound (crypto : Crypto) (params : Params) (block : CBlock) : Prop :=
  block.fChecked = true → ∃ nActiveHeight fCheckSig state block' state',
    checkBlock crypto params nActiveHeight { block with fChecked := false } true true fCheckSig
      state = (.returned block', state')

lemma flagSound_of_unmarked (h : block.fChecked = false) : FlagSound crypto params block :=
  fun hmark => absurd hmark (by simp [h])

variable {nActiveHeight : Int}

lemma checkBlockShape_returned
    (h : checkBlockShape params nActiveHeight block state = (.returned (), state')) :
    (∃ coinBase rest, block.vtx = coinBase :: rest ∧ coinBase.isCoinBase = true ∧
      ∀ tx ∈ rest, tx.isCoinBase = false) ∧
    (block.isProofOfStake = true → ∃ coinBase coinStake rest,
      block.vtx = coinBase :: coinStake :: rest ∧
        (coinBase.vout.length = 1 ∧ ∀ txout ∈ coinBase.vout, txout.isEmpty = true) ∧
        coinStake.isCoinStake = true ∧ ∀ tx ∈ rest, tx.isCoinStake = false) := by
  rcases hvtx : block.vtx with _ | ⟨coinBase, rest⟩
  · rw [checkBlockShape, hvtx] at h
    exact absurd h refuse_ne_returned
  · simp only [checkBlockShape, hvtx, bind_eq_returned, ensure_eq_returned] at h
    obtain ⟨_, _, ⟨hcb, rfl⟩, _, _, ⟨hrest, rfl⟩, _, _, ⟨-, rfl⟩, hstake⟩ := h
    refine ⟨⟨coinBase, rest, rfl, hcb, by simpa using hrest⟩, fun hpos => ?_⟩
    obtain ⟨cb, coinStake, others, hvtx', hcs⟩ := CBlock.isProofOfStake_iff.mp hpos
    obtain ⟨rfl, rfl⟩ := List.cons.inj (hvtx.symm.trans hvtx')
    simp only [checkBlockStake, hpos, if_true, bind_eq_returned, require_eq_returned,
      ensure_eq_returned] at hstake
    obtain ⟨_, _, ⟨-, rfl⟩, _, _, ⟨-, rfl⟩, _, _, ⟨hempty, rfl⟩, _, _, ⟨-, rfl⟩, hothers, rfl⟩ :=
      hstake
    rw [hvtx] at hothers
    exact ⟨coinBase, coinStake, others, rfl, by simpa using hempty, hcs, by simpa using hothers⟩

variable {vtx : List CTransaction}

lemma checkBlockTransactions_returned {nBlockTime : Int}
    (h : checkBlockTransactions crypto nBlockTime vtx state = (.returned (), state')) :
    ∀ tx ∈ vtx, CheckedTransaction tx := by
  induction vtx generalizing state with
  | nil => simp
  | cons tx vtx ih =>
    simp only [checkBlockTransactions, bind_eq_returned, onRefused_eq_returned,
      ensure_eq_returned] at h
    obtain ⟨_, _, htx, _, _, ⟨-, rfl⟩, hrest⟩ := h
    have hall := ih hrest
    intro tx' hmem
    rcases List.mem_cons.mp hmem with rfl | hmem
    · exact (checkTransaction_returned htx).1
    · exact hall tx' hmem

variable {fCheckMerkleRoot fCheckPOW fCheckSig : Bool}

lemma checkBlock_unflagged (hflag : block.fChecked = false)
    (h : checkBlock crypto params nActiveHeight block fCheckPOW fCheckMerkleRoot fCheckSig state =
      (.returned block', state')) :
    WellFormed block ∧ block' = { block with fChecked := fCheckPOW && fCheckMerkleRoot } := by
  rw [checkBlock, hflag, if_neg (by simp)] at h
  simp only [bind_eq_returned, checkBlockSize, ensure_eq_returned, checkBlockSigOps,
    pure_eq_returned] at h
  obtain ⟨_, _, -, _, _, -, _, _, ⟨hsize, rfl⟩, _, _, hshape, _, _, ⟨-, rfl⟩, _, _, htxs, _, _,
    ⟨-, rfl⟩, rfl, -⟩ := h
  obtain ⟨hcb, hstake⟩ := checkBlockShape_returned hshape
  simp only [blockSizeOk, Bool.and_eq_true, decide_eq_true_eq] at hsize
  exact ⟨⟨hsize.2, hsize.1.2, hcb, hstake, checkBlockTransactions_returned htxs⟩, rfl⟩

/-- A block that passes `CheckBlock` is well formed, and it comes back with the mark alone
changed. -/
lemma checkBlock_returned (hflag : FlagSound crypto params block)
    (h : checkBlock crypto params nActiveHeight block fCheckPOW fCheckMerkleRoot fCheckSig state =
      (.returned block', state')) :
    WellFormed block ∧ ∃ fChecked, block' = { block with fChecked } := by
  cases hf : block.fChecked with
  | false =>
    obtain ⟨hwf, rfl⟩ := checkBlock_unflagged hf h
    exact ⟨hwf, _, rfl⟩
  | true =>
    obtain ⟨_, _, _, _, _, hpass⟩ := hflag hf
    obtain ⟨hwf, -⟩ := checkBlock_unflagged rfl hpass
    rw [checkBlock, hf, if_pos rfl] at h
    obtain ⟨rfl, -⟩ := pure_eq_returned.mp h
    exact ⟨⟨hwf.size_le, hwf.length_le, hwf.coinBase, hwf.stake, hwf.txs⟩, true, by rw [← hf]⟩

/-! ## Connected transactions -/

structure ConnectedTx (ctx : ConnectContext) (i : Nat) (tx : CTransaction) (s s' : ConnectLoop) :
    Prop where
  inputs : tx.isCoinBase = false → ∃ nSpendHeight state state',
    checkTxInputs ctx.config.crypto.words ctx.config.params ctx.chain.adjustedTime tx s.view
      nSpendHeight state = (.returned (), state')
  amounts : tx.isCoinBase = false → ∃ nValueOut nValueIn,
    tx.getValueOut ctx.config.crypto.words = some nValueOut ∧
      s.view.getValueIn ctx.config.crypto.words tx = some nValueIn ∧
      (s'.nFees, s'.nActualStakeReward) =
        (if tx.isCoinStake then (s.nFees, ctx.config.crypto.words.sub nValueOut nValueIn)
          else (ctx.config.crypto.words.add s.nFees
            (ctx.config.crypto.words.sub nValueIn nValueOut), s.nActualStakeReward))
  coinBase : tx.isCoinBase = true →
    s'.nFees = s.nFees ∧ s'.nActualStakeReward = s.nActualStakeReward
  update : ∃ txundo,
    s.view.updateCoins ctx.config.hashes tx ctx.pindex.nHeight = some (txundo, s'.view) ∧
      s'.vtxundo = if i = 0 then s.vtxundo else s.vtxundo ++ [txundo]

variable {ctx : ConnectContext} {s s' : ConnectLoop} {tx : CTransaction} {i : Nat}

lemma connectTx_returned (h : ctx.connectTx i tx s state = (.returned s', state')) :
    ConnectedTx ctx i tx s s' := by
  simp only [ConnectContext.connectTx, bind_eq_returned, require_eq_returned, ensure_eq_returned,
    pure_eq_returned, Prod.exists] at h
  obtain ⟨_, _, -, _, _, -, _, _, -, nFees, nReward, _, hfees, checks, _, hinputs, txundo, view, _,
    ⟨hupdate, rfl⟩, rfl, rfl⟩ := h
  refine ⟨fun hcb => ?_, fun hcb => ?_, fun hcb => ?_, txundo, hupdate, rfl⟩
  · simp only [checkInputs, hcb, Bool.false_eq_true, if_false, bind_eq_returned,
      require_eq_returned] at hinputs
    obtain ⟨nSpendHeight, _, ⟨-, rfl⟩, _, _, hcheck, -⟩ := hinputs
    exact ⟨nSpendHeight, _, _, hcheck⟩
  · simp only [ConnectContext.countFees, hcb, Bool.false_eq_true, if_false, bind_eq_returned,
      require_eq_returned, pure_eq_returned] at hfees
    obtain ⟨nValueOut, _, ⟨hout, rfl⟩, nValueIn, _, ⟨hin, rfl⟩, heq, -⟩ := hfees
    exact ⟨nValueOut, nValueIn, hout, hin, heq.symm⟩
  · simp only [ConnectContext.countFees, hcb, if_true, pure_eq_returned, Prod.mk.injEq] at hfees
    exact ⟨hfees.1.1.symm, hfees.1.2.symm⟩

/-- The spends of an accepted transaction: one for each input, with an amount that is not
negative. -/
lemma ConnectedTx.spends (h : ConnectedTx ctx i tx s s') {spent : List SpentOutput}
    {view₁ : CCoinsViewCache} (hspend : s.view.spendTx tx = some (spent, view₁)) :
    spent.length ≤ tx.vin.length ∧
      ∀ x ∈ spent, x.coins.spend x.nPos = some x.left ∧ 0 ≤ x.txout.nValue.toInt := by
  cases hcb : tx.isCoinBase with
  | true =>
    obtain ⟨rfl, -⟩ : [] = spent ∧ _ := by simpa [CCoinsViewCache.spendTx, hcb] using hspend
    simp
  | false =>
    simp only [CCoinsViewCache.spendTx, hcb, Bool.false_eq_true, if_false] at hspend
    obtain ⟨nSpendHeight, _, _, hcheck⟩ := h.inputs hcb
    obtain ⟨-, _, hloop, -⟩ := checkTxInputs_eq_returned.mp hcheck
    obtain ⟨hall, -⟩ := checkTxInputsLoop_returned hloop
    have hspent := spendInputs_spent hspend
    refine ⟨hspent.length_eq.ge, fun x hx => ⟨spendInputs_spend hspend x hx, ?_⟩⟩
    obtain ⟨txin, htxin, hout⟩ := Loop.exists_left_of_mem hspent hx
    obtain ⟨coins, txout, hacc⟩ := hall txin htxin
    rw [getOutputFor_eq, hacc.coins_eq, Option.bind_some,
      CCoins.output_eq_some, hacc.txout_eq] at hout
    obtain rfl := Option.some.inj hout.1
    exact hacc.value_nonneg

/-- The run of the loop as a chain of connected transactions. -/
inductive ConnectRun (ctx : ConnectContext) :
    Nat → List CTransaction → ConnectLoop → ConnectLoop → Prop
  | nil {i : Nat} {s : ConnectLoop} : ConnectRun ctx i [] s s
  | cons {i : Nat} {tx : CTransaction} {vtx : List CTransaction} {s s' s'' : ConnectLoop} :
      ConnectedTx ctx i tx s s' → ConnectRun ctx (i + 1) vtx s' s'' →
      ConnectRun ctx i (tx :: vtx) s s''

lemma connectTxs_returned (h : ctx.connectTxs i vtx s state = (.returned s', state')) :
    ConnectRun ctx i vtx s s' := by
  induction vtx generalizing i s state with
  | nil =>
    obtain ⟨rfl, -⟩ := pure_eq_returned.mp h
    exact .nil
  | cons tx vtx ih =>
    obtain ⟨s₁, _, htx, hrest⟩ := bind_eq_returned.mp h
    exact .cons (connectTx_returned htx) (ih hrest)

/-! ## Scripts -/

def ScriptsPass (crypto : Crypto) (checks : List CScriptCheck) : Prop :=
  ∀ check ∈ checks, check.error crypto = none

variable {checks : List CScriptCheck}

lemma runScriptChecks_eq_returned {u : Unit} :
    runScriptChecks crypto checks state = (.returned u, state') ↔
      ScriptsPass crypto checks ∧ state = state' := by
  induction checks with
  | nil => simp [runScriptChecks, ScriptsPass, pure_eq_returned]
  | cons check checks ih =>
    unfold runScriptChecks
    cases herror : check.error crypto with
    | none => simp [ih, ScriptsPass, herror]
    | some error =>
      refine iff_of_false ?_ (by simp [ScriptsPass, herror])
      dsimp only
      split_ifs <;> exact refuse_ne_returned

/-- Whether the scripts of a transaction pass does not depend on when they are run. -/
lemma checkInputScripts_pass {inputs : CCoinsViewCache} {fScriptChecks : Bool} {flags : Nat} :
    (∃ checks, checkInputScripts config tx inputs fScriptChecks flags state =
        (.returned checks, state') ∧ ScriptsPass config.crypto checks) ↔
      state = state' ∧ (fScriptChecks = true → ∃ checks,
        scriptChecks inputs tx flags 0 tx.vin = some checks ∧
          ScriptsPass config.crypto checks) := by
  unfold checkInputScripts
  cases fScriptChecks with
  | false => simp [pure_eq_returned, ScriptsPass]
  | true =>
    simp only [if_true, bind_eq_returned, require_eq_returned, forall_const]
    by_cases hthreads : config.nScriptCheckThreads = 0
    · simp only [hthreads, if_true, bind_eq_returned, runScriptChecks_eq_returned, pure_eq_returned]
      constructor
      · rintro ⟨_, ⟨checks, _, ⟨hchecks, rfl⟩, _, _, ⟨hpass, rfl⟩, rfl, rfl⟩, -⟩
        exact ⟨rfl, checks, hchecks, hpass⟩
      · rintro ⟨rfl, checks, hchecks, hpass⟩
        exact ⟨[], ⟨checks, state, ⟨hchecks, rfl⟩, (), state, ⟨hpass, rfl⟩, rfl, rfl⟩,
          by simp [ScriptsPass]⟩
    · simp only [hthreads, if_false, pure_eq_returned]
      constructor
      · rintro ⟨_, ⟨checks, _, ⟨hchecks, rfl⟩, rfl, rfl⟩, hpass⟩
        exact ⟨rfl, checks, hchecks, hpass⟩
      · rintro ⟨rfl, checks, hchecks, hpass⟩
        exact ⟨checks, ⟨checks, state, ⟨hchecks, rfl⟩, rfl, rfl⟩, hpass⟩

lemma scriptsPass_iff :
    (checks.all fun check => (check.error crypto).isNone) = true ↔ ScriptsPass crypto checks := by
  simp [ScriptsPass]

variable {state₁ : CValidationState} {s₁ : ConnectLoop}

lemma connectTx_keeps (hrun : ctx.connectTx i tx s state = (.returned s₁, state₁)) :
    s₁.view.hashBlock = s.view.hashBlock ∧ s.vChecks ⊆ s₁.vChecks := by
  simp only [ConnectContext.connectTx, bind_eq_returned, require_eq_returned, pure_eq_returned,
    Prod.exists] at hrun
  obtain ⟨_, _, -, _, _, -, _, _, -, _, _, _, -, new, _, -, _, view, _, ⟨hupdate, rfl⟩, rfl, -⟩ :=
    hrun
  exact ⟨updateCoins_hashBlock hupdate, List.subset_append_left _ _⟩

lemma connectTxs_vChecks (hrun : ctx.connectTxs i vtx s state = (.returned s₁, state₁)) :
    s.vChecks ⊆ s₁.vChecks := by
  induction vtx generalizing i s state with
  | nil =>
    obtain ⟨rfl, -⟩ := pure_eq_returned.mp hrun
    exact List.Subset.refl _
  | cons tx vtx ih =>
    obtain ⟨s₂, _, htx, hrest⟩ := bind_eq_returned.mp hrun
    exact List.Subset.trans (connectTx_keeps htx).2 (ih hrest)

/-! ## Connected blocks -/

/-- What a successful `ConnectBlock` establishes for a block other than the genesis block. -/
structure ConnectedBlock (config : Config) (chain : ChainState) (block : CBlock)
    (pindex : CBlockIndex) (pprev : List CBlockIndex) (view : CCoinsViewCache) (r : Connected) :
    Prop where
  wellFormed : WellFormed block
  bip30 : enforceBIP30 config.params pprev = true → ∀ tx ∈ block.vtx,
    overwrites config.hashes view tx = false
  run : ∃ ctx : ConnectContext, ctx.config = config ∧ ctx.chain = chain ∧ ctx.pindex = pindex ∧
    ∃ s, ConnectRun ctx 0 block.vtx ⟨view, [], 0, 0, 0, []⟩ s ∧
      r.view.cacheCoins = s.view.cacheCoins ∧ r.blockundo = ⟨s.vtxundo⟩ ∧
      ∃ state state', checkReward config block s state = (.returned (), state')

variable {pprev : List CBlockIndex} {view : CCoinsViewCache} {pindex : CBlockIndex}
  {fJustCheck : Bool} {r : Connected}

/-- The checks of overwritten transactions and the run of the loop, in a block that was
connected. -/
lemma connectTransactions_run
    (h : connectTransactions config chain disk block pindex pprev view fJustCheck state =
      (.returned r, state')) :
    (enforceBIP30 config.params pprev = true → ∀ tx ∈ block.vtx,
      overwrites config.hashes view tx = false) ∧
    ∃ ctx : ConnectContext, ctx.config = config ∧ ctx.chain = chain ∧ ctx.pindex = pindex ∧
      ∃ s, ConnectRun ctx 0 block.vtx ⟨view, [], 0, 0, 0, []⟩ s ∧
        r.view.cacheCoins = s.view.cacheCoins ∧ r.blockundo = ⟨s.vtxundo⟩ ∧
        ∃ state state', checkReward config block s state = (.returned (), state') := by
  simp only [connectTransactions, bind_eq_returned, require_eq_returned, ensure_eq_returned,
    checkBIP30] at h
  obtain ⟨_, _, -, _, _, -, _, _, -, _, _, ⟨hbip, rfl⟩, s, _, hrun, _, _, hreward, _, _, -, _, _,
    -, hend⟩ := h
  refine ⟨fun henf => ?_, _, rfl, rfl, rfl, s, connectTxs_returned hrun, ?_⟩
  · simpa [henf] using hbip
  · cases fJustCheck with
    | true =>
      obtain ⟨rfl, -⟩ := pure_eq_returned.mp hend
      exact ⟨rfl, rfl, _, _, hreward⟩
    | false =>
      rw [if_neg (by simp)] at hend
      simp only [bind_eq_returned, ensure_eq_returned, pure_eq_returned, Prod.exists] at hend
      obtain ⟨_, _, _, -, _, _, -, rfl, -⟩ := hend
      exact ⟨rfl, rfl, _, _, hreward⟩

lemma checkBlock_returned_eq
    (h : checkBlock crypto params nActiveHeight block fCheckPOW fCheckMerkleRoot fCheckSig state =
      (.returned block', state')) : ∃ fChecked, block' = { block with fChecked } := by
  cases hf : block.fChecked with
  | false => exact ⟨_, (checkBlock_unflagged hf h).2⟩
  | true =>
    rw [checkBlock, hf, if_pos rfl] at h
    obtain ⟨rfl, -⟩ := pure_eq_returned.mp h
    exact ⟨block.fChecked, rfl⟩

section

variable (h : connectBlock config chain disk block pindex pprev view fJustCheck state =
  (.returned r, state'))
include h

lemma connectBlock_cases :
    ∃ fChecked state₁, checkBlock config.crypto config.params chain.height block (!fJustCheck)
        (!fJustCheck) (!fJustCheck) state = (.returned { block with fChecked }, state₁) ∧
      if block.getHash config.hashes = config.params.hashGenesisBlock then
        r.view.cacheCoins = view.cacheCoins ∧ r.blockundo = ⟨[]⟩ ∧ r.pindex = pindex
      else connectTransactions config chain disk { block with fChecked } pindex pprev view
        fJustCheck state₁ = (.returned r, state') := by
  simp only [connectBlock, bind_eq_returned, demand_eq_returned] at h
  obtain ⟨block', state₁, hcheck, _, _, ⟨-, rfl⟩, h⟩ := h
  obtain ⟨fChecked, rfl⟩ := checkBlock_returned_eq hcheck
  refine ⟨fChecked, state₁, hcheck, ?_⟩
  by_cases hgen : block.getHash config.hashes = config.params.hashGenesisBlock
  · rw [if_pos hgen] at h ⊢
    obtain ⟨rfl, -⟩ := pure_eq_returned.mp h
    cases fJustCheck <;> exact ⟨rfl, rfl, rfl⟩
  · rwa [if_neg hgen] at h ⊢

/-- The coins of a connected block come from a run of the loop over its transactions, whatever mark
the block carries; the genesis block leaves them alone. -/
lemma connectBlock_run :
    r.view.cacheCoins = view.cacheCoins ∨
      ∃ ctx s, ctx.config = config ∧ ConnectRun ctx 0 block.vtx ⟨view, [], 0, 0, 0, []⟩ s ∧
        r.view.cacheCoins = s.view.cacheCoins := by
  obtain ⟨fChecked, _, -, h⟩ := connectBlock_cases h
  split_ifs at h
  · exact .inl h.1
  · obtain ⟨-, ctx, hconfig, -, -, s, hrun, hcoins, -⟩ := connectTransactions_run h
    exact .inr ⟨ctx, s, hconfig, hrun, hcoins⟩

end

/-- A connected block is the genesis block, which leaves the coins alone, or a `ConnectedBlock`. -/
lemma connectBlock_returned (hflag : FlagSound config.crypto config.params block)
    (h : connectBlock config chain disk block pindex pprev view fJustCheck state =
      (.returned r, state')) :
    WellFormed block ∧
      ((block.getHash config.hashes = config.params.hashGenesisBlock ∧
          r.view.cacheCoins = view.cacheCoins ∧ r.blockundo = ⟨[]⟩) ∨
        (block.getHash config.hashes ≠ config.params.hashGenesisBlock ∧
          ConnectedBlock config chain block pindex pprev view r)) := by
  obtain ⟨fChecked, _, hcheck, h⟩ := connectBlock_cases h
  have hwf := (checkBlock_returned hflag hcheck).1
  refine ⟨hwf, ?_⟩
  split_ifs at h with hgen
  · exact .inl ⟨hgen, h.1, h.2.1⟩
  · obtain ⟨hbip, hrun⟩ := connectTransactions_run h
    exact .inr ⟨hgen, hwf, hbip, hrun⟩

/-! ## The entry of a connected block -/

/-- The entry of a connected block is raised to `BLOCK_VALID_SCRIPTS` and has its undo data and its
stake modifier; only the genesis block leaves its entry alone. -/
lemma connectBlock_pindex
    (h : connectBlock config chain disk block pindex pprev view false state =
      (.returned r, state')) :
    (block.getHash config.hashes = config.params.hashGenesisBlock ∧ r.pindex = pindex) ∨
      (block.getHash config.hashes ≠ config.params.hashGenesisBlock ∧
        ∃ nStakeModifier, r.pindex = { pindex with
          nStakeModifier
          nStatus := BlockStatus.raiseValidity { pindex.nStatus with haveUndo := true }
            BLOCK_VALID_SCRIPTS }) := by
  obtain ⟨fChecked, _, -, h⟩ := connectBlock_cases h
  split_ifs at h with hgen
  · exact .inl ⟨hgen, h.2.2⟩
  · simp only [connectTransactions, bind_eq_returned, require_eq_returned, ensure_eq_returned,
      Bool.false_eq_true, if_false, pure_eq_returned, Prod.exists] at h
    obtain ⟨_, _, -, _, _, -, _, _, -, _, _, -, _, _, -, _, _, -, kernel, _, -, _, _, -, _, _, _,
      hundo, _, _, -, rfl, -⟩ := h
    refine .inr ⟨hgen, ?_⟩
    unfold writeUndo at hundo
    split_ifs at hundo with hhave
    · obtain ⟨heq, -⟩ := pure_eq_returned.mp hundo
      obtain rfl := (Prod.mk.inj heq).1
      refine ⟨computeStakeModifier config.hashes pprev kernel, ?_⟩
      have hstatus : { pindex.nStatus with haveUndo := true } = pindex.nStatus := by
        rw [← hhave]
      rw [hstatus]
    · simp only [bind_eq_returned, ensure_eq_returned, pure_eq_returned, Prod.mk.injEq] at hundo
      obtain ⟨_, _, -, _, _, -, ⟨rfl, -⟩, -⟩ := hundo
      exact ⟨_, rfl⟩

/-! ## A block that is accepted -/

lemma toySpend_connected :
    FlagSound toyConfig.crypto toyConfig.params (toyBlock [toyCoinBase, toySpend]) ∧
      ∃ r state, connectBlock toyConfig toyChain .ok (toyBlock [toyCoinBase, toySpend]) toyNextIndex
        toyPath (toyView 1) false .init = (.returned r, state) :=
  ⟨flagSound_of_unmarked rfl, exists_returned (by decide +kernel)⟩

end Jumpcoin
