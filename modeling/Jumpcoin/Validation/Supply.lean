import Jumpcoin.Coins.Value
import Jumpcoin.Validation.Accepted

/-!
# The supply of coins

How a connected block changes the total of the unspent outputs. Each transaction has a flow: what
it takes in, what it pays out, and what is lost. The total after the block is the total before,
plus what the coinbase mints, plus the excess of coinstake-shaped transactions, less fees and
losses.

The reward check bounds the minted amount of a proof-of-work block by subsidy and fees, and the
excess of the one coinstake of a proof-of-stake block likewise, as long as the sums are words: the
largest amount in range is the largest word, so a sum out of range has overflowed already. Nothing
bounds the excess of coinstake-shaped transactions in a proof-of-work block.
-/

namespace Jumpcoin

open Check CValidationState List CCoinsViewCache

/-! ## Flows -/

/-- What a transaction of a block does to the total. -/
structure TxFlow where
  tx : CTransaction
  valueIn : Nat
  /-- paid to outputs that nothing can spend, or overwritten -/
  lost : Nat

namespace TxFlow

def valueOut (flow : TxFlow) : Nat := flow.tx.valueOut

def minted (flow : TxFlow) : Nat := if flow.tx.isCoinBase then flow.valueOut else 0

def excess (flow : TxFlow) : Int :=
  if flow.tx.isCoinStake then (flow.valueOut : Int) - flow.valueIn else 0

def fee (flow : TxFlow) : Int :=
  if flow.tx.isCoinBase || flow.tx.isCoinStake then 0 else (flow.valueIn : Int) - flow.valueOut

/-- The flow of a transaction that spends given outputs and is then added to a view. -/
def of (hashes : Hashes) (tx : CTransaction) (spent : List SpentOutput) (view : CCoinsViewCache) :
    TxFlow :=
  ⟨tx, (spent.map fun s => s.txout.value).sum,
    tx.valueBurned + view.valueOf (tx.getHash hashes)⟩

end TxFlow

def blockFlows (hashes : Hashes) (nHeight : Nat) : CCoinsViewCache → List CTransaction → List TxFlow
  | _, [] => []
  | view, tx :: vtx =>
    match view.spendTx tx, view.updateCoins hashes tx nHeight with
    | some (spent, view₁), some (_, view') =>
      TxFlow.of hashes tx spent view₁ :: blockFlows hashes nHeight view' vtx
    | _, _ => []

/-- What a proof-of-work block may still claim of its subsidy and fees. -/
def unclaimed (flows : List TxFlow) : Int :=
  getProofOfWorkSubsidy.toInt + (flows.map TxFlow.fee).sum -
    ((flows.map TxFlow.minted).sum : Nat)

def TxFlow.Fits (flow : TxFlow) : Prop :=
  (flow.valueIn : Int) < 2 ^ 63 ∧ (flow.valueOut : Int) < 2 ^ 63

/-- Every sum that `ConnectBlock` computes for a block is a word: what each transaction takes in and
pays out, and the fees with the subsidy. -/
def NoOverflow (flows : List TxFlow) (subsidy : CAmount) : Prop :=
  (∀ flow ∈ flows, flow.Fits) ∧ (flows.map TxFlow.fee).sum + subsidy.toInt < 2 ^ 63

instance (flow : TxFlow) : Decidable flow.Fits := inferInstanceAs (Decidable (_ ∧ _))

instance (flows : List TxFlow) (subsidy : CAmount) : Decidable (NoOverflow flows subsidy) :=
  inferInstanceAs (Decidable (_ ∧ _))

variable {spent : List SpentOutput} {view₁ : CCoinsViewCache} {tx : CTransaction}

/-! ## Sums in 64-bit words -/

variable {words : Signed.Words} {acc v : CAmount}

lemma getValueOutLoop_eq_some {vout : List CTxOut} (hacc : 0 ≤ acc.toInt)
    (hfits : acc.toInt + (vout.map CTxOut.value).sum < 2 ^ 63)
    (h : CTransaction.getValueOutLoop words acc vout = some v) :
    v.toInt = acc.toInt + (vout.map CTxOut.value).sum := by
  induction vout generalizing acc with
  | nil =>
    obtain rfl : acc = v := by simpa [CTransaction.getValueOutLoop] using h
    simp
  | cons txout vout ih =>
    simp only [CTransaction.getValueOutLoop] at h
    split_ifs at h with hrange
    simp only [Bool.or_eq_true, Bool.not_eq_true', ← Bool.not_eq_true, not_or, not_not,
      moneyRange_iff] at hrange
    have hvalue : (txout.value : Int) = txout.nValue.toInt := Int.toNat_of_nonneg hrange.1
    rw [map_cons, sum_cons, Nat.cast_add, hvalue] at hfits ⊢
    have hadd := words.add_exact (a := acc) (b := txout.nValue) ⟨by omega, by omega⟩
    rw [ih hrange.2 (by omega) h, hadd]
    ring

/-- `GetValueOut` is the sum of the outputs, if that is a word. -/
lemma getValueOut_eq_some (hfits : (tx.valueOut : Int) < 2 ^ 63)
    (h : tx.getValueOut words = some v) : v.toInt = tx.valueOut := by
  have hsum := getValueOutLoop_eq_some (by decide) (by simpa [CTransaction.valueOut] using hfits) h
  simpa [CTransaction.valueOut] using hsum

/-- `GetValueIn` gives the sum of the input loop of `CheckTxInputs`, which is exact if it is a
word. -/
lemma checkTxInputsLoop_sum {params : Params} {inputs : CCoinsViewCache}
    {nSpendHeight nTimeTx : Int} {sum : CAmount} {vin : List CTxIn}
    {state state' : CValidationState}
    (h : checkTxInputsLoop words params inputs nSpendHeight nTimeTx acc vin state =
      (.returned sum, state')) (hacc : 0 ≤ acc.toInt)
    (hspent : List.Forall₂ (fun txin s => inputs.getOutputFor txin.prevout = some s.txout) vin
      spent) :
    inputs.getValueInLoop words acc vin = some sum ∧
      (acc.toInt + (spent.map fun s => s.txout.value).sum < 2 ^ 63 →
        sum.toInt = acc.toInt + (spent.map fun s => s.txout.value).sum) := by
  induction hspent generalizing acc state with
  | nil =>
    obtain ⟨rfl, -⟩ := pure_eq_returned.mp h
    simp [CCoinsViewCache.getValueInLoop]
  | @cons txin s vin spent hout _ ih =>
    obtain ⟨v, s₁, hone, hrest⟩ := bind_eq_returned.mp h
    obtain ⟨coins, txout, haccept, rfl, hnonneg, -⟩ := checkTxInput_eq_returned.mp hone
    obtain rfl : txout = s.txout := by
      rw [getOutputFor_eq, haccept.coins_eq, Option.bind_some,
        CCoins.output_eq_some, haccept.txout_eq] at hout
      exact Option.some.inj hout.1
    obtain ⟨hin, heq⟩ := ih hrest hnonneg
    refine ⟨by simpa [CCoinsViewCache.getValueInLoop, hout] using hin, fun hfits => ?_⟩
    have hvalue : (s.txout.value : Int) = s.txout.nValue.toInt :=
      Int.toNat_of_nonneg haccept.value_nonneg
    have hvalue0 := haccept.value_nonneg
    rw [map_cons, sum_cons, Nat.cast_add, hvalue] at hfits ⊢
    have hadd := words.add_exact (a := acc) (b := s.txout.nValue) ⟨by omega, by omega⟩
    rw [heq (by omega), hadd]
    ring

/-! ## One transaction -/

/-- How an iteration of the loop of `ConnectBlock` accounts for a flow. -/
structure CountsFlow (s s' : ConnectLoop) (flow : TxFlow) : Prop where
  total : s'.view.totalValue + flow.valueIn + flow.lost = s.view.totalValue + flow.valueOut
  coinBase : flow.tx.isCoinBase = true → flow.valueIn = 0
  fee_nonneg : flow.Fits → 0 ≤ flow.fee
  fees : flow.Fits → 0 ≤ s.nFees.toInt → s.nFees.toInt + flow.fee < 2 ^ 63 →
    s'.nFees.toInt = s.nFees.toInt + flow.fee
  reward : if flow.tx.isCoinStake then flow.Fits → s'.nActualStakeReward.toInt = flow.excess
    else s'.nActualStakeReward = s.nActualStakeReward

section Transaction

variable {ctx : ConnectContext} {i : Nat} {tx : CTransaction} {s s' : ConnectLoop}

/-- The amounts of an accepted transaction other than a coinbase. -/
lemma ConnectedTx.amounts_exact (h : ConnectedTx ctx i tx s s') (hcb : tx.isCoinBase = false)
    (hspend : s.view.spendTx tx = some (spent, view₁))
    (hin : ((spent.map fun x => x.txout.value).sum : Nat) < (2 ^ 63 : Int))
    (hout : (tx.valueOut : Int) < 2 ^ 63) :
    ∃ nValueOut nValueIn : CAmount, nValueOut.toInt = tx.valueOut ∧
      nValueIn.toInt = (spent.map fun x => x.txout.value).sum ∧
      (tx.isCoinStake = false → nValueOut.toInt ≤ nValueIn.toInt) ∧
      (s'.nFees, s'.nActualStakeReward) =
        (if tx.isCoinStake then (s.nFees, ctx.config.crypto.words.sub nValueOut nValueIn)
          else (ctx.config.crypto.words.add s.nFees
            (ctx.config.crypto.words.sub nValueIn nValueOut), s.nActualStakeReward)) := by
  simp only [CCoinsViewCache.spendTx, hcb, Bool.false_eq_true, if_false] at hspend
  obtain ⟨nSpendHeight, _, _, hcheck⟩ := h.inputs hcb
  obtain ⟨-, sum, hloop, hfees⟩ := checkTxInputs_eq_returned.mp hcheck
  obtain ⟨hin', hsum⟩ := checkTxInputsLoop_sum hloop (by decide) (spendInputs_spent hspend)
  obtain ⟨nValueOut, nValueIn, hout', hvalueIn, heq⟩ := h.amounts hcb
  obtain rfl : sum = nValueIn := by
    simp only [CCoinsViewCache.getValueIn, hcb, Bool.false_eq_true, if_false] at hvalueIn
    exact Option.some.inj (hin'.symm.trans hvalueIn)
  refine ⟨nValueOut, sum, getValueOut_eq_some hout hout', ?_, fun hcs => ?_, heq⟩
  · simpa using hsum (by simpa using hin)
  simp only [hcs, Bool.false_eq_true, if_false, checkTxFees, bind_eq_returned,
    require_eq_returned, ensure_eq_returned] at hfees
  obtain ⟨v, _, ⟨hv, rfl⟩, _, _, ⟨hle, -⟩, -⟩ := hfees
  obtain rfl : v = nValueOut := Option.some.inj (hv.symm.trans hout')
  simpa [Int64.lt_iff_toInt_lt] using hle

/-- What the transaction takes out of the view and puts into it. -/
lemma totalValue_of_spendTx {hashes : Hashes} {nHeight : Int32} {view : CCoinsViewCache}
    (hspend : view.spendTx tx = some (spent, view₁)) :
    (view₁.setCoins (tx.getHash hashes) (CCoins.fromTx tx nHeight)).totalValue +
        (spent.map fun x => x.txout.value).sum +
        (tx.valueBurned + view₁.valueOf (tx.getHash hashes)) =
      view.totalValue + tx.valueOut := by
  have hspent : view₁.totalValue + (spent.map fun x => x.txout.value).sum = view.totalValue := by
    unfold CCoinsViewCache.spendTx at hspend
    split_ifs at hspend
    · obtain ⟨rfl, rfl⟩ : [] = spent ∧ view = view₁ := by simpa using hspend
      rfl
    · exact spendInputs_totalValue hspend
  have hset := view₁.totalValue_setCoins (tx.getHash hashes) (CCoins.fromTx tx nHeight)
  have hnew := CCoins.value_fromTx tx nHeight
  omega

lemma ConnectedTx.countsFlow (h : ConnectedTx ctx i tx s s')
    (hspend : s.view.spendTx tx = some (spent, view₁))
    (hview : s'.view = view₁.setCoins (tx.getHash ctx.config.hashes)
      (CCoins.fromTx tx (Int32.ofNat ctx.pindex.nHeight))) :
    CountsFlow s s' (TxFlow.of ctx.config.hashes tx spent view₁) := by
  have htotal : s'.view.totalValue + (spent.map fun x => x.txout.value).sum +
      (tx.valueBurned + view₁.valueOf (tx.getHash ctx.config.hashes)) =
        s.view.totalValue + tx.valueOut := by
    rw [hview]
    exact totalValue_of_spendTx hspend
  cases hcb : tx.isCoinBase with
  | true =>
    have hcs := CTransaction.isCoinStake_eq_false_of_isCoinBase hcb
    obtain ⟨hfees, hreward⟩ := h.coinBase hcb
    obtain ⟨rfl, -⟩ : [] = spent ∧ _ := by simpa [CCoinsViewCache.spendTx, hcb] using hspend
    have hfee : (TxFlow.of ctx.config.hashes tx [] view₁).fee = 0 := by
      simp [TxFlow.fee, TxFlow.of, hcb]
    exact ⟨htotal, fun _ => rfl, fun _ => hfee.ge, fun _ _ _ => by rw [hfees, hfee, add_zero],
      by simp [TxFlow.of, hcs, hreward]⟩
  | false =>
    cases hcs : tx.isCoinStake with
    | true =>
      have hfee : (TxFlow.of ctx.config.hashes tx spent view₁).fee = 0 := by
        simp [TxFlow.fee, TxFlow.of, hcs]
      obtain ⟨nValueOut, nValueIn, -, -, heq⟩ := h.amounts hcb
      have hfees := (Prod.mk.inj (heq.trans (if_pos hcs))).1
      refine ⟨htotal, by simp [TxFlow.of, hcb], fun _ => hfee.ge,
        fun _ _ _ => by rw [hfees, hfee, add_zero], ?_⟩
      rw [if_pos (show (TxFlow.of ctx.config.hashes tx spent view₁).tx.isCoinStake = true from hcs)]
      intro hfits
      obtain ⟨nValueOut, nValueIn, hout, hin, -, heq⟩ := h.amounts_exact hcb hspend hfits.1 hfits.2
      have hreward := (Prod.mk.inj (heq.trans (if_pos hcs))).2
      rw [hreward, ctx.config.crypto.words.sub_exact (Signed.fits_sub
        (hout ▸ Int.natCast_nonneg _) (hin ▸ Int.natCast_nonneg _)), hout, hin]
      simp [TxFlow.of, TxFlow.excess, TxFlow.valueOut, hcs]
    | false =>
      have hexact : (TxFlow.of ctx.config.hashes tx spent view₁).Fits → ∃ nFee : CAmount,
          nFee.toInt = (TxFlow.of ctx.config.hashes tx spent view₁).fee ∧ 0 ≤ nFee.toInt ∧
            s'.nFees = ctx.config.crypto.words.add s.nFees nFee := by
        intro hfits
        obtain ⟨nValueOut, nValueIn, hout, hin, hle, heq⟩ :=
          h.amounts_exact hcb hspend hfits.1 hfits.2
        have hsub := ctx.config.crypto.words.sub_exact (Signed.fits_sub
          (hin ▸ Int.natCast_nonneg _) (hout ▸ Int.natCast_nonneg _))
        refine ⟨_, ?_, hsub ▸ Int.sub_nonneg.mpr (hle hcs),
          (Prod.mk.inj (heq.trans (if_neg (by simp [hcs])))).1⟩
        rw [hsub, hout, hin]
        simp [TxFlow.fee, TxFlow.of, TxFlow.valueOut, hcb, hcs]
      obtain ⟨nValueOut, nValueIn, -, -, heq⟩ := h.amounts hcb
      have hreward := (Prod.mk.inj (heq.trans (if_neg (by simp [hcs])))).2
      refine ⟨htotal, by simp [TxFlow.of, hcb], fun hfits => ?_, fun hfits hnonneg hlt => ?_,
        by simp [TxFlow.of, hcs, hreward]⟩
      · obtain ⟨nFee, hfee, hnonneg, -⟩ := hexact hfits
        exact hfee ▸ hnonneg
      · obtain ⟨nFee, hfee, hnonneg', hfees⟩ := hexact hfits
        rw [← hfee] at hlt ⊢
        rw [hfees, ctx.config.crypto.words.add_exact ⟨by omega, hlt⟩]

end Transaction

/-! ## The run -/

/-- How the loop of `ConnectBlock` accounts for the flows of a block. -/
structure CountsFlows (s s' : ConnectLoop) (flows : List TxFlow) : Prop where
  total : (s'.view.totalValue : Int) + ((flows.map TxFlow.lost).sum : Nat) =
    s.view.totalValue + ((flows.map TxFlow.minted).sum : Nat) + (flows.map TxFlow.excess).sum -
      (flows.map TxFlow.fee).sum
  fees : (∀ flow ∈ flows, flow.Fits) → 0 ≤ (flows.map TxFlow.fee).sum ∧
    (0 ≤ s.nFees.toInt → s.nFees.toInt + (flows.map TxFlow.fee).sum < 2 ^ 63 →
      s'.nFees.toInt = s.nFees.toInt + (flows.map TxFlow.fee).sum)

variable {flow : TxFlow}

/-- Every transaction is a coinbase, coinstake-shaped, or pays a fee. -/
lemma TxFlow.balance (hcb : flow.tx.isCoinBase = true → flow.valueIn = 0) :
    (flow.valueOut : Int) - flow.valueIn = flow.minted + flow.excess - flow.fee := by
  unfold minted excess fee
  cases hbase : flow.tx.isCoinBase with
  | true =>
    have hcs := CTransaction.isCoinStake_eq_false_of_isCoinBase hbase
    simp [hcs, hcb hbase]
  | false => cases hcs : flow.tx.isCoinStake <;> simp

lemma CountsFlows.nil {s : ConnectLoop} : CountsFlows s s [] :=
  ⟨by simp, by simp⟩

variable {flows : List TxFlow}

lemma CountsFlows.cons {s s₁ s' : ConnectLoop} (hfirst : CountsFlow s s₁ flow)
    (hrest : CountsFlows s₁ s' flows) : CountsFlows s s' (flow :: flows) := by
  have hbalance := TxFlow.balance hfirst.coinBase
  have htotal := hfirst.total
  have hothers := hrest.total
  refine ⟨?_, fun hfits => ?_⟩
  · simp only [map_cons, sum_cons]
    omega
  · obtain ⟨hfit, hfits⟩ := forall_mem_cons.mp hfits
    obtain ⟨hnonneg, hsum⟩ := hrest.fees hfits
    have hfee := hfirst.fee_nonneg hfit
    rw [map_cons, sum_cons]
    refine ⟨by omega, fun hacc hlt => ?_⟩
    have hone := hfirst.fees hfit hacc (by omega)
    rw [hsum (by omega) (by omega), hone]
    ring

section Run

variable {ctx : ConnectContext} {i : Nat} {vtx : List CTransaction} {s s' : ConnectLoop}

lemma ConnectRun.exists_flow (h : ConnectRun ctx i (tx :: vtx) s s') :
    ∃ flow s₁, flow.tx = tx ∧ CountsFlow s s₁ flow ∧ ConnectRun ctx (i + 1) vtx s₁ s' ∧
      blockFlows ctx.config.hashes ctx.pindex.nHeight s.view (tx :: vtx) =
        flow :: blockFlows ctx.config.hashes ctx.pindex.nHeight s₁.view vtx := by
  cases h with
  | cons htx hrest =>
    obtain ⟨txundo, hupdate, -⟩ := htx.update
    obtain ⟨spent, view₁, hspend, -, hview⟩ := updateCoins_eq_some hupdate
    refine ⟨_, _, rfl, htx.countsFlow hspend hview, hrest, ?_⟩
    rw [blockFlows, hspend, hupdate]

lemma ConnectRun.countsFlows (h : ConnectRun ctx i vtx s s') :
    CountsFlows s s' (blockFlows ctx.config.hashes ctx.pindex.nHeight s.view vtx) := by
  induction vtx generalizing i s with
  | nil =>
    cases h
    exact .nil
  | cons tx vtx ih =>
    obtain ⟨flow, s₁, -, hflow, hrest, heq⟩ := h.exists_flow
    rw [heq]
    exact .cons hflow (ih hrest)

/-- The fees with the subsidy, as the reward check has them. -/
lemma ConnectRun.fees_add (h : ConnectRun ctx i vtx s s') (hstart : s.nFees = 0) {subsidy : CAmount}
    (hsubsidy : 0 ≤ subsidy.toInt)
    (hfits : NoOverflow (blockFlows ctx.config.hashes ctx.pindex.nHeight s.view vtx) subsidy) :
    (ctx.config.crypto.words.add s'.nFees subsidy).toInt = ((blockFlows ctx.config.hashes
      ctx.pindex.nHeight s.view vtx).map TxFlow.fee).sum + subsidy.toInt := by
  obtain ⟨hfits, hlt⟩ := hfits
  obtain ⟨hnonneg, hsum⟩ := h.countsFlows.fees hfits
  have hzero : s.nFees.toInt = 0 := by
    rw [hstart]
    rfl
  have hfees := hsum hzero.ge (by omega)
  rw [hzero, zero_add] at hfees
  rw [ctx.config.crypto.words.add_exact ⟨by omega, by omega⟩, hfees]

/-- Only coinstake-shaped transactions set the stake reward, and only they have an excess. -/
lemma ConnectRun.reward_of_forall (h : ConnectRun ctx i vtx s s')
    (hno : ∀ tx ∈ vtx, tx.isCoinStake = false) :
    s'.nActualStakeReward = s.nActualStakeReward ∧
      ((blockFlows ctx.config.hashes ctx.pindex.nHeight s.view vtx).map TxFlow.excess).sum = 0 := by
  induction vtx generalizing i s with
  | nil =>
    cases h
    exact ⟨rfl, rfl⟩
  | cons tx vtx ih =>
    obtain ⟨flow, s₁, htx, hflow, hrest, heq⟩ := h.exists_flow
    obtain ⟨hsame, hsum⟩ := ih hrest fun tx' hmem => hno tx' (mem_cons_of_mem _ hmem)
    have hcs : flow.tx.isCoinStake = false := by rw [htx, hno tx (by simp)]
    have hreward := hflow.reward
    rw [if_neg (by simp [hcs])] at hreward
    refine ⟨hsame.trans hreward, ?_⟩
    rw [heq, map_cons, sum_cons, hsum, TxFlow.excess, if_neg (by simp [hcs])]
    rfl

/-- After a coinbase nothing is minted by transactions that are none. -/
lemma ConnectRun.minted_of_forall (h : ConnectRun ctx i vtx s s')
    (hno : ∀ tx ∈ vtx, tx.isCoinBase = false) :
    ((blockFlows ctx.config.hashes ctx.pindex.nHeight s.view vtx).map TxFlow.minted).sum = 0 := by
  induction vtx generalizing i s with
  | nil => rfl
  | cons tx vtx ih =>
    obtain ⟨flow, s₁, htx, -, hrest, heq⟩ := h.exists_flow
    have hcb : flow.tx.isCoinBase = false := by rw [htx, hno tx (by simp)]
    have hsum := ih hrest fun tx' hmem => hno tx' (mem_cons_of_mem _ hmem)
    rw [heq, map_cons, sum_cons, hsum, TxFlow.minted, if_neg (by simp [hcb])]

/-- The coinbase mints all that a block mints. -/
lemma ConnectRun.minted_eq {coinBase : CTransaction} (h : ConnectRun ctx i (coinBase :: vtx) s s')
    (hcb : coinBase.isCoinBase = true) (hno : ∀ tx ∈ vtx, tx.isCoinBase = false) :
    ((blockFlows ctx.config.hashes ctx.pindex.nHeight s.view (coinBase :: vtx)).map
      TxFlow.minted).sum = coinBase.valueOut := by
  obtain ⟨flow, s₁, rfl, -, hrest, heq⟩ := h.exists_flow
  rw [heq, map_cons, sum_cons, hrest.minted_of_forall hno, TxFlow.minted, if_pos hcb]
  rfl

end Run

/-! ## The reward -/

variable {config : Config} {chain : ChainState} {block : CBlock} {pindex : CBlockIndex}
variable {pprev : List CBlockIndex} {view : CCoinsViewCache} {r : Connected}

/-- The account of a connected block, whatever the words say. -/
lemma ConnectedBlock.total (h : ConnectedBlock config chain block pindex pprev view r)
    (hflows : flows = blockFlows config.hashes pindex.nHeight view block.vtx) :
    (r.view.totalValue : Int) + ((flows.map TxFlow.lost).sum : Nat) =
      view.totalValue + ((flows.map TxFlow.minted).sum : Nat) + (flows.map TxFlow.excess).sum -
        (flows.map TxFlow.fee).sum := by
  obtain ⟨ctx, rfl, rfl, rfl, s, hrun, hview, -⟩ := h.run
  have htotal : r.view.totalValue = s.view.totalValue := by
    rw [CCoinsViewCache.totalValue, hview, CCoinsViewCache.totalValue]
  rw [htotal, hflows]
  exact hrun.countsFlows.total

/-- The total after a proof-of-work block grows by what it mints and by the excess of its
coinstake-shaped transactions; it mints no more than its subsidy and its fees. -/
lemma ConnectedBlock.proofOfWork_total (h : ConnectedBlock config chain block pindex pprev view r)
    (hpow : block.isProofOfWork = true)
    (hflows : flows = blockFlows config.hashes pindex.nHeight view block.vtx) :
    (NoOverflow flows getProofOfWorkSubsidy → 0 ≤ unclaimed flows) ∧
      (r.view.totalValue : Int) + ((flows.map TxFlow.lost).sum : Nat) + unclaimed flows =
        view.totalValue + getProofOfWorkSubsidy.toInt + (flows.map TxFlow.excess).sum := by
  have htotal := h.total hflows
  obtain ⟨ctx, rfl, rfl, rfl, s, hrun, -, -, _, _, hreward⟩ := h.run
  obtain ⟨coinBase, rest, hvtx, hcb, hrest⟩ := h.wellFormed.coinBase
  simp only [checkReward, hpow, if_true, hvtx, head?_cons, bind_eq_returned,
    require_eq_returned, ensure_eq_returned, Option.some.injEq] at hreward
  obtain ⟨_, _, ⟨rfl, rfl⟩, nValueOut, _, ⟨hout, rfl⟩, hle, -⟩ := hreward
  rw [hvtx] at hrun hflows
  have hminted := hrun.minted_eq hcb hrest
  obtain ⟨flow, s₁, hflow, -, -, hfirst⟩ := hrun.exists_flow
  have hfees := hrun.fees_add rfl (by decide : 0 ≤ getProofOfWorkSubsidy.toInt)
  simp only [← hflows] at hminted hfirst hfees
  refine ⟨fun hfits => ?_, ?_⟩
  · have hcoinBase : (coinBase.valueOut : Int) < 2 ^ 63 := by
      have hfit := (hfits.1 flow (by simp [hfirst])).2
      rwa [TxFlow.valueOut, hflow] at hfit
    have hle' : nValueOut.toInt ≤
        (ctx.config.crypto.words.add s.nFees getProofOfWorkSubsidy).toInt := by
      simpa [Int64.lt_iff_toInt_lt] using hle
    rw [getValueOut_eq_some hcoinBase hout, hfees hfits] at hle'
    rw [unclaimed, hminted]
    omega
  · rw [unclaimed]
    omega

/-- The excess of the coinstake of a proof-of-stake block is no more than its subsidy and its
fees. -/
lemma ConnectedBlock.proofOfStake_total (h : ConnectedBlock config chain block pindex pprev view r)
    (hpos : block.isProofOfStake = true)
    (hv3 : config.params.isProtocolV3 block.getBlockTime = true)
    (hfits : NoOverflow (blockFlows config.hashes pindex.nHeight view block.vtx)
      getProofOfStakeSubsidy) :
    (r.view.totalValue : Int) ≤ view.totalValue + getProofOfStakeSubsidy.toInt := by
  have htotal := h.total rfl
  obtain ⟨ctx, rfl, rfl, rfl, s, hrun, -, -, _, _, hreward⟩ := h.run
  obtain ⟨coinBase, _, hvtx', hcb, hnocb⟩ := h.wellFormed.coinBase
  obtain ⟨_, coinStake, rest, hvtx, ⟨-, hempty⟩, hcs, hrest⟩ := h.wellFormed.stake hpos
  obtain ⟨rfl, rfl⟩ := cons.inj (hvtx'.symm.trans hvtx)
  have hzero : CTransaction.valueOut coinBase = 0 := by
    refine sum_eq_zero fun n hn => ?_
    obtain ⟨txout, hmem, rfl⟩ := mem_map.mp hn
    have hnull := hempty txout hmem
    simp only [CTxOut.isEmpty, Bool.and_eq_true, beq_iff_eq] at hnull
    rw [CTxOut.value, hnull.1]
    rfl
  simp only [checkReward, CBlock.isProofOfWork, hpos, Bool.not_true, Bool.false_eq_true, if_false,
    hv3, if_true, ensure_eq_returned] at hreward
  have hle : s.nActualStakeReward.toInt ≤
      (ctx.config.crypto.words.add s.nFees getProofOfStakeSubsidy).toInt := by
    simpa [Int64.lt_iff_toInt_lt] using hreward.1
  rw [hvtx] at hrun hfits htotal
  have hminted := hrun.minted_eq hcb hnocb
  rw [hrun.fees_add rfl (by decide) hfits] at hle
  -- the excess of the block is the reward of its second transaction
  have hexcess : ((blockFlows ctx.config.hashes ctx.pindex.nHeight view
      (coinBase :: coinStake :: rest)).map TxFlow.excess).sum = s.nActualStakeReward.toInt := by
    obtain ⟨flow₀, s₁, rfl, -, hrun₁, heq₀⟩ := hrun.exists_flow
    obtain ⟨flow₁, s₂, rfl, hflow₁, hrun₂, heq₁⟩ := hrun₁.exists_flow
    obtain ⟨hsame, hnone⟩ := hrun₂.reward_of_forall hrest
    have hfirst : flow₀.excess = 0 := by
      rw [TxFlow.excess, CTransaction.isCoinStake_eq_false_of_isCoinBase hcb]
      rfl
    have hreward₁ := hflow₁.reward
    rw [if_pos hcs] at hreward₁
    rw [heq₀, heq₁, map_cons, map_cons, sum_cons, sum_cons, hnone, hfirst, hsame,
      hreward₁ (hfits.1 flow₁ (by simp [heq₀, heq₁]))]
    ring
  simp only [hminted, hexcess, hzero] at htotal
  simp only at hle
  omega

/-! ## The bounds -/

variable {disk : Disk} {fJustCheck : Bool} {state state' : CValidationState}

/-- After a proof-of-work block the total is at most the total before plus the subsidy exactly if
the coinstake-shaped transactions of the block pay out no more than they take in, up to what the
coinbase leaves unclaimed and what the block makes unspendable. -/
theorem proofOfWork_totalValue_le_iff (hflag : FlagSound config.crypto config.params block)
    (hpow : block.isProofOfWork = true)
    (h : connectBlock config chain disk block pindex pprev view fJustCheck state =
      (.returned r, state')) {flows : List TxFlow}
    (hflows : flows = blockFlows config.hashes pindex.nHeight view block.vtx) :
    (block.getHash config.hashes ≠ config.params.hashGenesisBlock →
        NoOverflow flows getProofOfWorkSubsidy → 0 ≤ unclaimed flows) ∧
      ((r.view.totalValue : Int) ≤ view.totalValue + getProofOfWorkSubsidy.toInt ↔
        block.getHash config.hashes = config.params.hashGenesisBlock ∨
          (flows.map TxFlow.excess).sum ≤
            unclaimed flows + ((flows.map TxFlow.lost).sum : Nat)) := by
  obtain ⟨-, ⟨hgen, hview, -⟩ | ⟨hgen, hblock⟩⟩ := connectBlock_returned hflag h
  · have htotal : r.view.totalValue = view.totalValue := by
      rw [CCoinsViewCache.totalValue, hview, CCoinsViewCache.totalValue]
    have hsubsidy : 0 ≤ getProofOfWorkSubsidy.toInt := by decide
    exact ⟨fun hne => absurd hgen hne, iff_of_true (by omega) (.inl hgen)⟩
  · obtain ⟨hunclaimed, htotal⟩ := hblock.proofOfWork_total hpow hflows
    refine ⟨fun _ => hunclaimed, ?_⟩
    rw [or_iff_right hgen]
    constructor <;> intro hle <;> omega

/-- A block without coinstake-shaped transactions keeps the bound. -/
theorem toySpend_totalValue_le :
    FlagSound toyConfig.crypto toyConfig.params (toyBlock [toyCoinBase, toySpend]) ∧
      (toyBlock [toyCoinBase, toySpend]).isProofOfWork = true ∧
      ∃ r state, connectBlock toyConfig toyChain .ok (toyBlock [toyCoinBase, toySpend])
          toyNextIndex toyPath (toyView 1) false .init = (.returned r, state) ∧
        (r.view.totalValue : Int) ≤ (toyView 1).totalValue + getProofOfWorkSubsidy.toInt := by
  have hpow : (toyBlock [toyCoinBase, toySpend]).isProofOfWork = true := by decide +kernel
  obtain ⟨hflag, r, state, h⟩ := toySpend_connected
  exact ⟨hflag, hpow, r, state, h,
    (proofOfWork_totalValue_le_iff hflag hpow h rfl).2.mpr (.inr (by decide +kernel))⟩

def toyMint : CTransaction :=
  { toySpend with
    vin := [⟨⟨8, 0⟩, [], 0xffffffff⟩]
    vout := [⟨0, []⟩, ⟨10000000000000, [0x51]⟩] }

def toyMintView : CCoinsViewCache where
  cacheCoins := (toyView 1).cacheCoins.insert 8
    ⟨false, false, [⟨1000, [0x51]⟩], 1, 1, 1700000000⟩
  hashBlock := 101

/-- In the third place of a proof-of-work block it creates coins out of nothing. -/
theorem toyMint_totalValue_gt :
    (toyBlock [toyCoinBase, toySpend, toyMint]).isProofOfWork = true ∧
      ∃ r state, connectBlock toyConfig toyChain .ok (toyBlock [toyCoinBase, toySpend, toyMint])
          toyNextIndex toyPath toyMintView false .init = (.returned r, state) ∧
        (toyMintView.totalValue : Int) + getProofOfWorkSubsidy.toInt < r.view.totalValue := by
  have hpow : (toyBlock [toyCoinBase, toySpend, toyMint]).isProofOfWork = true := by
    decide +kernel
  obtain ⟨r, state, h⟩ := exists_returned (x := connectBlock toyConfig toyChain .ok
    (toyBlock [toyCoinBase, toySpend, toyMint]) toyNextIndex toyPath toyMintView false)
    (s := .init) (by decide +kernel)
  refine ⟨hpow, r, state, h, ?_⟩
  obtain ⟨-, ⟨hgen, -⟩ | ⟨-, hblock⟩⟩ := connectBlock_returned (flagSound_of_unmarked rfl) h
  · exact absurd hgen (by decide +kernel)
  · obtain ⟨flows, hflows⟩ : ∃ flows, flows = blockFlows toyConfig.hashes toyNextIndex.nHeight
        toyMintView (toyBlock [toyCoinBase, toySpend, toyMint]).vtx := ⟨_, rfl⟩
    obtain ⟨-, htotal⟩ := hblock.proofOfWork_total hpow hflows
    have hsums : unclaimed flows = 542000000000 ∧ (flows.map TxFlow.lost).sum = 0 ∧
        (flows.map TxFlow.excess).sum = 9999999999000 := by
      rw [hflows]
      decide +kernel
    omega

/-- A block that stakes an output of 2000 and pays itself the largest amount twice, and 1002. -/
def toyOverflowBlock : CBlock :=
  let vtx := (toyStakeBlock 0).vtx.map fun tx =>
    if tx.isCoinStake then
      { tx with vout := tx.vout.map (fun txout =>
          if txout.isEmpty then txout else { txout with nValue := MAX_MONEY }) ++
        [⟨MAX_MONEY, [0x51]⟩, ⟨1002, [0x51]⟩] }
    else tx
  { toyStakeBlock 0 with
    hashMerkleRoot := (toyBlock vtx).hashMerkleRoot
    vtx }

/-- A node whose compiler has dropped the tests for a negative sum. -/
def toyOverflowConfig : Config :=
  { toyStakeConfig with crypto := { toyCrypto with words := .nonnegative } }

end Jumpcoin
