import Jumpcoin.Consensus.TxVerify

/-!
# Maturity of generated coins

Outputs of coinbase and coinstake transactions may be spent only when they are buried under
`nCoinbaseMaturity` blocks. `CheckTxInputs` compares the depth with the parameter of the network
after the V3.1 switch, and with the member of a value-initialised structure, which is zero, before
it. So the rule is enforced at exactly the times after the switch.
-/

namespace Jumpcoin

open Check CValidationState

/-- Every coinbase or coinstake output a transaction spends is buried under the maturity of the
network. -/
def SpendsMature (params : Params) (inputs : CCoinsViewCache) (nSpendHeight : Int)
    (tx : CTransaction) : Prop :=
  ∀ txin ∈ tx.vin, ∀ coins, inputs.accessCoins txin.prevout.hash = some coins →
    coins.fCoinBase = true ∨ coins.fCoinStake = true →
      params.nCoinbaseMaturity ≤ nSpendHeight - coins.nHeight.toInt

/-- `CheckTxInputs` lets through only mature spends, for transactions checked at a given time. -/
def EnforcesMaturityAt (words : Signed.Words) (params : Params) (nTimeTx : Int) : Prop :=
  ∀ adjustedTime tx inputs nSpendHeight state state',
    tx.isCoinBase = false → txTime tx adjustedTime = nTimeTx →
    checkTxInputs words params adjustedTime tx inputs nSpendHeight state = (.returned (), state') →
    SpendsMature params inputs nSpendHeight tx

section

variable {words : Signed.Words} {params : Params} {nTimeTx : Int}

/-- Acceptance bounds the depth of every generated output by the maturity that was asked for, and
the time of the transaction by that of the coins. -/
lemma spendsMature_of_accepted {adjustedTime : Int} {tx : CTransaction} {inputs : CCoinsViewCache}
    {nSpendHeight : Int} {state state' : CValidationState}
    (hle : 0 ≤ txTime tx adjustedTime →
      params.nCoinbaseMaturity ≤ requiredMaturity params (txTime tx adjustedTime))
    (h : checkTxInputs words params adjustedTime tx inputs nSpendHeight state =
      (.returned (), state')) : SpendsMature params inputs nSpendHeight tx := by
  obtain ⟨-, nValueIn, hloop, -⟩ := checkTxInputs_eq_returned.mp h
  obtain ⟨hall, -⟩ := checkTxInputsLoop_returned hloop
  intro txin hmem coins hcoins hgen
  obtain ⟨coins', txout, hacc⟩ := hall txin hmem
  obtain rfl : coins' = coins := Option.some.inj (hacc.coins_eq.symm.trans hcoins)
  have htime : 0 ≤ txTime tx adjustedTime := le_trans (Int.natCast_nonneg _) hacc.time
  exact (hle htime).trans (hacc.mature hgen)

def untimedSpend : CTransaction where
  nVersion := 2
  nTime := 0
  vin := [⟨⟨1, 0⟩, [], 0xffffffff⟩]
  vout := [⟨0, [0x51]⟩]
  nLockTime := 0

def freshCoinbaseView : CCoinsViewCache where
  cacheCoins := Finmap.singleton 1 ⟨true, false, [⟨0, [0x51]⟩], 0, 1, 0⟩
  hashBlock := 0

/-- Before the switch a coinbase output is accepted in the block that creates it. -/
lemma checkTxInputs_untimedSpend (hv : params.isProtocolV3_1 nTimeTx = false)
    (ht : 0 ≤ nTimeTx) (state : CValidationState) :
    checkTxInputs words params nTimeTx untimedSpend freshCoinbaseView 0 state =
      (.returned (), state) := by
  have hacc : AcceptedInput params freshCoinbaseView 0 nTimeTx ⟨⟨1, 0⟩, [], 0xffffffff⟩
      ⟨true, false, [⟨0, [0x51]⟩], 0, 1, 0⟩ ⟨0, [0x51]⟩ :=
    { coins_eq := rfl
      txout_eq := rfl
      mature := by simp [requiredMaturity, hv, Params.valueInitialized]
      time := ht
      value_nonneg := by decide }
  have hadd := words.add_zero_zero
  refine checkTxInputs_eq_returned.mpr ⟨rfl, 0, ?_, ?_⟩
  · exact bind_eq_returned.mpr
      ⟨0, state, checkTxInput_eq_returned.mpr ⟨_, _, hacc, hadd.symm, by decide, rfl⟩, rfl⟩
  · have htime : txTime untimedSpend nTimeTx = nTimeTx := rfl
    have hrange : moneyRange 0 = true := rfl
    have hout : untimedSpend.getValueOut words = some 0 := by
      simp [CTransaction.getValueOut, CTransaction.getValueOutLoop, untimedSpend, hadd, hrange]
    have hstake : untimedSpend.isCoinStake = false := rfl
    simp [hstake, checkTxFees, htime, hout, words.sub_zero_zero, hv, hrange, pure_apply]

end

/-- The rule is enforced at the times after the V3.1 switch, and otherwise only where there is
nothing to enforce. -/
theorem enforcesMaturityAt_iff (words : Signed.Words) (params : Params) (nTimeTx : Int) :
    EnforcesMaturityAt words params nTimeTx ↔
      params.isProtocolV3_1 nTimeTx = true ∨ params.nCoinbaseMaturity ≤ 0 ∨ nTimeTx < 0 := by
  constructor
  · intro h
    by_contra hno
    obtain ⟨hv, hpos, ht⟩ : params.isProtocolV3_1 nTimeTx = false ∧ 0 < params.nCoinbaseMaturity ∧
        0 ≤ nTimeTx := by simpa using hno
    have hm := h nTimeTx untimedSpend freshCoinbaseView 0 .init .init rfl rfl
      (checkTxInputs_untimedSpend hv ht _) _ (List.mem_singleton_self _) _ rfl (.inl rfl)
    exact absurd hm (by simpa using hpos)
  · intro h adjustedTime tx inputs nSpendHeight state state' _ htime hrun
    refine spendsMature_of_accepted ?_ hrun
    intro hnonneg
    rcases h with hv | hzero | hneg
    · simp [requiredMaturity, htime, hv]
    · unfold requiredMaturity
      split_ifs
      · exact le_refl _
      · exact hzero
    · omega

def stakeSpend : CTransaction where
  nVersion := 1
  nTime := 1700000000
  vin := [⟨⟨1, 0⟩, [], 0xffffffff⟩]
  vout := [⟨100000000, [0x51]⟩]
  nLockTime := 0

def stakeView : CCoinsViewCache where
  cacheCoins := Finmap.singleton 1 ⟨false, true, [⟨100010000, [0x51]⟩], 600, 1, 1699999984⟩
  hashBlock := 7

/-- On the main network a coinstake output is spent one block after it was created. -/
theorem stakeSpend_accepted_immature :
    checkTxInputs .wrapping mainConsensus 1700000000 stakeSpend stakeView 601 .init =
        (.returned (), .init) ∧
      ¬SpendsMature mainConsensus stakeView 601 stakeSpend := by
  refine ⟨by decide, ?_⟩
  intro h
  have hm := h _ (List.mem_singleton_self _) _ rfl (.inr rfl)
  exact absurd hm (by decide)

end Jumpcoin
