import Jumpcoin.Coins.View
import Jumpcoin.Consensus.Params
import Jumpcoin.Consensus.Validation

/-!
# Transaction checks

The checks of `main.cpp` on a single transaction: those that need no context
(`CheckTransaction`), the minimum fee, and those against the outputs it spends
(`Consensus::CheckTxInputs`). Amounts are added up as the node's arithmetic of words has it, which
is exact as long as the sums are words.
-/

namespace Jumpcoin

open Check CValidationState

def MAX_BLOCK_SIZE : Nat := 1000000

def MAX_STANDARD_TX_SIZE : Nat := 100000

/-! ## Checks without context -/

variable (words : Signed.Words)

def checkTransactionOutputs (userTx : Bool) (nValueOut : CAmount) : List CTxOut → Validate Unit
  | [] => pure ()
  | txout :: rest => do
    ensure (!(txout.isEmpty && userTx)) (doS 100 0 "")
    ensure (!decide (txout.nValue < 0)) (doS 100 REJECT_INVALID "bad-txns-vout-negative")
    ensure (!decide (MAX_MONEY < txout.nValue)) (doS 100 REJECT_INVALID "bad-txns-vout-toolarge")
    ensure (moneyRange (words.add nValueOut txout.nValue))
      (doS 100 REJECT_INVALID "bad-txns-txouttotal-toolarge")
    checkTransactionOutputs userTx (words.add nValueOut txout.nValue) rest

/-- The duplicate-input loop of `CheckTransaction` with the outpoints seen so far. -/
def checkTransactionInputs (vInOutPoints : List COutPoint) : List CTxIn → Validate Unit
  | [] => pure ()
  | txin :: rest => do
    ensure (!vInOutPoints.contains txin.prevout)
      (doS 100 REJECT_INVALID "bad-txns-inputs-duplicate")
    checkTransactionInputs (txin.prevout :: vInOutPoints) rest

/-- The last part of `CheckTransaction`: the script of a coinbase has 2 to 100 bytes, and other
transactions have no null input. -/
def checkTransactionPrevouts (tx : CTransaction) : Validate Unit :=
  if tx.isCoinBase then
    ensure (tx.vin.all fun txin =>
        decide (2 ≤ txin.scriptSig.length) && decide (txin.scriptSig.length ≤ 100))
      (doS 100 REJECT_INVALID "bad-cb-length")
  else
    ensure (tx.vin.all fun txin => !txin.prevout.isNull)
      (doS 10 REJECT_INVALID "bad-txns-prevout-null")

def checkTransaction (tx : CTransaction) : Validate Unit := do
  ensure (!tx.vin.isEmpty) (doS 10 REJECT_INVALID "bad-txns-vin-empty")
  ensure (!tx.vout.isEmpty) (doS 10 REJECT_INVALID "bad-txns-vout-empty")
  ensure (decide (tx.getSerializeSize ≤ MAX_BLOCK_SIZE))
    (doS 100 REJECT_INVALID "bad-txns-oversize")
  checkTransactionOutputs words (!tx.isCoinBase && !tx.isCoinStake) 0 tx.vout
  checkTransactionInputs [] tx.vin
  checkTransactionPrevouts tx

/-! ## Fees -/

def MIN_TX_FEE : CAmount := 10000
def TX_FEE_PER_KB : CAmount := 100000
def DEFAULT_MIN_RELAY_TX_FEE : CAmount := 10000

def getFee (nSatoshisPerK : CAmount) (nBytes : Nat) : CAmount :=
  let nSize := Int64.ofNat nBytes
  let nFee := nSatoshisPerK * nSize / 1000
  if nFee = 0 ∧ nSize ≠ 0 then
    if 0 < nSatoshisPerK then 1 else if nSatoshisPerK < 0 then -1 else nFee
  else nFee

/-- `GetMinFee`; the time reaches it as a 32-bit word. -/
def getMinFee (params : Params) (tx : CTransaction) (nTimeTx : UInt32) : CAmount :=
  let nBytes := tx.getSerializeSize
  let nMinFee :=
    if params.isProtocolV3_1 nTimeTx.toNat then
      if nBytes ≤ 100 then MIN_TX_FEE else getFee TX_FEE_PER_KB nBytes
    else getFee DEFAULT_MIN_RELAY_TX_FEE nBytes
  if moneyRange nMinFee then nMinFee else MAX_MONEY

/-! ## Checks against the spent outputs -/

/-- The time a transaction is checked at: from version 2 on it carries none, and the adjusted
network time stands in. -/
def txTime (tx : CTransaction) (adjustedTime : Int) : Int :=
  if tx.nTime = 0 ∧ 2 ≤ tx.nVersion then adjustedTime else tx.nTime.toNat

/-- The maturity `CheckTxInputs` asks of a coinbase or coinstake output. Before the V3.1 switch the
source reads it from `Params()`, which inside `namespace Consensus` is a fresh
`Consensus::Params`. -/
def requiredMaturity (params : Params) (nTimeTx : Int) : Int :=
  if params.isProtocolV3_1 nTimeTx then params.nCoinbaseMaturity
  else Params.valueInitialized.nCoinbaseMaturity

section

variable (params : Params) (inputs : CCoinsViewCache) (nSpendHeight nTimeTx : Int)

/-- One iteration of the input loop of `CheckTxInputs`: the sum of the inputs so far in, with this
input out. -/
def checkTxInput (nValueIn : CAmount) (txin : CTxIn) : Validate CAmount := do
  let coins ← require (inputs.accessCoins txin.prevout.hash)
  ensure (!((coins.fCoinBase || coins.fCoinStake) &&
      decide (nSpendHeight - coins.nHeight.toInt < requiredMaturity params nTimeTx)))
    (markInvalid REJECT_INVALID "bad-txns-premature-spend-of-coinbase" "")
  ensure (!decide (nTimeTx < coins.nTime.toNat))
    (doS 100 REJECT_INVALID "bad-txns-time-earlier-than-input")
  let txout ← require coins.vout[txin.prevout.n.toNat]?
  let sum := words.add nValueIn txout.nValue
  ensure (moneyRange txout.nValue && moneyRange sum)
    (doS 100 REJECT_INVALID "bad-txns-inputvalues-outofrange")
  pure sum

def checkTxInputsLoop (nValueIn : CAmount) : List CTxIn → Validate CAmount
  | [] => pure nValueIn
  | txin :: rest => do
    let sum ← checkTxInput words params inputs nSpendHeight nTimeTx nValueIn txin
    checkTxInputsLoop sum rest

end

/-- The fee checks at the end of `CheckTxInputs`, made of every transaction but a coinstake. -/
def checkTxFees (params : Params) (tx : CTransaction) (nTimeTx : Int) (nValueIn : CAmount) :
    Validate Unit := do
  let nValueOut ← require (tx.getValueOut words)
  ensure (!decide (nValueIn < nValueOut)) (doS 100 REJECT_INVALID "bad-txns-in-belowout")
  let nFees := words.sub nValueIn nValueOut
  ensure (!decide (nFees < 0)) (doS 100 REJECT_INVALID "bad-txns-fee-negative")
  ensure (moneyRange nFees) (doS 100 REJECT_INVALID "bad-txns-fee-outofrange")
  ensure (!(params.isProtocolV3_1 nTimeTx &&
      decide (nFees < getMinFee params tx (UInt32.ofNat (nTimeTx % 2 ^ 32).toNat))))
    (doS 100 REJECT_INVALID "bad-txns-fee-not-enough")

def checkTxInputs (params : Params) (adjustedTime : Int) (tx : CTransaction)
    (inputs : CCoinsViewCache) (nSpendHeight : Int) : Validate Unit := do
  ensure (inputs.haveInputs tx) (markInvalid 0 "" "Inputs unavailable")
  let nTimeTx := txTime tx adjustedTime
  let nValueIn ← checkTxInputsLoop words params inputs nSpendHeight nTimeTx 0 tx.vin
  if tx.isCoinStake then pure () else checkTxFees words params tx nTimeTx nValueIn

/-! ## What acceptance says -/

section Acceptance

variable {words} {params : Params} {inputs : CCoinsViewCache} {nSpendHeight nTimeTx : Int}
variable {state state' : CValidationState} {tx : CTransaction} {nValueIn sum : CAmount}
  {vin : List CTxIn}

structure CheckedTransaction (tx : CTransaction) : Prop where
  vin_ne : tx.vin ≠ []
  size_le : tx.getSerializeSize ≤ MAX_BLOCK_SIZE
  value_nonneg : ∀ txout ∈ tx.vout, 0 ≤ txout.nValue.toInt
  nodup : (tx.vin.map CTxIn.prevout).Nodup

lemma checkTransactionOutputs_returned {userTx : Bool} {nValueOut : CAmount} {vout : List CTxOut}
    (h : checkTransactionOutputs words userTx nValueOut vout state = (.returned (), state')) :
    (∀ txout ∈ vout, 0 ≤ txout.nValue.toInt) ∧ state' = state := by
  induction vout generalizing nValueOut state with
  | nil =>
    obtain ⟨-, rfl⟩ := pure_eq_returned.mp h
    simp
  | cons txout vout ih =>
    simp only [checkTransactionOutputs, bind_eq_returned, ensure_eq_returned] at h
    obtain ⟨_, _, ⟨-, rfl⟩, _, _, ⟨hneg, rfl⟩, _, _, ⟨-, rfl⟩, _, _, ⟨-, rfl⟩, hrest⟩ := h
    obtain ⟨hall, rfl⟩ := ih hrest
    have hvalue : 0 ≤ txout.nValue.toInt := by
      simpa [Int64.lt_iff_toInt_lt] using hneg
    exact ⟨by simpa using ⟨hvalue, hall⟩, rfl⟩

lemma checkTransactionInputs_returned {seen : List COutPoint}
    (h : checkTransactionInputs seen vin state = (.returned (), state')) :
    (vin.map CTxIn.prevout).Nodup ∧ (∀ txin ∈ vin, txin.prevout ∉ seen) ∧ state' = state := by
  induction vin generalizing seen state with
  | nil =>
    obtain ⟨-, rfl⟩ := pure_eq_returned.mp h
    simp
  | cons txin vin ih =>
    simp only [checkTransactionInputs, bind_eq_returned, ensure_eq_returned] at h
    obtain ⟨_, _, ⟨hnew, rfl⟩, hrest⟩ := h
    obtain ⟨hnodup, hall, rfl⟩ := ih hrest
    have hnew' : txin.prevout ∉ seen := by simpa using hnew
    refine ⟨?_, ?_, rfl⟩
    · rw [List.map_cons, List.nodup_cons, List.mem_map]
      refine ⟨?_, hnodup⟩
      rintro ⟨txin', hmem, heq⟩
      exact hall txin' hmem (by simp [heq])
    · intro txin' hmem
      rcases List.mem_cons.mp hmem with rfl | hmem
      · exact hnew'
      · exact fun hseen => hall txin' hmem (List.mem_cons_of_mem _ hseen)

lemma checkTransactionPrevouts_returned
    (h : checkTransactionPrevouts tx state = (.returned (), state')) : state' = state := by
  unfold checkTransactionPrevouts at h
  split_ifs at h <;> exact (ensure_eq_returned.mp h).2.symm

lemma checkTransaction_returned (h : checkTransaction words tx state = (.returned (), state')) :
    CheckedTransaction tx ∧ state' = state := by
  simp only [checkTransaction, bind_eq_returned, ensure_eq_returned] at h
  obtain ⟨_, _, ⟨hvin, rfl⟩, _, _, ⟨-, rfl⟩, _, _, ⟨hsize, rfl⟩, _, _, houts, _, _, hins,
    hprev⟩ := h
  obtain ⟨hvalue, rfl⟩ := checkTransactionOutputs_returned houts
  obtain ⟨hnodup, -, rfl⟩ := checkTransactionInputs_returned hins
  obtain rfl := checkTransactionPrevouts_returned hprev
  exact ⟨⟨by simpa using hvin, by simpa using hsize, hvalue, hnodup⟩, rfl⟩

structure AcceptedInput (params : Params) (inputs : CCoinsViewCache) (nSpendHeight nTimeTx : Int)
    (txin : CTxIn) (coins : CCoins) (txout : CTxOut) : Prop where
  coins_eq : inputs.accessCoins txin.prevout.hash = some coins
  txout_eq : coins.vout[txin.prevout.n.toNat]? = some txout
  mature : coins.fCoinBase = true ∨ coins.fCoinStake = true →
    requiredMaturity params nTimeTx ≤ nSpendHeight - coins.nHeight.toInt
  time : (coins.nTime.toNat : Int) ≤ nTimeTx
  value_nonneg : 0 ≤ txout.nValue.toInt

lemma checkTxInput_eq_returned {txin : CTxIn} :
    checkTxInput words params inputs nSpendHeight nTimeTx nValueIn txin state =
        (.returned sum, state') ↔
      ∃ coins txout, AcceptedInput params inputs nSpendHeight nTimeTx txin coins txout ∧
        sum = words.add nValueIn txout.nValue ∧ 0 ≤ sum.toInt ∧ state' = state := by
  simp only [checkTxInput, bind_eq_returned, require_eq_returned, ensure_eq_returned,
    pure_eq_returned, Bool.and_eq_true, moneyRange_iff]
  constructor
  · rintro ⟨coins, _, ⟨hcoins, rfl⟩, _, _, ⟨hmature, rfl⟩, _, _, ⟨htime, rfl⟩, txout, _,
      ⟨htxout, rfl⟩, _, _, ⟨hrange, rfl⟩, rfl, rfl⟩
    refine ⟨coins, txout, ⟨hcoins, htxout, ?_, by simpa using htime, hrange.1⟩, rfl, hrange.2, rfl⟩
    rintro (hgen | hgen) <;> simpa [hgen] using hmature
  · rintro ⟨coins, txout, hacc, rfl, hsum, rfl⟩
    refine ⟨coins, _, ⟨hacc.coins_eq, rfl⟩, (), _, ⟨?_, rfl⟩, (), _,
      ⟨by simpa using hacc.time, rfl⟩, txout, _, ⟨hacc.txout_eq, rfl⟩, (), _,
      ⟨⟨hacc.value_nonneg, hsum⟩, rfl⟩, rfl, rfl⟩
    have hmature := hacc.mature
    cases hcb : coins.fCoinBase <;> cases hcs : coins.fCoinStake <;> simp_all

/-- Every input of an accepted loop is accepted, and the loop leaves the state alone. -/
lemma checkTxInputsLoop_returned
    (h : checkTxInputsLoop words params inputs nSpendHeight nTimeTx nValueIn vin state =
      (.returned sum, state')) :
    (∀ txin ∈ vin, ∃ coins txout,
      AcceptedInput params inputs nSpendHeight nTimeTx txin coins txout) ∧ state' = state := by
  induction vin generalizing nValueIn state with
  | nil =>
    obtain ⟨-, rfl⟩ := pure_eq_returned.mp h
    simp
  | cons txin vin ih =>
    obtain ⟨v, s₁, hone, hrest⟩ := bind_eq_returned.mp h
    obtain ⟨coins, txout, hacc, -, -, rfl⟩ := checkTxInput_eq_returned.mp hone
    obtain ⟨hall, rfl⟩ := ih hrest
    refine ⟨?_, rfl⟩
    intro txin' hmem
    rcases List.mem_cons.mp hmem with rfl | hmem
    · exact ⟨coins, txout, hacc⟩
    · exact hall txin' hmem

lemma checkTxInputs_eq_returned {adjustedTime : Int} :
    checkTxInputs words params adjustedTime tx inputs nSpendHeight state = (.returned (), state') ↔
      inputs.haveInputs tx = true ∧ ∃ nValueIn,
        checkTxInputsLoop words params inputs nSpendHeight (txTime tx adjustedTime) 0 tx.vin state =
          (.returned nValueIn, state) ∧
        (if tx.isCoinStake then pure ()
          else checkTxFees words params tx (txTime tx adjustedTime) nValueIn) state =
            (.returned (), state') := by
  simp only [checkTxInputs, bind_eq_returned, ensure_eq_returned]
  constructor
  · rintro ⟨-, _, ⟨hhave, rfl⟩, nValueIn, s₁, hloop, hfees⟩
    obtain ⟨-, rfl⟩ := checkTxInputsLoop_returned hloop
    exact ⟨hhave, nValueIn, hloop, hfees⟩
  · rintro ⟨hhave, nValueIn, hloop, hfees⟩
    exact ⟨(), state, ⟨hhave, rfl⟩, nValueIn, state, hloop, hfees⟩

end Acceptance

end Jumpcoin
