import Jumpcoin.Consensus.TxVerify

/-!
# The clock in transaction checks

A transaction of version 2 or later carries no time. `CheckTxInputs` gives it the adjusted network
time of the node, also when it stands in a block, where other checks take the time of the block.
So its result depends on when and where it runs, for exactly these transactions.
-/

namespace Jumpcoin

open Check CValidationState

/-- Whatever a transaction spends and in whatever block it does so, the result of `CheckTxInputs`
does not depend on the clock. -/
def ClockFree (words : Signed.Words) (params : Params) (tx : CTransaction) : Prop :=
  ∀ inputs nSpendHeight state adjustedTime adjustedTime',
    checkTxInputs words params adjustedTime tx inputs nSpendHeight state =
      checkTxInputs words params adjustedTime' tx inputs nSpendHeight state

def CTransaction.Timed (tx : CTransaction) : Prop :=
  tx.nTime ≠ 0 ∨ tx.nVersion < 2

instance (tx : CTransaction) : Decidable tx.Timed :=
  inferInstanceAs (Decidable (_ ∨ _))

lemma txTime_of_timed {tx : CTransaction} (h : tx.Timed) (adjustedTime : Int) :
    txTime tx adjustedTime = tx.nTime.toNat := by
  unfold txTime
  rw [if_neg]
  rintro ⟨hzero, hversion⟩
  rcases h with htime | hlt
  · exact htime hzero
  · exact Int32.not_lt.mpr hversion hlt

lemma txTime_of_not_timed {tx : CTransaction} (h : ¬tx.Timed) (adjustedTime : Int) :
    txTime tx adjustedTime = adjustedTime := by
  obtain ⟨hzero, hversion⟩ := not_or.mp h
  exact if_pos ⟨not_not.mp hzero, Int32.not_lt.mp hversion⟩

/-! ## A view that shows the clock -/

section

variable {words : Signed.Words} {params : Params} {tx : CTransaction} {nSpendHeight : Int}
  {nOutputs : Nat}
  {vin : List CTxIn} {view : CCoinsViewCache} {txin : CTxIn}

def timedCoins (nOutputs : Nat) : CCoins where
  fCoinBase := false
  fCoinStake := false
  vout := List.replicate nOutputs ⟨0, []⟩
  nHeight := 1
  nVersion := 1
  nTime := 1

def timedView (nOutputs : Nat) (vin : List CTxIn) : CCoinsViewCache where
  cacheCoins := vin.foldr (fun txin m => m.insert txin.prevout.hash (timedCoins nOutputs)) ∅
  hashBlock := 0

lemma accessCoins_timedView (h : txin ∈ vin) :
    (timedView nOutputs vin).accessCoins txin.prevout.hash = some (timedCoins nOutputs) := by
  unfold CCoinsViewCache.accessCoins timedView
  induction vin with
  | nil => cases h
  | cons txin' vin ih =>
    rw [List.foldr_cons]
    by_cases heq : txin.prevout.hash = txin'.prevout.hash
    · rw [heq, Finmap.lookup_insert]
    · rw [Finmap.lookup_insert_of_ne _ heq]
      rcases List.mem_cons.mp h with rfl | hmem
      · exact absurd rfl heq
      · exact ih hmem

lemma timedCoins_vout {n : Nat} (h : n < nOutputs) :
    (timedCoins nOutputs).vout[n]? = some ⟨0, []⟩ := by
  rw [timedCoins, List.getElem?_replicate, if_pos h]

lemma haveInputs_timedView (h : ∀ txin ∈ tx.vin, txin.prevout.n.toNat < nOutputs) :
    (timedView nOutputs tx.vin).haveInputs tx = true := by
  unfold CCoinsViewCache.haveInputs
  rw [Bool.or_eq_true, List.all_eq_true]
  refine .inr fun txin hmem => ?_
  rw [CCoinsViewCache.haveInput, accessCoins_timedView hmem]
  simp [CCoins.isAvailable, timedCoins_vout (h txin hmem), CTxOut.isNull]

/-- At time 1 the inputs pass and add up to nothing. -/
lemma checkTxInputsLoop_timed
    (h : ∀ txin ∈ vin, txin.prevout.n.toNat < nOutputs ∧
      view.accessCoins txin.prevout.hash = some (timedCoins nOutputs)) (state : CValidationState) :
    checkTxInputsLoop words params view nSpendHeight 1 0 vin state = (.returned 0, state) := by
  induction vin with
  | nil => rfl
  | cons txin vin ih =>
    obtain ⟨hlt, hcoins⟩ := h txin List.mem_cons_self
    have haccepted : AcceptedInput params view nSpendHeight 1 txin (timedCoins nOutputs) ⟨0, []⟩ :=
      { coins_eq := hcoins
        txout_eq := timedCoins_vout hlt
        mature := by simp [timedCoins]
        time := by simp [timedCoins]
        value_nonneg := by decide }
    rw [checkTxInputsLoop, bind_returned
      (checkTxInput_eq_returned.mpr
        ⟨_, _, haccepted, words.add_zero_zero.symm, by decide, rfl⟩)]
    exact ih fun txin' hmem => h txin' (List.mem_cons_of_mem _ hmem)

lemma checkTxFees_reason {nTimeTx : Int} {nValueIn : CAmount} {state state' : CValidationState}
    (h : checkTxFees words params tx nTimeTx nValueIn state = (.refused, state')) :
    state'.strRejectReason ≠ "bad-txns-time-earlier-than-input" := by
  unfold checkTxFees at h
  cases hout : tx.getValueOut words with
  | none => simp [hout, halt] at h
  | some nValueOut =>
    simp only [hout, require_some, pure_bind, ensure_bind_eq_refused, ensure_eq_refused] at h
    rcases h with ⟨-, rfl⟩ | ⟨-, ⟨-, rfl⟩ | ⟨-, ⟨-, rfl⟩ | ⟨-, -, rfl⟩⟩⟩ <;> simp [doS]

end

/-- The clock has no part in the check of a transaction exactly if the transaction has a time of its
own. -/
theorem clockFree_iff_timed {words : Signed.Words} {params : Params} {tx : CTransaction}
    (hvin : tx.vin ≠ []) : ClockFree words params tx ↔ tx.Timed := by
  constructor
  · intro hfree
    by_contra hnot
    -- all that is spent was made at time 1
    have hn : ∀ txin ∈ tx.vin, txin.prevout.n.toNat < 2 ^ 32 := fun txin _ =>
      txin.prevout.n.toNat_lt
    have hsame := hfree (timedView (2 ^ 32) tx.vin) 1 .init 0 1
    generalize 2 ^ 32 = nOutputs at hn hsame
    obtain ⟨txin, vin, hcons⟩ := List.exists_cons_of_ne_nil hvin
    have hearly : checkTxInputsLoop words params (timedView nOutputs tx.vin) 1 0 0 tx.vin .init =
        (.refused, doS 100 REJECT_INVALID "bad-txns-time-earlier-than-input" .init) := by
      have hcoins := @accessCoins_timedView nOutputs tx.vin txin (by simp [hcons])
      generalize timedView nOutputs tx.vin = view at hcoins
      rw [hcons]
      simp only [checkTxInputsLoop, checkTxInput, hcoins, require_some, pure_bind]
      rfl
    have hlate : checkTxInputsLoop words params (timedView nOutputs tx.vin) 1 1 0 tx.vin .init =
        (.returned 0, .init) :=
      checkTxInputsLoop_timed (fun txin hmem => ⟨hn txin hmem, accessCoins_timedView hmem⟩) .init
    rw [checkTxInputs, checkTxInputs, txTime_of_not_timed hnot, txTime_of_not_timed hnot,
      haveInputs_timedView hn, ensure_true, pure_bind, pure_bind, bind_refused hearly,
      bind_returned hlate] at hsame
    split_ifs at hsame with hstake
    · cases hsame
    · exact checkTxFees_reason hsame.symm (by simp [doS])
  · intro htimed inputs nSpendHeight state adjustedTime adjustedTime'
    rw [checkTxInputs, checkTxInputs, txTime_of_timed htimed, txTime_of_timed htimed]

def laterSpend : CTransaction where
  nVersion := 2
  nTime := 0
  vin := [⟨⟨1, 0⟩, [], 0xffffffff⟩]
  vout := [⟨1000, [0x51]⟩]
  nLockTime := 0

def laterView : CCoinsViewCache where
  cacheCoins := Finmap.singleton 1 ⟨false, false, [⟨1000, [0x51]⟩], 600, 1, 1700000000⟩
  hashBlock := 7

/-- A transaction with a time is checked alike a second before the time of what it spends and at
that time. -/
theorem laterSpend_timed :
    checkTxInputs .wrapping mainConsensus 1699999999 { laterSpend with nTime := 1700000000 }
        laterView 601 .init =
      checkTxInputs .wrapping mainConsensus 1700000000 { laterSpend with nTime := 1700000000 }
        laterView 601 .init :=
  (clockFree_iff_timed (by decide)).mpr (by decide) laterView 601 .init 1699999999 1700000000

/-- On the main network a node whose clock is a second behind refuses what another accepts. -/
theorem laterSpend_clock :
    checkTxInputs .wrapping mainConsensus 1699999999 laterSpend laterView 601 .init =
        (.refused, doS 100 REJECT_INVALID "bad-txns-time-earlier-than-input" .init) ∧
      checkTxInputs .wrapping mainConsensus 1700000000 laterSpend laterView 601 .init =
        (.returned (), .init) := by
  decide

end Jumpcoin
