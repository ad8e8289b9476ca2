import Jumpcoin.Foundation.SubsetSum
import Jumpcoin.Wallet.Staking

/-!
# Choosing coins to spend

`SelectCoinsMinConf` and `ApproximateBestSubset` of `wallet/wallet.cpp`. Among the listed outputs
those are eligible that can be spent, are deep enough and have a short chain of unconfirmed
transactions. A coin worth the target is taken at once. Otherwise the coins below the target plus
the minimum change are collected, and the smallest of the others is kept; the target is then met by
the collected coins, by a random subset of them or by that single coin.

The outcomes of the random shuffle and of the random passes are given from outside. Amounts are
signed words, and adding them is undefined where the sum is not one.
-/

namespace Jumpcoin

open List Option Int64

open Signed (Arithmetic Fits)
open Subset (marked)
open StakeContext (exactAmountOf)
open CWallet (COutput)

def MIN_CHANGE : CAmount := CENT

namespace Coin

abbrev nValue (coin : Coin) : CAmount := coin.txout.nValue

def key (coin : Coin) : COutPoint := ⟨coin.entry, coin.n⟩

end Coin

/-- The outcomes of `random_shuffle`, of `std::sort` among equal values and of the random passes:
the bit for each repetition and position, in the first and in the second approximation. -/
structure Chance where
  shuffle : List COutput → List COutput
  shuffle_perm : ∀ vCoins, (shuffle vCoins).Perm vCoins
  sort : List Coin → List Coin
  sort_perm : ∀ vValue, (sort vValue).Perm vValue
  sort_sorted : ∀ vValue, (sort vValue).Pairwise fun a b => a.nValue ≤ b.nValue
  firstBits : Nat → Nat → Bool
  secondBits : Nat → Nat → Bool

namespace Chance

def valueLe (a b : Coin) : Bool := decide (a.nValue ≤ b.nValue)

lemma pairwise_sort (vValue : List Coin) :
    (vValue.mergeSort valueLe).Pairwise fun a b => a.nValue ≤ b.nValue := by
  have htrans (a b c : Coin) (hab : valueLe a b = true) (hbc : valueLe b c = true) :
      valueLe a c = true :=
    decide_eq_true (Int64.le_trans (of_decide_eq_true hab) (of_decide_eq_true hbc))
  have htotal (a b : Coin) : (valueLe a b || valueLe b a) = true := by
    simpa [valueLe] using Int64.le_total a.nValue b.nValue
  exact (pairwise_mergeSort htrans htotal vValue).imp of_decide_eq_true

/-- A given shuffle, a stable sort and passes over no coins. -/
def shuffled (shuffle : List COutput → List COutput)
    (shuffle_perm : ∀ vCoins, (shuffle vCoins).Perm vCoins) : Chance where
  shuffle := shuffle
  shuffle_perm := shuffle_perm
  sort vValue := vValue.mergeSort valueLe
  sort_perm vValue := List.mergeSort_perm vValue valueLe
  sort_sorted := pairwise_sort
  firstBits _ _ := false
  secondBits _ _ := false

end Chance

/-- What is asked of an output: its depth if the transaction is from us and if it is not, and how
many unconfirmed ancestors and descendants the transaction may have. -/
structure SelectionPolicy where
  nConfMine : Int
  nConfTheirs : Int
  nMaxAncestors : UInt64

/-- The number of ancestors and of descendants of the transactions in the memory pool. -/
abbrev PoolCounts := Uint256 → Option (UInt64 × UInt64)

def transactionWithinChainLimit (pool : PoolCounts) (txid : Uint256) (chainLimit : UInt64) : Bool :=
  match pool txid with
  | none => true
  | some (nCountWithAncestors, nCountWithDescendants) =>
    decide (nCountWithAncestors < chainLimit) && decide (nCountWithDescendants < chainLimit)

/-! ## The approximation of the best subset -/

structure Best where
  vfBest : List Bool
  nBest : CAmount

structure SubsetPass where
  nTotal : CAmount
  vfIncluded : List Bool
  fReachedTarget : Bool
  best : Best

section Approximation

variable (arith : Arithmetic) (nTargetValue : CAmount)

/-- A pass adds the coin at a position; a coin that reaches the target is taken out again. -/
def includeCoin (coin : Coin) (i : Nat) (s : SubsetPass) : Option SubsetPass := do
  let nTotal ← arith.add s.nTotal coin.nValue
  let vfIncluded := s.vfIncluded.set i true
  if nTargetValue ≤ nTotal then
    let best := if nTotal < s.best.nBest then ⟨vfIncluded, nTotal⟩ else s.best
    let nTotal ← arith.sub nTotal coin.nValue
    some ⟨nTotal, vfIncluded.set i false, true, best⟩
  else some { s with nTotal, vfIncluded }

/-- One pass from a position on; which coins are tried depends on the position and on whether the
coin is included. -/
def passLoop (tried : Nat → Bool → Bool) : List Coin → Nat → SubsetPass → Option SubsetPass
  | [], _, s => some s
  | coin :: rest, i, s =>
    if tried i (s.vfIncluded.getD i false) then do
      let s ← includeCoin arith nTargetValue coin i s
      passLoop tried rest (i + 1) s
    else passLoop tried rest (i + 1) s

/-- A pass over random coins, and if that does not reach the target one over the others. -/
def repetition (bits : Nat → Bool) (vValue : List Coin) (best : Best) : Option Best := do
  let s ← passLoop arith nTargetValue (fun i _ => bits i) vValue 0
    ⟨0, List.replicate vValue.length false, false, best⟩
  if s.fReachedTarget then some s.best
  else do
    let s ← passLoop arith nTargetValue (fun _ included => !included) vValue 0 s
    some s.best

def approximateLoop (bits : Nat → Nat → Bool) (vValue : List Coin) : Nat → Nat → Best → Option Best
  | 0, _, best => some best
  | left + 1, nRep, best =>
    if best.nBest = nTargetValue then some best
    else do
      let best ← repetition arith nTargetValue (bits nRep) vValue best
      approximateLoop bits vValue left (nRep + 1) best

def approximateBestSubset (bits : Nat → Nat → Bool) (vValue : List Coin) (nTotalLower : CAmount) :
    Option Best :=
  approximateLoop arith nTargetValue bits vValue 1000 0
    ⟨List.replicate vValue.length true, nTotalLower⟩

end Approximation

/-! ## The selection -/

/-- The coins below the target plus the minimum change with their total, and the lowest other. -/
structure Gathered where
  coinLowestLarger : Option Coin
  vValue : List Coin
  nTotalLower : CAmount

namespace Gathered

def start : Gathered := ⟨none, [], 0⟩

/-- `coinLowestLarger.first`, which starts at the largest word. -/
def lowestLarger (g : Gathered) : CAmount :=
  match g.coinLowestLarger with
  | none => Int64.maxValue
  | some coin => coin.nValue

end Gathered

namespace CWallet

section Selection

variable (arith : Arithmetic) (ctx : WalletContext) (pool : PoolCounts) (w : CWallet)
variable (policy : SelectionPolicy) (nTargetValue : CAmount)

/-- Whether an output may be chosen; no value where `IsFromMe` throws. -/
def eligible (output : COutput) : Option Bool :=
  if !output.fSpendable then some false
  else do
    let pcoin ← w.lookup output.outpoint.hash
    let (nDebit, _) ← w.getDebitAll ctx pcoin
    if output.nDepth < (if 0 < nDebit then policy.nConfMine else policy.nConfTheirs) then some false
    else some (transactionWithinChainLimit pool (pcoin.tx.getHash ctx.hashes) policy.nMaxAncestors)

/-- An eligible coin is worth the target, or is sorted in. -/
def gatherCoin (coin : Coin) (g : Gathered) : Option (Coin ⊕ Gathered) :=
  if coin.nValue = nTargetValue then some (.inl coin)
  else do
    let limit ← arith.add nTargetValue MIN_CHANGE
    if coin.nValue < limit then do
      let nTotalLower ← arith.add g.nTotalLower coin.nValue
      some (.inr { g with vValue := g.vValue ++ [coin], nTotalLower })
    else if coin.nValue < g.lowestLarger then
      some (.inr { g with coinLowestLarger := some coin })
    else some (.inr g)

def gatherLoop : List COutput → Gathered → Option (Coin ⊕ Gathered)
  | [], g => some (.inr g)
  | output :: rest, g => do
    let fEligible ← eligible ctx pool w policy output
    if fEligible then do
      let coin ← w.coin output.outpoint
      let gathered ← gatherCoin arith nTargetValue coin g
      match gathered with
      | .inl coin => some (.inl coin)
      | .inr g => gatherLoop rest g
    else gatherLoop rest g

def takeCoins : List Coin → List Coin → CAmount → Option (Bool × List Coin × CAmount)
  | [], setCoinsRet, nValueRet => some (true, setCoinsRet, nValueRet)
  | coin :: rest, setCoinsRet, nValueRet => do
    let nValueRet ← arith.add nValueRet coin.nValue
    takeCoins rest (insertCoin setCoinsRet coin) nValueRet

/-- The subset for the target, or one that leaves at least the minimum change. -/
def bestSubset (chance : Chance) (vValue : List Coin) (nTotalLower : CAmount) : Option Best := do
  let best ← approximateBestSubset arith nTargetValue chance.firstBits vValue nTotalLower
  if best.nBest = nTargetValue then some best
  else do
    let limit ← arith.add nTargetValue MIN_CHANGE
    if limit ≤ nTotalLower then
      approximateBestSubset arith limit chance.secondBits vValue nTotalLower
    else some best

/-- Whether the approximation didn't find a good solution, or the next bigger coin is closer. -/
def prefersLarger (coin : Coin) (nBest : CAmount) : Option Bool :=
  if nBest = nTargetValue then some (decide (coin.nValue ≤ nBest))
  else do
    let limit ← arith.add nTargetValue MIN_CHANGE
    some (decide (nBest < limit) || decide (coin.nValue ≤ nBest))

def selectSubset (chance : Chance) (g : Gathered) : Option (Bool × List Coin × CAmount) := do
  let vValue := (chance.sort g.vValue).reverse
  let best ← bestSubset arith nTargetValue chance vValue g.nTotalLower
  match g.coinLowestLarger with
  | some coin => do
    let fLarger ← prefersLarger arith nTargetValue coin best.nBest
    takeCoins arith (if fLarger then [coin] else marked vValue best.vfBest) [] 0
  | none => takeCoins arith (marked vValue best.vfBest) [] 0

/-- `SelectCoinsMinConf`: whether it returns true, the chosen coins and their value. -/
def selectCoinsMinConf (chance : Chance) (vCoins : List COutput) :
    Option (Bool × List Coin × CAmount) := do
  let gathered ←
    gatherLoop arith ctx pool w policy nTargetValue (chance.shuffle vCoins) Gathered.start
  match gathered with
  | .inl coin => takeCoins arith [coin] [] 0
  | .inr g =>
    if g.nTotalLower = nTargetValue then takeCoins arith g.vValue [] 0
    else if g.nTotalLower < nTargetValue then
      match g.coinLowestLarger with
      | none => some (false, [], 0)
      | some coin => takeCoins arith [coin] [] 0
    else selectSubset arith nTargetValue chance g

end Selection

end CWallet

/-! ## What the approximation finds -/

section Approximation

variable {nTargetValue : CAmount} {vValue before rest : List Coin} {coin : Coin} {marks : List Bool}

lemma exactAmountOf_le_of_sublist {coins all : List Coin} (hsub : coins.Sublist all)
    (hnonneg : ∀ coin ∈ all, 0 ≤ coin.nValue.toInt) : exactAmountOf coins ≤ exactAmountOf all := by
  apply (hsub.map _).sum_le_sum
  simpa using hnonneg

structure Weighs (vValue : List Coin) (marks : List Bool) (n : CAmount) : Prop where
  length : marks.length = vValue.length
  value : exactAmountOf (marked vValue marks) = n.toInt

/-- The best subset is worth its value, which reaches the target. -/
structure Best.Valid (vValue : List Coin) (nTargetValue : CAmount) (best : Best) : Prop where
  weighs : Weighs vValue best.vfBest best.nBest
  reaches : nTargetValue ≤ best.nBest

structure SubsetPass.Valid (vValue : List Coin) (nTargetValue : CAmount) (s : SubsetPass) :
    Prop where
  weighs : Weighs vValue s.vfIncluded s.nTotal
  best : s.best.Valid vValue nTargetValue

lemma set_true_set_false {i : Nat} (hoff : marks[i]? = some false) :
    (marks.set i true).set i false = marks := by
  rw [set_set]
  apply ext_getElem?
  grind

/-- One more coin in the subset adds its value, without an overflow. -/
lemma Weighs.set {n : CAmount} (h : Weighs (before ++ coin :: rest) marks n)
    (hnonneg : ∀ c ∈ before ++ coin :: rest, 0 ≤ c.nValue.toInt)
    (hlt : exactAmountOf (before ++ coin :: rest) < 2 ^ 63)
    (hoff : marks[before.length]? = some false) :
    Fits (n.toInt + coin.nValue.toInt) ∧
      Weighs (before ++ coin :: rest) (marks.set before.length true) (n + coin.nValue) := by
  have hlen : before.length < marks.length := by simp [h.length]
  have hsum : exactAmountOf (marked (before ++ coin :: rest) (marks.set before.length true)) =
      n.toInt + coin.nValue.toInt := by
    rw [← h.value]
    exact Subset.sum_marked_set (fun c => c.nValue.toInt) before rest coin hlen hoff
  have hle := exactAmountOf_le_of_sublist
    (Subset.marked_sublist (before ++ coin :: rest) (marks.set before.length true)) hnonneg
  have hold : 0 ≤ n.toInt := by
    rw [← h.value]
    apply StakeContext.exactAmountOf_nonneg
    intro c hc
    exact hnonneg c ((Subset.marked_sublist _ _).subset hc)
  have hcoin : 0 ≤ coin.nValue.toInt := hnonneg coin (by simp)
  have hfits : Fits (n.toInt + coin.nValue.toInt) := ⟨by omega, by omega⟩
  exact ⟨hfits, by simp [h.length], by rw [hsum, Signed.toInt_add hfits]⟩

section

variable (arith : Arithmetic) {s : SubsetPass} {best : Best}

lemma includeCoin_spec (h : s.Valid (before ++ coin :: rest) nTargetValue)
    (hnonneg : ∀ c ∈ before ++ coin :: rest, 0 ≤ c.nValue.toInt)
    (hlt : exactAmountOf (before ++ coin :: rest) < 2 ^ 63)
    (hoff : s.vfIncluded[before.length]? = some false) :
    ∃ s', includeCoin arith nTargetValue coin before.length s = some s' ∧
      s'.Valid (before ++ coin :: rest) nTargetValue ∧
      ∀ j, before.length < j → s'.vfIncluded[j]? = s.vfIncluded[j]? := by
  obtain ⟨hfits, hset⟩ := h.weighs.set hnonneg hlt hoff
  have hadd := arith.add_exact hfits
  have hback : arith.sub (s.nTotal + coin.nValue) coin.nValue = some s.nTotal := by
    rw [arith.sub_exact, Int64.add_sub_cancel]
    rw [Signed.toInt_add hfits, Int.add_sub_cancel]
    exact Signed.fits_toInt _
  unfold includeCoin
  simp only [hadd, bind_eq_bind, bind_some]
  by_cases hreach : nTargetValue ≤ s.nTotal + coin.nValue
  · simp only [hreach, if_true, hback, set_true_set_false hoff, bind_some]
    refine ⟨_, rfl, ⟨h.weighs, ?_⟩, fun _ _ => rfl⟩
    dsimp only
    split_ifs
    · exact ⟨hset, hreach⟩
    · exact h.best
  · simp only [hreach, if_false]
    refine ⟨_, rfl, ⟨hset, h.best⟩, ?_⟩
    intro j hj
    exact getElem?_set_ne (by omega)

/-- A pass tries only coins that are not included. -/
lemma passLoop_spec {tried : Nat → Bool → Bool} (h : s.Valid (before ++ rest) nTargetValue)
    (hnonneg : ∀ c ∈ before ++ rest, 0 ≤ c.nValue.toInt)
    (hlt : exactAmountOf (before ++ rest) < 2 ^ 63)
    (hoff : ∀ j, before.length ≤ j → tried j (s.vfIncluded.getD j false) = true →
      s.vfIncluded.getD j false = false) :
    ∃ s', passLoop arith nTargetValue tried rest before.length s = some s' ∧
      s'.Valid (before ++ rest) nTargetValue := by
  induction rest generalizing before s with
  | nil => exact ⟨s, rfl, h⟩
  | cons coin rest ih =>
    have happend : before ++ coin :: rest = (before ++ [coin]) ++ rest := by simp
    have hnext : (before ++ [coin]).length = before.length + 1 := by simp
    have hstep {s' : SubsetPass} (h' : s'.Valid (before ++ coin :: rest) nTargetValue)
        (hframe : ∀ j, before.length < j → s'.vfIncluded[j]? = s.vfIncluded[j]?) :
        ∃ s'', passLoop arith nTargetValue tried rest (before.length + 1) s' = some s'' ∧
          s''.Valid (before ++ coin :: rest) nTargetValue := by
      rw [happend] at h' hnonneg hlt ⊢
      rw [← hnext]
      apply ih h' hnonneg hlt
      intro j hj
      rw [getD_eq_getElem?_getD, hframe j (by omega), ← getD_eq_getElem?_getD]
      exact hoff j (by omega)
    rw [passLoop]
    split_ifs with htried
    · have hin : before.length < s.vfIncluded.length := by simp [h.weighs.length]
      have hfalse : s.vfIncluded[before.length]? = some false := by
        grind
      obtain ⟨s', hs', h', hframe⟩ := includeCoin_spec arith h hnonneg hlt hfalse
      rw [hs']
      exact hstep h' hframe
    · exact hstep h fun _ _ => rfl

lemma repetition_spec {bits : Nat → Bool} (h : best.Valid vValue nTargetValue)
    (hnonneg : ∀ c ∈ vValue, 0 ≤ c.nValue.toInt) (hlt : exactAmountOf vValue < 2 ^ 63) :
    ∃ best', repetition arith nTargetValue bits vValue best = some best' ∧
      best'.Valid vValue nTargetValue := by
  have hstart : SubsetPass.Valid vValue nTargetValue
      ⟨0, List.replicate vValue.length false, false, best⟩ :=
    ⟨⟨by simp, by simp [exactAmountOf]⟩, h⟩
  have hpass (tried : Nat → Bool → Bool) {s : SubsetPass} (hs : s.Valid vValue nTargetValue)
      (hoff : ∀ j, tried j (s.vfIncluded.getD j false) = true →
        s.vfIncluded.getD j false = false) :
      ∃ s', passLoop arith nTargetValue tried vValue 0 s = some s' ∧
        s'.Valid vValue nTargetValue := by
    have hnil : ([] : List Coin) ++ vValue = vValue := rfl
    rw [← hnil] at hs hnonneg hlt
    exact passLoop_spec arith hs hnonneg hlt fun j _ => hoff j
  obtain ⟨s, hs, hvalid⟩ := hpass (fun i _ => bits i) hstart (by grind)
  unfold repetition
  simp only [hs, bind_eq_bind, bind_some]
  split_ifs
  · exact ⟨s.best, rfl, hvalid.best⟩
  · obtain ⟨s', hs', hvalid'⟩ := hpass (fun _ included => !included) hvalid (by simp)
    simp only [hs', bind_some]
    exact ⟨s'.best, rfl, hvalid'.best⟩

lemma approximateLoop_spec (bits : Nat → Nat → Bool) (left nRep : Nat)
    (h : best.Valid vValue nTargetValue) (hnonneg : ∀ c ∈ vValue, 0 ≤ c.nValue.toInt)
    (hlt : exactAmountOf vValue < 2 ^ 63) :
    ∃ best', approximateLoop arith nTargetValue bits vValue left nRep best = some best' ∧
      best'.Valid vValue nTargetValue := by
  induction left generalizing nRep best with
  | zero => exact ⟨best, rfl, h⟩
  | succ left ih =>
    rw [approximateLoop]
    split_ifs
    · exact ⟨best, rfl, h⟩
    · obtain ⟨best', hbest, h'⟩ := repetition_spec arith h hnonneg hlt
      rw [hbest]
      exact ih (nRep + 1) h'

/-- Whatever the random bits are, the approximation ends with a subset that reaches the target. -/
lemma approximateBestSubset_spec (bits : Nat → Nat → Bool)
    {nTotalLower : CAmount} (htotal : exactAmountOf vValue = nTotalLower.toInt)
    (hnonneg : ∀ c ∈ vValue, 0 ≤ c.nValue.toInt) (hreaches : nTargetValue ≤ nTotalLower) :
    ∃ best, approximateBestSubset arith nTargetValue bits vValue nTotalLower = some best ∧
      best.Valid vValue nTargetValue := by
  have hlt : exactAmountOf vValue < 2 ^ 63 := htotal ▸ nTotalLower.toInt_lt
  exact approximateLoop_spec arith bits 1000 0
    ⟨⟨by simp, by simpa using htotal⟩, hreaches⟩ hnonneg hlt

end

end Approximation

/-! ## What the loop over the outputs gathers -/

section Gathering

variable {arith : Arithmetic} {nTargetValue : CAmount} {coins : List Coin} {g : Gathered}
  {before after : List Coin}

def gatherCoins (arith : Arithmetic) (nTargetValue : CAmount) :
    List Coin → Gathered → Option (Coin ⊕ Gathered)
  | [], g => some (.inr g)
  | coin :: rest, g => do
    let gathered ← CWallet.gatherCoin arith nTargetValue coin g
    match gathered with
    | .inl coin => some (.inl coin)
    | .inr g => gatherCoins arith nTargetValue rest g

/-- A coin other than the target that is below the target plus the minimum change. -/
def Lower (nTargetValue : CAmount) (coin : Coin) : Prop :=
  coin.nValue ≠ nTargetValue ∧ coin.nValue.toInt < nTargetValue.toInt + MIN_CHANGE.toInt

instance (nTargetValue : CAmount) : DecidablePred (Lower nTargetValue) := fun _ =>
  inferInstanceAs (Decidable (_ ∧ _))

def lowerCoins (nTargetValue : CAmount) (coins : List Coin) : List Coin :=
  coins.filter fun coin => Lower nTargetValue coin

/-- Neither the target plus the minimum change nor the total of the coins below it overflows. -/
structure Room (nTargetValue : CAmount) (coins : List Coin) : Prop where
  limit : (∃ coin ∈ coins, coin.nValue ≠ nTargetValue) →
    Fits (nTargetValue.toInt + MIN_CHANGE.toInt)
  total : exactAmountOf (lowerCoins nTargetValue coins) < 2 ^ 63

structure Gathers (nTargetValue : CAmount) (coins : List Coin) (g g' : Gathered) : Prop where
  inexact : ∀ coin ∈ coins, coin.nValue ≠ nTargetValue
  vValue : g'.vValue = g.vValue ++ lowerCoins nTargetValue coins
  total : g'.nTotalLower.toInt =
    g.nTotalLower.toInt + exactAmountOf (lowerCoins nTargetValue coins)
  larger : ∀ coin, g'.coinLowestLarger = some coin → g.coinLowestLarger = some coin ∨
    (coin ∈ coins ∧ nTargetValue.toInt + MIN_CHANGE.toInt ≤ coin.nValue.toInt ∧
      coin.nValue ≠ Int64.maxValue)
  noLarger : g'.coinLowestLarger = none → g.coinLowestLarger = none ∧
    ∀ coin ∈ coins, coin.nValue.toInt < nTargetValue.toInt + MIN_CHANGE.toInt ∨
      coin.nValue = Int64.maxValue

lemma exactAmountOf_cons (coin : Coin) (coins : List Coin) :
    exactAmountOf (coin :: coins) = coin.nValue.toInt + exactAmountOf coins := by
  simp [exactAmountOf]

lemma exactAmountOf_append (coins coins' : List Coin) :
    exactAmountOf (coins ++ coins') = exactAmountOf coins + exactAmountOf coins' := by
  simp [exactAmountOf]

lemma lowerCoins_sublist (nTargetValue : CAmount) (coins : List Coin) :
    (lowerCoins nTargetValue coins).Sublist coins :=
  filter_sublist

/-- One coin that is not worth the target is sorted in. -/
lemma gatherCoin_spec (arith : Arithmetic) {coin : Coin} (hne : coin.nValue ≠ nTargetValue)
    (hlimit : Fits (nTargetValue.toInt + MIN_CHANGE.toInt))
    (hfits : Fits (g.nTotalLower.toInt + exactAmountOf (lowerCoins nTargetValue [coin]))) :
    ∃ g', CWallet.gatherCoin arith nTargetValue coin g = some (.inr g') ∧
      Gathers nTargetValue [coin] g g' := by
  have hinexact : ∀ c ∈ [coin], c.nValue ≠ nTargetValue := by simpa using hne
  -- the sum with the constant is hidden from the kernel, which would compute with it
  obtain ⟨limit, hadd, hlt⟩ : ∃ limit, arith.add nTargetValue MIN_CHANGE = some limit ∧
      (coin.nValue < limit ↔ coin.nValue.toInt < nTargetValue.toInt + MIN_CHANGE.toInt) :=
    ⟨_, arith.add_exact hlimit, by rw [lt_iff_toInt_lt, Signed.toInt_add hlimit]⟩
  unfold CWallet.gatherCoin
  simp only [hne, if_false, hadd, bind_eq_bind, bind_some]
  by_cases hlower : coin.nValue.toInt < nTargetValue.toInt + MIN_CHANGE.toInt
  · have hsingle : lowerCoins nTargetValue [coin] = [coin] := by
      simp [lowerCoins, Lower, hne, hlower]
    have hone : exactAmountOf [coin] = coin.nValue.toInt := by simp [exactAmountOf]
    rw [hsingle, hone] at hfits
    simp only [hlt.mpr hlower, if_true, arith.add_exact hfits, bind_some]
    exact ⟨_, rfl, hinexact, by rw [hsingle], by rw [hsingle, hone, Signed.toInt_add hfits],
      fun c hc => .inl hc, fun hc => ⟨hc, by simp [hlower]⟩⟩
  · have hnone : lowerCoins nTargetValue [coin] = [] := by simp [lowerCoins, Lower, hlower]
    have hzero : exactAmountOf [] = 0 := rfl
    simp only [hlt, hlower, if_false]
    split_ifs with hlarger
    · refine ⟨_, rfl, hinexact, by simp [hnone], by simp [hnone, hzero], ?_, by simp⟩
      intro c hc
      obtain rfl := some.inj hc
      refine .inr ⟨by simp, by omega, ?_⟩
      exact Int64.ne_of_lt (Int64.lt_of_lt_of_le hlarger (Int64.le_maxValue _))
    · refine ⟨_, rfl, hinexact, by simp [hnone], by simp [hnone, hzero], fun c hc => .inl hc, ?_⟩
      intro hc
      refine ⟨hc, ?_⟩
      rw [Gathered.lowestLarger, hc, Int64.not_lt] at hlarger
      have hmax : coin.nValue = Int64.maxValue := Int64.le_antisymm (Int64.le_maxValue _) hlarger
      simp [hmax]

lemma Gathers.trans {g' g'' : Gathered} (h : Gathers nTargetValue before g g')
    (h' : Gathers nTargetValue after g' g'') : Gathers nTargetValue (before ++ after) g g'' := by
  have hlower : lowerCoins nTargetValue (before ++ after) =
      lowerCoins nTargetValue before ++ lowerCoins nTargetValue after := filter_append ..
  refine ⟨?_, ?_, ?_, ?_, ?_⟩
  · intro coin hcoin
    obtain hcoin | hcoin := mem_append.mp hcoin
    · exact h.inexact coin hcoin
    · exact h'.inexact coin hcoin
  · rw [h'.vValue, h.vValue, hlower, append_assoc]
  · rw [h'.total, h.total, hlower, exactAmountOf_append, Int.add_assoc]
  · intro coin hcoin
    obtain hold | ⟨hmem, hle⟩ := h'.larger coin hcoin
    · obtain hold | ⟨hmem, hle⟩ := h.larger coin hold
      · exact .inl hold
      · exact .inr ⟨mem_append_left _ hmem, hle⟩
    · exact .inr ⟨mem_append_right _ hmem, hle⟩
  · intro hnone
    obtain ⟨hnone', hafter⟩ := h'.noLarger hnone
    obtain ⟨hnone'', hbefore⟩ := h.noLarger hnone'
    refine ⟨hnone'', ?_⟩
    intro coin hcoin
    obtain hcoin | hcoin := mem_append.mp hcoin
    · exact hbefore coin hcoin
    · exact hafter coin hcoin

/-- The loop stops at a coin worth the target, or sorts in every coin. -/
lemma gatherCoins_spec (arith : Arithmetic) (hnonneg : ∀ coin ∈ coins, 0 ≤ coin.nValue.toInt)
    (hlimit : (∃ coin ∈ coins, coin.nValue ≠ nTargetValue) →
      Fits (nTargetValue.toInt + MIN_CHANGE.toInt)) (hstart : 0 ≤ g.nTotalLower.toInt)
    (hlt : g.nTotalLower.toInt + exactAmountOf (lowerCoins nTargetValue coins) < 2 ^ 63) :
    (∃ coin ∈ coins, coin.nValue = nTargetValue ∧
      gatherCoins arith nTargetValue coins g = some (.inl coin)) ∨
    ∃ g', gatherCoins arith nTargetValue coins g = some (.inr g') ∧
      Gathers nTargetValue coins g g' := by
  induction coins generalizing g with
  | nil =>
    exact .inr ⟨g, rfl, by simp, by simp [lowerCoins], by simp [lowerCoins, exactAmountOf],
      fun _ h => .inl h, fun h => ⟨h, by simp⟩⟩
  | cons coin rest ih =>
    by_cases hexact : coin.nValue = nTargetValue
    · exact .inl ⟨coin, by simp, hexact, by simp [gatherCoins, CWallet.gatherCoin, hexact]⟩
    · rw [forall_mem_cons] at hnonneg
      have hfit := hlimit ⟨coin, by simp, hexact⟩
      have hsplit : lowerCoins nTargetValue (coin :: rest) =
          lowerCoins nTargetValue [coin] ++ lowerCoins nTargetValue rest :=
        filter_append [coin] rest
      rw [hsplit, exactAmountOf_append] at hlt
      have hone : 0 ≤ exactAmountOf (lowerCoins nTargetValue [coin]) := by
        apply StakeContext.exactAmountOf_nonneg
        intro c hc
        obtain rfl := mem_singleton.mp ((lowerCoins_sublist _ _).subset hc)
        exact hnonneg.1
      have hrest : 0 ≤ exactAmountOf (lowerCoins nTargetValue rest) := by
        apply StakeContext.exactAmountOf_nonneg
        intro c hc
        exact hnonneg.2 c ((lowerCoins_sublist _ _).subset hc)
      obtain ⟨g', hg', hgathers⟩ := gatherCoin_spec arith hexact hfit
        (g := g) ⟨by omega, by omega⟩
      have htotal := hgathers.total
      rw [gatherCoins, hg']
      obtain ⟨c, hc, hvalue, heq⟩ | ⟨g'', heq, hrun⟩ := ih (g := g') hnonneg.2 (fun _ => hfit)
        (by omega) (by omega)
      · exact .inl ⟨c, mem_cons_of_mem _ hc, hvalue, heq⟩
      · exact .inr ⟨g'', heq, hgathers.trans hrun⟩

/-- Where overflows are trapped, a run that ends has had room. -/
lemma fits_of_gatherCoins_trapping {r : Coin ⊕ Gathered}
    (h : gatherCoins .trapping nTargetValue coins g = some r)
    (hinexact : ∀ coin ∈ coins, coin.nValue ≠ nTargetValue) :
    (coins ≠ [] → Fits (nTargetValue.toInt + MIN_CHANGE.toInt)) ∧
      g.nTotalLower.toInt + exactAmountOf (lowerCoins nTargetValue coins) < 2 ^ 63 := by
  induction coins generalizing g with
  | nil =>
    refine ⟨by simp, ?_⟩
    have := g.nTotalLower.toInt_lt
    simpa [lowerCoins, exactAmountOf] using this
  | cons coin rest ih =>
    rw [forall_mem_cons] at hinexact
    rw [gatherCoins, CWallet.gatherCoin, if_neg hinexact.1] at h
    simp only [bind_eq_bind, bind_eq_some_iff] at h
    obtain ⟨gathered, ⟨limit, hadd, hgathered⟩, h⟩ := h
    obtain ⟨hfit, rfl⟩ := Signed.trapping_add_eq_some hadd
    refine ⟨fun _ => hfit, ?_⟩
    have hlt : coin.nValue < nTargetValue + MIN_CHANGE ↔
        coin.nValue.toInt < nTargetValue.toInt + MIN_CHANGE.toInt := by
      rw [lt_iff_toInt_lt, Signed.toInt_add hfit]
    by_cases hlower : coin.nValue.toInt < nTargetValue.toInt + MIN_CHANGE.toInt
    · have hcons : lowerCoins nTargetValue (coin :: rest) =
          coin :: lowerCoins nTargetValue rest := by
        simp [lowerCoins, Lower, hinexact.1, hlower]
      rw [if_pos (hlt.mpr hlower), bind_eq_some_iff] at hgathered
      obtain ⟨nTotalLower, hsum, hgathered⟩ := hgathered
      obtain ⟨hsumfit, rfl⟩ := Signed.trapping_add_eq_some hsum
      obtain rfl := some.inj hgathered
      have := (ih h hinexact.2).2
      rw [Signed.toInt_add hsumfit] at this
      rw [hcons, exactAmountOf_cons]
      omega
    · have hcons : lowerCoins nTargetValue (coin :: rest) = lowerCoins nTargetValue rest := by
        simp [lowerCoins, Lower, hlower]
      rw [hcons]
      rw [if_neg (mt hlt.mp hlower)] at hgathered
      split_ifs at hgathered
      all_goals
        obtain rfl := some.inj hgathered
        exact (ih h hinexact.2).2

lemma gatherCoins_append_eq_none (h : gatherCoins arith nTargetValue before g = none) :
    gatherCoins arith nTargetValue (before ++ after) g = none := by
  induction before generalizing g with
  | nil => cases h
  | cons coin rest ih =>
    rw [cons_append, gatherCoins] at *
    cases hgather : CWallet.gatherCoin arith nTargetValue coin g with
    | none => rfl
    | some gathered =>
      rw [hgather] at h
      obtain coin' | g' := gathered
      · cases h
      · exact ih h

end Gathering

/-! ## What is chosen -/

section Choosing

variable {nTargetValue : CAmount} {coins chosen : List Coin} {g : Gathered}

/-- The outcome of a selection from distinct coins: different coins that reach the target, or the
coins together do not. -/
def Chosen (nTargetValue : CAmount) (coins : List Coin) : Option (Bool × List Coin × CAmount) → Prop
  | some (true, setCoinsRet, nValueRet) => setCoinsRet.Nodup ∧ setCoinsRet ⊆ coins ∧
      exactAmountOf setCoinsRet = nValueRet.toInt ∧ nTargetValue ≤ nValueRet
  | some (false, _, _) => exactAmountOf coins < nTargetValue.toInt
  | none => False

/-- No sum overflows, and a coin worth the largest word is not the only way to reach the target:
such a coin is never kept as the lowest larger one. -/
structure Selectable (nTargetValue : CAmount) (coins : List Coin) : Prop
    extends Room nTargetValue coins where
  largest : (∀ coin ∈ coins, coin.nValue ≠ nTargetValue) →
    (∃ coin ∈ coins, coin.nValue = Int64.maxValue) →
    (∀ coin ∈ coins, coin.nValue.toInt < nTargetValue.toInt + MIN_CHANGE.toInt ∨
      coin.nValue = Int64.maxValue) →
    nTargetValue.toInt ≤ exactAmountOf (lowerCoins nTargetValue coins)

lemma takeCoins_spec (arith : Arithmetic) (taken : List Coin) (nValueRet : CAmount)
    (hnodup : (taken ++ chosen).Nodup) (hnonneg : ∀ coin ∈ chosen, 0 ≤ coin.nValue.toInt)
    (hstart : 0 ≤ nValueRet.toInt) (hlt : nValueRet.toInt + exactAmountOf chosen < 2 ^ 63) :
    ∃ nValueRet', CWallet.takeCoins arith chosen taken nValueRet =
        some (true, taken ++ chosen, nValueRet') ∧
      nValueRet'.toInt = nValueRet.toInt + exactAmountOf chosen := by
  induction chosen generalizing taken nValueRet with
  | nil => exact ⟨nValueRet, by simp [CWallet.takeCoins], by simp [exactAmountOf]⟩
  | cons coin rest ih =>
    rw [forall_mem_cons] at hnonneg
    rw [exactAmountOf_cons] at hlt ⊢
    have hrest : 0 ≤ exactAmountOf rest := StakeContext.exactAmountOf_nonneg hnonneg.2
    have hfits : Fits (nValueRet.toInt + coin.nValue.toInt) := ⟨by omega, by omega⟩
    have hsum := Signed.toInt_add hfits
    have hnew : coin ∉ taken := by
      intro hmem
      exact (nodup_append.mp hnodup).2.2 coin hmem coin (by simp) rfl
    rw [append_cons] at hnodup ⊢
    obtain ⟨nValueRet', heq, hvalue⟩ :=
      ih (taken ++ [coin]) (nValueRet + coin.nValue) hnodup hnonneg.2 (by omega) (by omega)
    refine ⟨nValueRet', ?_, by omega⟩
    rw [CWallet.takeCoins, arith.add_exact hfits]
    simpa [CWallet.insertCoin, hnew] using heq

/-- Distinct coins that reach the target are a right choice. -/
lemma Chosen.take (arith : Arithmetic) (hsub : chosen ⊆ coins) (hnodup : chosen.Nodup)
    (hnonneg : ∀ coin ∈ coins, 0 ≤ coin.nValue.toInt) (hlt : exactAmountOf chosen < 2 ^ 63)
    (hreaches : nTargetValue.toInt ≤ exactAmountOf chosen) :
    Chosen nTargetValue coins (CWallet.takeCoins arith chosen [] 0) := by
  obtain ⟨nValueRet, heq, hvalue⟩ := takeCoins_spec arith [] 0
    (by simpa using hnodup) (fun coin hcoin => hnonneg coin (hsub hcoin)) (by simp) (by simpa)
  rw [heq]
  rw [toInt_zero, Int.zero_add] at hvalue
  refine ⟨hnodup, hsub, hvalue.symm, ?_⟩
  rw [le_iff_toInt_le, hvalue]
  exact hreaches

lemma Chosen.single (arith : Arithmetic) {coin : Coin} (hmem : coin ∈ coins)
    (hnonneg : ∀ coin ∈ coins, 0 ≤ coin.nValue.toInt)
    (hreaches : nTargetValue.toInt ≤ coin.nValue.toInt) :
    Chosen nTargetValue coins (CWallet.takeCoins arith [coin] [] 0) := by
  have hone : exactAmountOf [coin] = coin.nValue.toInt := by simp [exactAmountOf]
  have hlt := coin.nValue.toInt_lt
  exact .take arith (by simpa using hmem) (nodup_singleton _) hnonneg (by omega) (by omega)

variable {vValue : List Coin} {best : Best} {coins' : List Coin}

/-- The marked coins are a right choice if their value reaches the target. -/
lemma Chosen.marked (arith : Arithmetic) (hsub : vValue ⊆ coins) (hnodup : vValue.Nodup)
    (hnonneg : ∀ coin ∈ coins, 0 ≤ coin.nValue.toInt)
    (hweighs : Weighs vValue best.vfBest best.nBest) (hreaches : nTargetValue ≤ best.nBest) :
    Chosen nTargetValue coins
      (CWallet.takeCoins arith (Subset.marked vValue best.vfBest) [] 0) := by
  have hmarked := Subset.marked_sublist vValue best.vfBest
  rw [le_iff_toInt_le, ← hweighs.value] at hreaches
  apply Chosen.take arith (List.Subset.trans hmarked.subset hsub) (hnodup.sublist hmarked) hnonneg
    _ hreaches
  rw [hweighs.value]
  exact best.nBest.toInt_lt

/-- A target below the total of the gathered coins leaves room for the minimum change. -/
lemma Gathers.fits_limit (h : Gathers nTargetValue coins .start g) (hroom : Room nTargetValue coins)
    (hgt : nTargetValue < g.nTotalLower) : Fits (nTargetValue.toInt + MIN_CHANGE.toInt) := by
  have hchange : MIN_CHANGE.toInt = 1000000 := by decide
  cases coins with
  | nil =>
    have htotal : g.nTotalLower.toInt = 0 := h.total
    have hle := nTargetValue.le_toInt
    rw [lt_iff_toInt_lt, htotal] at hgt
    exact ⟨by omega, by omega⟩
  | cons coin rest => exact hroom.limit ⟨coin, by simp, h.inexact coin (by simp)⟩

lemma bestSubset_spec (arith : Arithmetic) (chance : Chance) {nTotalLower : CAmount}
    (htotal : exactAmountOf vValue = nTotalLower.toInt)
    (hnonneg : ∀ c ∈ vValue, 0 ≤ c.nValue.toInt) (hreaches : nTargetValue ≤ nTotalLower)
    (hlimit : Fits (nTargetValue.toInt + MIN_CHANGE.toInt)) :
    ∃ best, CWallet.bestSubset arith nTargetValue chance vValue nTotalLower = some best ∧
      best.Valid vValue nTargetValue := by
  have hchange : MIN_CHANGE.toInt = 1000000 := by decide
  have hle : nTargetValue ≤ nTargetValue + MIN_CHANGE := by
    rw [le_iff_toInt_le, Signed.toInt_add hlimit]
    omega
  obtain ⟨first, hfirst, hvalid⟩ :=
    approximateBestSubset_spec arith chance.firstBits htotal hnonneg hreaches
  unfold CWallet.bestSubset
  simp only [hfirst, arith.add_exact hlimit, bind_eq_bind, bind_some]
  split_ifs with hfound hretry
  · exact ⟨first, rfl, hvalid⟩
  · obtain ⟨second, hsecond, hvalid'⟩ :=
      approximateBestSubset_spec arith chance.secondBits htotal hnonneg hretry
    exact ⟨second, hsecond, hvalid'.weighs, Int64.le_trans hle hvalid'.reaches⟩
  · exact ⟨first, rfl, hvalid⟩

lemma selectSubset_chosen (arith : Arithmetic) (chance : Chance)
    (h : Gathers nTargetValue coins .start g) (hroom : Room nTargetValue coins)
    (hnodup : coins.Nodup) (hnonneg : ∀ coin ∈ coins, 0 ≤ coin.nValue.toInt)
    (hgt : nTargetValue < g.nTotalLower) :
    Chosen nTargetValue coins (CWallet.selectSubset arith nTargetValue chance g) := by
  have hchange : MIN_CHANGE.toInt = 1000000 := by decide
  have hlimit := h.fits_limit hroom hgt
  -- the sorted coins are those that were gathered
  have hperm : (chance.sort g.vValue).reverse.Perm (lowerCoins nTargetValue coins) := by
    have hlower : g.vValue = lowerCoins nTargetValue coins := h.vValue
    rw [← hlower]
    exact (reverse_perm _).trans (chance.sort_perm _)
  have hsub : (chance.sort g.vValue).reverse ⊆ coins := fun coin hcoin =>
    (lowerCoins_sublist _ _).subset (hperm.subset hcoin)
  have hnodup' : (chance.sort g.vValue).reverse.Nodup :=
    hperm.nodup_iff.mpr (hnodup.sublist (lowerCoins_sublist _ _))
  have htotal : exactAmountOf (chance.sort g.vValue).reverse = g.nTotalLower.toInt := by
    have hsum : g.nTotalLower.toInt = 0 + exactAmountOf (lowerCoins nTargetValue coins) := h.total
    rw [hsum, Int.zero_add]
    exact (hperm.map _).sum_eq
  obtain ⟨best, hbest, hvalid⟩ := bestSubset_spec arith chance htotal
    (fun c hc => hnonneg c (hsub hc)) (Int64.le_of_lt hgt) hlimit
  have hmarked := Chosen.marked arith hsub hnodup' hnonneg hvalid.weighs hvalid.reaches
  unfold CWallet.selectSubset
  simp only [hbest, bind_eq_bind, bind_some]
  cases hlarger : g.coinLowestLarger with
  | none => exact hmarked
  | some coin =>
    obtain hold | ⟨hmem, hlarge, -⟩ := h.larger coin hlarger
    · cases hold
    · have hprefers : ∃ fLarger,
          CWallet.prefersLarger arith nTargetValue coin best.nBest = some fLarger := by
        unfold CWallet.prefersLarger
        split_ifs
        · exact ⟨_, rfl⟩
        · exact ⟨_, by rw [arith.add_exact hlimit]; rfl⟩
      obtain ⟨fLarger, hprefers⟩ := hprefers
      simp only [hprefers, bind_some]
      split_ifs
      · exact .single arith hmem hnonneg (by omega)
      · exact hmarked

/-- Coins that are not kept as the lowest larger one are gathered. -/
lemma Gathers.total_lt (h : Gathers nTargetValue coins .start g)
    (hselectable : Selectable nTargetValue coins) (hnone : g.coinLowestLarger = none)
    (hlt : g.nTotalLower < nTargetValue) : exactAmountOf coins < nTargetValue.toInt := by
  have htotal : g.nTotalLower.toInt = 0 + exactAmountOf (lowerCoins nTargetValue coins) := h.total
  rw [lt_iff_toInt_lt, htotal, Int.zero_add] at hlt
  have hsplit := (h.noLarger hnone).2
  have hnomax : ∀ coin ∈ coins, coin.nValue ≠ Int64.maxValue := by
    intro coin hcoin hmax
    have := hselectable.largest h.inexact ⟨coin, hcoin, hmax⟩ hsplit
    omega
  have hall : lowerCoins nTargetValue coins = coins := by
    apply filter_eq_self.mpr
    intro coin hcoin
    exact decide_eq_true ⟨h.inexact coin hcoin,
      (hsplit coin hcoin).resolve_right (hnomax coin hcoin)⟩
  rwa [hall] at hlt

/-- What follows the loop is a right choice among the coins it has gathered. -/
lemma Gathers.finish (arith : Arithmetic) (chance : Chance)
    (h : Gathers nTargetValue coins .start g) (hselectable : Selectable nTargetValue coins)
    (hnodup : coins.Nodup) (hnonneg : ∀ coin ∈ coins, 0 ≤ coin.nValue.toInt) :
    Chosen nTargetValue coins
      (if g.nTotalLower = nTargetValue then CWallet.takeCoins arith g.vValue [] 0
      else if g.nTotalLower < nTargetValue then
        match g.coinLowestLarger with
        | none => some (false, [], 0)
        | some coin => CWallet.takeCoins arith [coin] [] 0
      else CWallet.selectSubset arith nTargetValue chance g) := by
  have hchange : MIN_CHANGE.toInt = 1000000 := by decide
  have hvValue : g.vValue = lowerCoins nTargetValue coins := h.vValue
  have htotal : g.nTotalLower.toInt = 0 + exactAmountOf (lowerCoins nTargetValue coins) := h.total
  have hsub := lowerCoins_sublist nTargetValue coins
  split_ifs with heq hlt
  · rw [hvValue]
    have hle : nTargetValue.toInt ≤ exactAmountOf (lowerCoins nTargetValue coins) := by
      rw [heq, Int.zero_add] at htotal
      exact le_of_eq htotal
    exact .take arith hsub.subset (hnodup.sublist hsub) hnonneg hselectable.total hle
  · cases hlarger : g.coinLowestLarger with
    | none => exact h.total_lt hselectable hlarger hlt
    | some coin =>
      obtain hold | ⟨hmem, hlarge, -⟩ := h.larger coin hlarger
      · cases hold
      · exact .single arith hmem hnonneg (by omega)
  · have hgt : nTargetValue < g.nTotalLower := by
      rw [Int64.not_lt] at hlt
      exact Int64.lt_of_le_of_ne hlt (Ne.symm heq)
    exact selectSubset_chosen arith chance h hselectable.toRoom hnodup hnonneg hgt

lemma exactAmountOf_perm (hperm : coins.Perm coins') : exactAmountOf coins = exactAmountOf coins' :=
  (hperm.map _).sum_eq

lemma Room.of_perm (h : Room nTargetValue coins)
    (hperm : coins.Perm coins') : Room nTargetValue coins' := by
  refine ⟨?_, ?_⟩
  · rintro ⟨coin, hcoin, hne⟩
    exact h.limit ⟨coin, hperm.mem_iff.mpr hcoin, hne⟩
  · rw [lowerCoins, ← exactAmountOf_perm (hperm.filter _)]
    exact h.total

lemma Selectable.of_perm (h : Selectable nTargetValue coins)
    (hperm : coins.Perm coins') : Selectable nTargetValue coins' := by
  refine ⟨h.toRoom.of_perm hperm, ?_⟩
  simp only [← hperm.mem_iff]
  rw [lowerCoins, ← exactAmountOf_perm (hperm.filter _)]
  exact h.largest

end Choosing

end Jumpcoin
