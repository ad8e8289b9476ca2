import Jumpcoin.Foundation.Totals
import Jumpcoin.Node.StakeCache
import Jumpcoin.Script.Interpreter
import Jumpcoin.Wallet.Wallet

/-!
# Making a coinstake

`SelectCoinsForStaking` and `CreateCoinStake` of `wallet/wallet.cpp`. Coins are chosen up to what
may be staked; one of them has to be the kernel of the next block. Small coins with the same key
are added to it, and the reward is paid to the kernel's key, in two outputs if it is large, and in
part to the development fund if a donation is configured.

The set of chosen coins is ordered by the addresses of the wallet transactions, which may be any.
Signatures and the keys come from outside.
-/

namespace Jumpcoin

open List Int64

open Codec (Bytes)
open Check

/-! ## Amounts -/

def getStakeCombineThreshold : CAmount := 500 * COIN

def getStakeSplitThreshold : CAmount := 2 * getStakeCombineThreshold

/-! ## Coins of the wallet -/

/-- A pair of a wallet transaction, named by the key of its entry, and a position. -/
structure Coin where
  entry : Uint256
  tx : CTransaction
  n : UInt32
  txout : CTxOut
  deriving DecidableEq

namespace Coin

def prevout (hashes : Hashes) (coin : Coin) : COutPoint := ⟨coin.tx.getHash hashes, coin.n⟩

def txin (hashes : Hashes) (coin : Coin) : CTxIn := ⟨coin.prevout hashes, [], 0xffffffff⟩

end Coin

namespace CWallet

/-- The coin at an outpoint; no value where the source reads beyond the end of `vout`. -/
def coin (w : CWallet) (outpoint : COutPoint) : Option Coin := do
  let wtx ← w.lookup outpoint.hash
  let txout ← wtx.tx.vout[outpoint.n.toNat]?
  some ⟨outpoint.hash, wtx.tx, outpoint.n, txout⟩

def insertCoin (setCoins : List Coin) (coin : Coin) : List Coin :=
  if coin ∈ setCoins then setCoins else setCoins ++ [coin]

def selectForStakingLoop (nTargetValue : CAmount) :
    List Coin → List Coin → CAmount → List Coin × CAmount
  | [], setCoinsRet, nValueRet => (setCoinsRet, nValueRet)
  | coin :: rest, setCoinsRet, nValueRet =>
    -- Stop if we've chosen enough inputs
    if nTargetValue ≤ nValueRet then (setCoinsRet, nValueRet)
    else
      let n := coin.txout.nValue
      if nTargetValue ≤ n then (insertCoin setCoinsRet coin, nValueRet + n)
      else if n < nTargetValue + CENT then
        selectForStakingLoop nTargetValue rest (insertCoin setCoinsRet coin) (nValueRet + n)
      else selectForStakingLoop nTargetValue rest setCoinsRet nValueRet

/-- Select some coins without random shuffle or best subset approximation. -/
def selectCoinsForStaking (ctx : WalletContext) (sur : Surroundings) (w : CWallet)
    (nTargetValue : CAmount) : Option (List Coin × CAmount) := do
  let vCoins ← (w.availableCoinsForStaking ctx sur).mapM fun output => w.coin output.outpoint
  some (selectForStakingLoop nTargetValue vCoins [] 0)

end CWallet

/-! ## The kernel -/

/-- The keys of a wallet and what is done with them. -/
structure KeyStore (Key : Type) where
  getKey : Bytes → Option Key
  getPubKey : Key → Bytes
  hash160 : Bytes → Bytes
  /-- the `scriptSig` of an input, from the transaction it spends; no value where signing fails -/
  signSignature : CTransaction → CTransaction → Nat → Option CScript

/-- What `CreateCoinStake` reads and does not change. -/
structure StakeContext (Key : Type) where
  config : Config
  chain : ChainState
  /-- whether the tip is the best header known -/
  tipIsBestHeader : Bool
  wallet : WalletContext
  sur : Surroundings
  keystore : KeyStore Key
  /-- the order of the wallet transactions in memory -/
  address : Uint256 → Nat
  nReserveBalance : CAmount
  nDonationPercentage : UInt32
  /-- `GetDevRewardScript`, if there is an address of the development fund -/
  devRewardScript : Option CScript
  /-- `-stakecache` -/
  fStakeCache : Bool

namespace StakeContext

variable {Key : Type} (ctx : StakeContext Key)

abbrev hashes : Hashes := ctx.wallet.hashes

/-- The order of `std::set<std::pair<const CWalletTx*, unsigned int>>`. -/
def coinLe (a b : Coin) : Prop :=
  ctx.address a.entry < ctx.address b.entry ∨
    (ctx.address a.entry = ctx.address b.entry ∧ a.n ≤ b.n)

instance : DecidableRel ctx.coinLe := fun _ _ =>
  inferInstanceAs (Decidable (_ ∨ _))

/-- The key for a kernel and the script that the reward is paid to. -/
def kernelOutput (scriptPubKeyKernel : CScript) : Option (Key × CScript) :=
  match solver scriptPubKeyKernel with
  | some (.pubkeyhash, vSolution :: _) => do
    -- convert to pay to public key type
    let key ← ctx.keystore.getKey vSolution
    some (key, pushOf (ctx.keystore.getPubKey key) ++ [OP_CHECKSIG])
  | some (.pubkey, vSolution :: _) => do
    let key ← ctx.keystore.getKey (ctx.keystore.hash160 vSolution)
    if ctx.keystore.getPubKey key ≠ vSolution then none else some (key, scriptPubKeyKernel)
  | _ => none

/-- A kernel: its coin, how far back in time it was found, its key and the script for the reward. -/
structure Kernel (Key : Type) where
  coin : Coin
  n : UInt32
  key : Key
  scriptPubKeyOut : CScript

/-- Search backward in time for a kernel; a kernel whose key is not at hand ends the search. -/
def searchCoin (pindexPrev : CBlockIndex) (nBits nTime : UInt32) (stakeCache : StakeCache)
    (coin : Coin) : List Nat → Outcome (Option (Kernel Key))
  | [] => .returned none
  | n :: rest =>
    match checkKernel ctx.config ctx.chain pindexPrev nBits (nTime - UInt32.ofNat n)
        (coin.prevout ctx.hashes) stakeCache with
    | .returned true => .returned ((ctx.kernelOutput coin.txout.scriptPubKey).map
        fun (key, scriptPubKeyOut) => ⟨coin, UInt32.ofNat n, key, scriptPubKeyOut⟩)
    | .returned false => searchCoin pindexPrev nBits nTime stakeCache coin rest
    | .refused => .refused
    | .halted => .halted

def searchTimes (nSearchInterval : Int64) : List Nat :=
  if ctx.tipIsBestHeader then List.range (min nSearchInterval.toInt 60).toNat else []

def searchKernel (pindexPrev : CBlockIndex) (nBits nTime : UInt32) (nSearchInterval : Int64)
    (stakeCache : StakeCache) : List Coin → Outcome (Option (Kernel Key))
  | [] => .returned none
  | coin :: rest =>
    match ctx.searchCoin pindexPrev nBits nTime stakeCache coin
        (ctx.searchTimes nSearchInterval) with
    | .returned (some kernel) => .returned (some kernel)
    | .returned none => searchKernel pindexPrev nBits nTime nSearchInterval stakeCache rest
    | .refused => .refused
    | .halted => .halted

/-! ## Inputs -/

/-- Attempt to add more inputs, with the inputs and their value so far. -/
def combineLoop (kernel : Kernel Key) (nLimit : CAmount) :
    List Coin → List Coin → CAmount → List Coin × CAmount
  | [], vin, nCredit => (vin, nCredit)
  | coin :: rest, vin, nCredit =>
    -- Only add coins of the same key/address as kernel
    if (coin.txout.scriptPubKey == kernel.coin.txout.scriptPubKey ||
          coin.txout.scriptPubKey == kernel.scriptPubKeyOut) &&
        coin.tx.getHash ctx.hashes != kernel.coin.tx.getHash ctx.hashes then
      -- Stop adding more inputs if already too many inputs
      if 10 ≤ vin.length then (vin, nCredit)
      -- Stop adding inputs if reached reserve limit
      else if nLimit < nCredit + coin.txout.nValue then (vin, nCredit)
      -- Do not add additional significant input
      else if getStakeCombineThreshold ≤ coin.txout.nValue then
        combineLoop kernel nLimit rest vin nCredit
      else combineLoop kernel nLimit rest (vin ++ [coin]) (nCredit + coin.txout.nValue)
    else combineLoop kernel nLimit rest vin nCredit

/-! ## Outputs -/

def setValue (vout : List CTxOut) (i : Nat) (nValue : CAmount) : List CTxOut :=
  vout.modify i fun txout => { txout with nValue }

/-- The outputs before their amounts are set: the mark of a coinstake and the kernel's. -/
def baseOutputs (scriptPubKeyOut : CScript) : List CTxOut := [⟨0, []⟩, ⟨0, scriptPubKeyOut⟩]

def splitStake (nCredit : CAmount) (scriptPubKeyOut : CScript) (vout : List CTxOut) : List CTxOut :=
  if getStakeSplitThreshold ≤ nCredit then vout ++ [⟨0, scriptPubKeyOut⟩] else vout

/-- The amount of the first output of a split stake: half of it, in whole cents. -/
def halfStake (nCredit : CAmount) : CAmount := nCredit / 2 / CENT * CENT

def devCredit : CAmount :=
  getProofOfStakeSubsidy * ctx.nDonationPercentage.toUInt64.toInt64 / 100

/-- The outputs with a donation; no value where the source returns false. -/
def donatingOutputs (devScript : CScript) (nCredit : CAmount) (scriptPubKeyOut : CScript) :
    Option (List CTxOut) :=
  let nReward := getProofOfStakeSubsidy
  if nReward < 0 then none
  else
    let nDevCredit := ctx.devCredit
    let nMinerCredit := nReward - nDevCredit
    let nCredit := nCredit + nMinerCredit
    let vout := splitStake nCredit scriptPubKeyOut (baseOutputs scriptPubKeyOut) ++ [⟨0, devScript⟩]
    if vout.length = 4 then
      let nHalf := halfStake nCredit
      some (setValue (setValue (setValue vout 1 nHalf) 2 (nCredit - nHalf)) 3 nDevCredit)
    else some (setValue (setValue vout 1 nCredit) 2 nDevCredit)

/-- The outputs without a donation; no value where the source returns false. -/
def plainOutputs (nFees nCredit : CAmount) (scriptPubKeyOut : CScript) : Option (List CTxOut) :=
  let nReward := nFees + getProofOfStakeSubsidy
  if nReward < 0 then none
  else
    let nCredit := nCredit + nReward
    let vout := splitStake nCredit scriptPubKeyOut (baseOutputs scriptPubKeyOut)
    if vout.length = 3 then
      let nHalf := halfStake nCredit
      some (setValue (setValue vout 1 nHalf) 2 (nCredit - nHalf))
    else some (setValue vout 1 nCredit)

def donation : Option CScript :=
  if 0 < ctx.nDonationPercentage then ctx.devRewardScript else none

def stakeOutputs (nFees nCredit : CAmount) (scriptPubKeyOut : CScript) : Option (List CTxOut) :=
  match ctx.donation with
  | some devScript => ctx.donatingOutputs devScript nCredit scriptPubKeyOut
  | none => plainOutputs nFees nCredit scriptPubKeyOut

/-! ## The transaction -/

structure StakingState where
  wallet : CWallet
  stakeCache : StakeCache

def readBalance : Check StakingState CAmount := fun s =>
  match s.wallet.getBalance ctx.wallet ctx.sur with
  | none => (.halted, s)
  | some (nBalance, wallet) => (.returned nBalance, { s with wallet })

/-- `SelectCoinsForStaking`, in the order of the set. -/
def readCoins (nTargetValue : CAmount) : Check StakingState (List Coin) := fun s =>
  match s.wallet.selectCoinsForStaking ctx.wallet ctx.sur nTargetValue with
  | none => (.halted, s)
  | some (setCoins, _) => (.returned (setCoins.insertionSort ctx.coinLe), s)

/-- Clear the cache when it has more than 100 entries more than there are coins. -/
def limitCache (setCoins : List Coin) : Check StakingState Unit := fun s =>
  (.returned (),
    if setCoins.length + 100 < s.stakeCache.keys.card then { s with stakeCache := ∅ } else s)

def cacheCoins (pindexPrev : CBlockIndex) : List Coin → Check StakingState Unit
  | [] => pure ()
  | coin :: rest => do
    (fun s =>
      match cacheKernel ctx.config ctx.chain s.stakeCache (coin.prevout ctx.hashes) pindexPrev with
      | .returned stakeCache => (.returned (), { s with stakeCache })
      | .refused => (.refused, s)
      | .halted => (.halted, s) : Check StakingState Unit)
    cacheCoins pindexPrev rest

def readKernel (pindexPrev : CBlockIndex) (nBits nTime : UInt32) (nSearchInterval : Int64)
    (setCoins : List Coin) : Check StakingState (Option (Kernel Key)) := fun s =>
  (ctx.searchKernel pindexPrev nBits nTime nSearchInterval s.stakeCache setCoins, s)

def signInputs : Nat → List Coin → CTransaction → Check StakingState CTransaction
  | _, [], tx => pure tx
  | nIn, coin :: rest, tx =>
    match ctx.keystore.signSignature coin.tx tx nIn with
    | none => refuse id
    | some scriptSig =>
      signInputs (nIn + 1) rest
        { tx with vin := tx.vin.modify nIn fun txin => { txin with scriptSig } }

def fillCache (pindexPrev : CBlockIndex) (setCoins : List Coin) : Check StakingState Unit :=
  if ctx.fStakeCache then ctx.cacheCoins pindexPrev setCoins else pure ()

/-- The second half of `CreateCoinStake`, with a kernel; `nLimit` is what may be staked. -/
def completeCoinStake (nFees : CAmount) (tx : CTransaction) (nLimit : CAmount)
    (setCoins : List Coin) (kernel : Kernel Key) : Check StakingState (CTransaction × Key) := do
  let nCredit := kernel.coin.txout.nValue
  ensure (!(nCredit == 0 || decide (nLimit < nCredit))) id
  let (coins, nCredit) := ctx.combineLoop kernel nLimit setCoins [kernel.coin] nCredit
  match ctx.stakeOutputs nFees nCredit kernel.scriptPubKeyOut with
  | none => refuse id
  | some vout => do
    let txNew : CTransaction :=
      { tx with nTime := tx.nTime - kernel.n, vin := coins.map (Coin.txin ctx.hashes), vout }
    -- Sign
    let txNew ← ctx.signInputs 0 coins txNew
    -- Limit size
    ensure (!decide (MAX_STANDARD_TX_SIZE ≤ txNew.getSerializeSize)) id
    pure (txNew, kernel.key)

/-- `CreateCoinStake` with the transaction it starts from; the value is the coinstake and the key of
the kernel. -/
def createCoinStake (nBits : UInt32) (nSearchInterval : Int64) (nFees : CAmount)
    (tx : CTransaction) : Check StakingState (CTransaction × Key) := do
  let pindexPrev ← require ctx.chain.tip
  -- Choose coins to use
  let nBalance ← ctx.readBalance
  ensure (!decide (nBalance ≤ ctx.nReserveBalance)) id
  let setCoins ← ctx.readCoins (nBalance - ctx.nReserveBalance)
  ensure (!setCoins.isEmpty) id
  limitCache setCoins
  ctx.fillCache pindexPrev setCoins
  let found ← ctx.readKernel pindexPrev nBits tx.nTime nSearchInterval setCoins
  match found with
  | none => refuse id
  | some kernel => ctx.completeCoinStake nFees tx (nBalance - ctx.nReserveBalance) setCoins kernel

/-! ## What the loops choose -/

end StakeContext

variable {setCoins : List Coin} {coin : Coin}

lemma mem_insertCoin {c : Coin} :
    c ∈ CWallet.insertCoin setCoins coin ↔ c = coin ∨ c ∈ setCoins := by
  unfold CWallet.insertCoin
  split_ifs <;> grind

lemma nodup_insertCoin (coin : Coin) (h : setCoins.Nodup) :
    (CWallet.insertCoin setCoins coin).Nodup := by
  unfold CWallet.insertCoin
  split_ifs with hmem
  · exact h
  · rw [← concat_eq_append]
    exact h.concat hmem

/-- The chosen coins are some of those offered, each of them once. -/
lemma selectForStakingLoop_spec (nTargetValue : CAmount) (vCoins setCoins : List Coin)
    (nValueRet : CAmount) (h : setCoins.Nodup) :
    (CWallet.selectForStakingLoop nTargetValue vCoins setCoins nValueRet).1.Nodup ∧
      ∀ c ∈ (CWallet.selectForStakingLoop nTargetValue vCoins setCoins nValueRet).1,
        c ∈ setCoins ∨ c ∈ vCoins := by
  fun_induction CWallet.selectForStakingLoop with
  | case1 => exact ⟨h, fun c hc => .inl hc⟩
  | case2 => exact ⟨h, fun c hc => .inl hc⟩
  | case3 => exact ⟨nodup_insertCoin _ h, fun c hc => by grind [mem_insertCoin]⟩
  | case4 _ _ _ _ _ _ _ _ ih =>
    obtain ⟨hnodup, hmem⟩ := ih (nodup_insertCoin _ h)
    exact ⟨hnodup, fun c hc => by grind [mem_insertCoin]⟩
  | case5 _ _ _ _ _ _ _ _ ih =>
    obtain ⟨hnodup, hmem⟩ := ih h
    exact ⟨hnodup, fun c hc => by grind⟩

namespace StakeContext

variable {Key : Type} {ctx : StakeContext Key}

variable {pindexPrev : CBlockIndex} {stakeCache : StakeCache} {kernel : Kernel Key}
  {nBits nTime : UInt32} {coins : List Coin}

lemma searchCoin_coin {times : List Nat}
    (h : ctx.searchCoin pindexPrev nBits nTime stakeCache coin times = .returned (some kernel)) :
    kernel.coin = coin := by
  fun_induction searchCoin ctx pindexPrev nBits nTime stakeCache coin times with
  | case1 => simp at h
  | case2 =>
    simp only [Outcome.returned.injEq, Option.map_eq_some_iff] at h
    obtain ⟨_, -, rfl⟩ := h
    rfl
  | case3 _ _ _ ih => exact ih h
  | case4 => simp at h
  | case5 => simp at h

lemma searchKernel_mem {nSearchInterval : Int64}
    (h : ctx.searchKernel pindexPrev nBits nTime nSearchInterval stakeCache coins = .returned (some
      kernel)) : kernel.coin ∈ coins := by
  fun_induction searchKernel ctx pindexPrev nBits nTime nSearchInterval stakeCache coins with
  | case1 => simp at h
  | case2 coin rest found hfound =>
    obtain rfl : found = kernel := by simpa using h
    rw [searchCoin_coin hfound]
    exact mem_cons_self
  | case3 _ _ _ ih => exact mem_cons_of_mem _ (ih h)
  | case4 => simp at h
  | case5 => simp at h

def amountOf (coins : List Coin) : CAmount := (coins.map fun coin => coin.txout.nValue).sum

/-- The inputs that are added come from other transactions than the kernel's, in the order of the
coins, and the credit grows by their amounts. -/
lemma combineLoop_spec (kernel : Kernel Key) (nLimit : CAmount) (setCoins vin : List Coin)
    (nCredit : CAmount) :
    ∃ added, added.Sublist setCoins ∧
      ctx.combineLoop kernel nLimit setCoins vin nCredit =
        (vin ++ added, nCredit + amountOf added) ∧
      ∀ coin ∈ added, coin.tx.getHash ctx.hashes ≠ kernel.coin.tx.getHash ctx.hashes := by
  induction setCoins generalizing vin nCredit with
  | nil => exact ⟨[], .slnil, by simp [combineLoop, amountOf], by simp⟩
  | cons coin rest ih =>
    -- the ways to go past the coin: stop here, or go on without it
    have hstop : ∃ added, added.Sublist (coin :: rest) ∧
        (vin, nCredit) = (vin ++ added, nCredit + amountOf added) ∧
        ∀ c ∈ added, c.tx.getHash ctx.hashes ≠ kernel.coin.tx.getHash ctx.hashes :=
      ⟨[], nil_sublist _, by simp [amountOf], by simp⟩
    have hskip : ∃ added, added.Sublist (coin :: rest) ∧
        ctx.combineLoop kernel nLimit rest vin nCredit = (vin ++ added, nCredit + amountOf added) ∧
        ∀ c ∈ added, c.tx.getHash ctx.hashes ≠ kernel.coin.tx.getHash ctx.hashes := by
      obtain ⟨added, hsub, hrest⟩ := ih vin nCredit
      exact ⟨added, hsub.cons coin, hrest⟩
    rw [combineLoop]
    split_ifs with hsame
    · exact hstop
    · exact hstop
    · exact hskip
    · obtain ⟨added, hsub, heq, hne⟩ := ih (vin ++ [coin]) (nCredit + coin.txout.nValue)
      have hother : coin.tx.getHash ctx.hashes ≠ kernel.coin.tx.getHash ctx.hashes := by
        simp only [Bool.and_eq_true, bne_iff_ne] at hsame
        exact hsame.2
      refine ⟨coin :: added, hsub.cons_cons coin, ?_, forall_mem_cons.mpr ⟨hother, hne⟩⟩
      rw [heq]
      simp only [amountOf, map_cons, sum_cons, append_assoc, singleton_append]
      grind
    · exact hskip

/-! ## Outputs -/

section Outputs

variable {nFees nCredit : CAmount} {script devScript : CScript} {vout : List CTxOut}

variable {nStake : CAmount}

lemma halfStake_nonneg (h : 0 ≤ nStake.toInt) : 0 ≤ (halfStake nStake).toInt := by
  have hlt := nStake.toInt_lt
  have htwo : (2 : Int64).toInt = 2 := by decide
  have hcent : CENT.toInt = 1000000 := by decide
  have hhalf : (nStake / 2).toInt = nStake.toInt / 2 := by
    rw [toInt_div, htwo, Int.tdiv_eq_ediv_of_nonneg h,
      Int.bmod_eq_of_le (by omega) (by omega)]
  have hcents : (nStake / 2 / CENT).toInt = nStake.toInt / 2 / 1000000 := by
    rw [toInt_div, hhalf, hcent, Int.tdiv_eq_ediv_of_nonneg (by omega),
      Int.bmod_eq_of_le (by omega) (by omega)]
  rw [halfStake, toInt_mul, hcents, hcent, Int.bmod_eq_of_le (by omega) (by omega)]
  omega

/-- The outputs of a coinstake: the mark, the stake in one or two parts, and the rest. The parts
add up to the stake, also as integers if it is not negative. -/
structure PaysStake (vout : List CTxOut) (script : CScript) (nStake : CAmount)
    (rest : List CTxOut) (amounts : List CAmount) : Prop where
  parts : amounts.length = 1 ∨ amounts.length = 2
  vout_eq : vout = ⟨0, []⟩ :: (amounts.map fun nValue => ⟨nValue, script⟩) ++ rest
  sum_eq : amounts.sum = nStake
  exact_sum : 0 ≤ nStake.toInt → (amounts.map Int64.toInt).sum = nStake.toInt

lemma PaysStake.one (script : CScript) (nStake : CAmount) (rest : List CTxOut) :
    PaysStake (⟨0, []⟩ :: ⟨nStake, script⟩ :: rest) script nStake rest [nStake] :=
  ⟨.inl rfl, rfl, by simp, by simp⟩

lemma toInt_two_parts {nPart : CAmount} (hstake : 0 ≤ nStake.toInt) (hpart : 0 ≤ nPart.toInt) :
    ([nPart, nStake - nPart].map Int64.toInt).sum = nStake.toInt := by
  have hrest := Signed.toInt_sub (Signed.fits_sub hstake hpart)
  simp only [map_cons, map_nil, sum_cons, sum_nil]
  omega

lemma PaysStake.two (script : CScript) (nStake : CAmount) (rest : List CTxOut) :
    PaysStake (⟨0, []⟩ :: ⟨halfStake nStake, script⟩ :: ⟨nStake - halfStake nStake, script⟩ :: rest)
      script nStake rest [halfStake nStake, nStake - halfStake nStake] := by
  refine ⟨.inr rfl, rfl, ?_, fun h => toInt_two_parts h (halfStake_nonneg h)⟩
  rw [sum_cons, sum_singleton, Int64.add_comm, Int64.sub_add_cancel]

lemma plainOutputs_pays (h : plainOutputs nFees nCredit script = some vout) :
    ∃ amounts, PaysStake vout script (nCredit + (nFees + getProofOfStakeSubsidy)) [] amounts := by
  unfold plainOutputs at h
  by_cases hneg : nFees + getProofOfStakeSubsidy < 0
  · simp [hneg] at h
  · by_cases hsplit : getStakeSplitThreshold ≤ nCredit + (nFees + getProofOfStakeSubsidy)
    · simp [hneg, splitStake, hsplit, baseOutputs, setValue] at h
      subst h
      exact ⟨_, .two _ _ _⟩
    · simp [hneg, splitStake, hsplit, baseOutputs, setValue] at h
      subst h
      exact ⟨_, .one _ _ _⟩

lemma toInt_devCredit : ctx.devCredit.toInt =
    getProofOfStakeSubsidy.toInt * ctx.nDonationPercentage.toNat / 100 := by
  have hlt := ctx.nDonationPercentage.toNat_lt
  have hsubsidy : getProofOfStakeSubsidy.toInt = 200000000 := by decide
  have hhundred : (100 : Int64).toInt = 100 := by decide
  have hpercent : ctx.nDonationPercentage.toUInt64.toInt64.toInt =
      ctx.nDonationPercentage.toNat := by
    change ctx.nDonationPercentage.toUInt64.toBitVec.toInt = _
    rw [BitVec.toInt_eq_toNat_of_lt] <;> simp
    omega
  have hproduct : (getProofOfStakeSubsidy * ctx.nDonationPercentage.toUInt64.toInt64).toInt =
      200000000 * ctx.nDonationPercentage.toNat := by
    rw [toInt_mul, hsubsidy, hpercent, Int.bmod_eq_of_le (by omega) (by omega)]
  rw [devCredit, toInt_div, hproduct, hhundred, hsubsidy,
    Int.tdiv_eq_ediv_of_nonneg (by omega), Int.bmod_eq_of_le (by omega) (by omega)]

lemma donatingOutputs_pays (h : ctx.donatingOutputs devScript nCredit script = some vout) :
    ∃ amounts, PaysStake vout script (nCredit + (getProofOfStakeSubsidy - ctx.devCredit))
      [⟨ctx.devCredit, devScript⟩] amounts := by
  unfold donatingOutputs at h
  have hneg : ¬getProofOfStakeSubsidy < 0 := by decide
  by_cases hsplit : getStakeSplitThreshold ≤ nCredit + (getProofOfStakeSubsidy - ctx.devCredit)
  · simp [hneg, splitStake, hsplit, baseOutputs, setValue] at h
    subst h
    exact ⟨_, .two _ _ _⟩
  · simp [hneg, splitStake, hsplit, baseOutputs, setValue] at h
    subst h
    exact ⟨_, .one _ _ _⟩

end Outputs

/-! ## Signatures -/

lemma map_prevout_modify (vin : List CTxIn) (nIn : Nat) (scriptSig : CScript) :
    (vin.modify nIn fun txin => { txin with scriptSig }).map CTxIn.prevout =
      vin.map CTxIn.prevout := by
  apply ext_getElem?
  intro i
  simp only [getElem?_map, getElem?_modify]
  cases vin[i]? with
  | none => rfl
  | some txin =>
    split_ifs <;> rfl

/-- Signing changes neither what is spent nor what is paid. -/
lemma signInputs_returned {nIn : Nat} {tx tx' : CTransaction}
    {s s' : StakingState} (h : ctx.signInputs nIn coins tx s = (.returned tx', s')) :
    tx'.vin.map CTxIn.prevout = tx.vin.map CTxIn.prevout ∧ tx'.vout = tx.vout := by
  induction coins generalizing nIn tx with
  | nil =>
    obtain ⟨rfl, -⟩ := pure_eq_returned.mp h
    exact ⟨rfl, rfl⟩
  | cons coin rest ih =>
    unfold signInputs at h
    cases hsign : ctx.keystore.signSignature coin.tx tx nIn with
    | none =>
      rw [hsign] at h
      exact absurd h refuse_ne_returned
    | some scriptSig =>
      rw [hsign] at h
      obtain ⟨hvin, hvout⟩ := ih h
      exact ⟨hvin.trans (map_prevout_modify _ _ _), hvout⟩

end StakeContext

/-! ## Wallets in order -/

namespace CWallet

def Keyed (hashes : Hashes) (w : CWallet) : Prop :=
  ∀ hash wtx, w.lookup hash = some wtx → wtx.tx.vout ≠ [] → wtx.tx.getHash hashes = hash

variable {hashes : Hashes} {ctx : WalletContext} {sur : Surroundings} {w w' : CWallet}

lemma lookup_set (w : CWallet) (hash hash' : Uint256) (wtx : CWalletTx) :
    (w.set hash wtx).lookup hash' = if hash' = hash then some wtx else w.lookup hash' := by
  unfold lookup set
  split_ifs with heq
  · rw [heq, AList.lookup_insert]
  · rw [AList.lookup_insert_ne heq]

variable {wtx' wtx : CWalletTx}

/-- An entry may be replaced by one with the same transaction. -/
lemma Keyed.set {hash : Uint256} (h : w.Keyed hashes) (hlookup : w.lookup hash = some wtx)
    (htx : wtx'.tx = wtx.tx) : (w.set hash wtx').Keyed hashes := by
  intro hash' found hfound hvout
  rw [lookup_set] at hfound
  split_ifs at hfound with heq
  · obtain rfl := Option.some.inj hfound
    rw [heq, htx]
    exact h hash wtx hlookup (htx ▸ hvout)
  · exact h hash' found hfound hvout

lemma getDebitAll_tx {nDebit : CAmount} (h : w.getDebitAll ctx wtx = some (nDebit, wtx')) :
    wtx'.tx = wtx.tx := by
  unfold getDebitAll at h
  split_ifs at h
  · obtain ⟨-, rfl⟩ := Prod.mk.inj (Option.some.inj h)
    rfl
  · cases hdebit : wtx.debitCached <;> cases hwatch : wtx.watchDebitCached <;>
      simp only [hdebit, hwatch, Option.bind_eq_bind, Option.bind_some, Option.bind_eq_some_iff,
        Option.some.injEq, Prod.mk.injEq] at h <;> grind

lemma isTrusted_tx {trusted : Bool} (h : w.isTrusted ctx sur wtx = some (trusted, wtx')) :
    wtx'.tx = wtx.tx := by
  unfold isTrusted at h
  dsimp only at h
  split_ifs at h
  case neg =>
    obtain ⟨⟨nDebit, found⟩, hdebit, h⟩ := Option.bind_eq_some_iff.mp h
    have htx := getDebitAll_tx hdebit
    split_ifs at h
    case neg =>
      obtain ⟨_, -, h⟩ := Option.bind_eq_some_iff.mp h
      obtain ⟨-, rfl⟩ := Prod.mk.inj (Option.some.inj h)
      exact htx
    all_goals
      obtain ⟨-, rfl⟩ := Prod.mk.inj (Option.some.inj h)
      exact htx
  all_goals
    obtain ⟨-, rfl⟩ := Prod.mk.inj (Option.some.inj h)
    rfl

lemma getAvailableCredit_tx {chain : List CBlock} {nCredit : CAmount}
    (h : w.getAvailableCredit ctx chain wtx = some (nCredit, wtx')) : wtx'.tx = wtx.tx := by
  unfold getAvailableCredit at h
  split_ifs at h
  · obtain ⟨-, rfl⟩ := Prod.mk.inj (Option.some.inj h)
    rfl
  · cases hcached : wtx.availableCreditCached <;>
      simp only [hcached, Option.bind_eq_bind, Option.bind_eq_some_iff, Option.some.injEq,
        Prod.mk.injEq] at h <;> grind

variable {nBalance : CAmount}

lemma getBalanceLoop_keyed {keys : List Uint256} {nTotal : CAmount}
    (h : getBalanceLoop ctx sur keys nTotal w = some (nBalance, w')) (hkeyed : w.Keyed hashes) :
    w'.Keyed hashes := by
  induction keys generalizing nTotal w with
  | nil =>
    obtain ⟨-, rfl⟩ := Prod.mk.inj (Option.some.inj h)
    exact hkeyed
  | cons hash rest ih =>
    unfold getBalanceLoop at h
    cases hlookup : w.lookup hash with
    | none =>
      rw [hlookup] at h
      exact ih h hkeyed
    | some wtx =>
      simp only [hlookup] at h
      obtain ⟨⟨trusted, found⟩, htrusted, h⟩ := Option.bind_eq_some_iff.mp h
      have hkeyed' := hkeyed.set hlookup (isTrusted_tx htrusted)
      split_ifs at h
      · exact ih h hkeyed'
      · obtain ⟨⟨nCredit, credited⟩, hcredit, h⟩ := Option.bind_eq_some_iff.mp h
        refine ih h (hkeyed'.set ?_ (getAvailableCredit_tx hcredit))
        rw [lookup_set, if_pos rfl]

variable {outpoint : COutPoint}

lemma coin_eq_some (h : w.coin outpoint = some coin) :
    outpoint = ⟨coin.entry, coin.n⟩ ∧
      ∃ wtx, w.lookup coin.entry = some wtx ∧ coin.tx = wtx.tx ∧ wtx.tx.vout ≠ [] := by
  simp only [CWallet.coin, Option.bind_eq_bind, Option.bind_eq_some_iff, Option.some.injEq] at h
  obtain ⟨wtx, hlookup, txout, hout, rfl⟩ := h
  refine ⟨rfl, wtx, hlookup, rfl, ?_⟩
  rintro hnil
  simp [hnil] at hout

/-- In a wallet in order, a coin is spent by its entry and its position. -/
lemma prevout_of_coin (hkeyed : w.Keyed hashes) (h : w.coin outpoint = some coin) :
    coin.prevout hashes = outpoint := by
  obtain ⟨rfl, wtx, hlookup, htx, hvout⟩ := coin_eq_some h
  rw [Coin.prevout, htx, hkeyed _ _ hlookup hvout]

lemma selectCoinsForStaking_spec {nTargetValue nValueRet : CAmount}
    (h : w.selectCoinsForStaking ctx sur nTargetValue = some (setCoins, nValueRet)) :
    setCoins.Nodup ∧ ∀ coin ∈ setCoins, ∃ outpoint, w.coin outpoint = some coin := by
  simp only [selectCoinsForStaking, Option.bind_eq_bind, Option.bind_eq_some_iff,
    Option.some.injEq] at h
  obtain ⟨vCoins, hvCoins, hloop⟩ := h
  obtain ⟨hnodup, hmem⟩ := selectForStakingLoop_spec nTargetValue vCoins [] 0 nodup_nil
  rw [hloop] at hnodup hmem
  refine ⟨hnodup, fun coin hcoin => ?_⟩
  obtain hnil | hvCoin := hmem coin hcoin
  · cases hnil
  · obtain ⟨output, -, hcoin⟩ := Loop.exists_left_of_mem (Loop.forall₂_of_mapM hvCoins) hvCoin
    exact ⟨output.outpoint, hcoin⟩

end CWallet

namespace StakeContext

variable {Key : Type} {ctx : StakeContext Key} {s s' : StakingState} {coins : List Coin}

lemma readBalance_returned {nBalance : CAmount} (h : ctx.readBalance s = (.returned nBalance, s')) :
    s.wallet.getBalance ctx.wallet ctx.sur = some (nBalance, s'.wallet) := by
  unfold readBalance at h
  cases hbalance : s.wallet.getBalance ctx.wallet ctx.sur with
  | none => simp [hbalance] at h
  | some result =>
    simp only [hbalance, Prod.mk.injEq, Outcome.returned.injEq] at h
    obtain ⟨rfl, rfl⟩ := h
    rfl

lemma readCoins_returned {nTargetValue : CAmount}
    (h : ctx.readCoins nTargetValue s = (.returned coins, s')) :
    ∃ setCoins nValueRet, s.wallet.selectCoinsForStaking ctx.wallet ctx.sur nTargetValue =
      some (setCoins, nValueRet) ∧ coins.Perm setCoins := by
  unfold readCoins at h
  cases hselect : s.wallet.selectCoinsForStaking ctx.wallet ctx.sur nTargetValue with
  | none => simp [hselect] at h
  | some result =>
    simp only [hselect, Prod.mk.injEq, Outcome.returned.injEq] at h
    obtain ⟨rfl, rfl⟩ := h
    exact ⟨result.1, result.2, rfl, perm_insertionSort _ _⟩

variable {kernel : Kernel Key}

/-- The kernel and the coins that are added to it are different outpoints. -/
lemma nodup_prevouts {w : CWallet} {coins added : List Coin} (hkeyed : w.Keyed ctx.hashes)
    (hnodup : coins.Nodup) (hfrom : ∀ coin ∈ coins, ∃ outpoint, w.coin outpoint = some coin)
    (hsub : added.Sublist coins)
    (hne : ∀ coin ∈ added, coin.tx.getHash ctx.hashes ≠ kernel.coin.tx.getHash ctx.hashes) :
    ((kernel.coin :: added).map (Coin.prevout ctx.hashes)).Nodup := by
  rw [map_cons, nodup_cons]
  constructor
  · intro hmem
    obtain ⟨coin, hcoin, heq⟩ := mem_map.mp hmem
    exact hne coin hcoin (congrArg COutPoint.hash heq)
  · refine (hnodup.sublist hsub).map_on fun a ha b hb heq => ?_
    obtain ⟨oa, hoa⟩ := hfrom a (hsub.subset ha)
    obtain ⟨ob, hob⟩ := hfrom b (hsub.subset hb)
    rw [CWallet.prevout_of_coin hkeyed hoa, CWallet.prevout_of_coin hkeyed hob] at heq
    rw [heq, hob] at hoa
    exact (Option.some.inj hoa).symm

/-! ## The accounts of a coinstake -/

structure SpendsChosen (ctx : StakeContext Key) (setCoins coins : List Coin) (tx : CTransaction) :
    Prop where
  chosen : coins ⊆ setCoins
  vin_eq : tx.vin.map CTxIn.prevout = coins.map (Coin.prevout ctx.hashes)
  nodup : (tx.vin.map CTxIn.prevout).Nodup

variable {tx' : CTransaction} {key : Key} {tx : CTransaction} {amounts : List CAmount}

lemma completeCoinStake_returned {nFees nLimit : CAmount}
    (h : ctx.completeCoinStake nFees tx nLimit setCoins kernel s = (.returned (tx', key), s')) :
    ∃ added, added.Sublist setCoins ∧
      (∀ coin ∈ added, coin.tx.getHash ctx.hashes ≠ kernel.coin.tx.getHash ctx.hashes) ∧
      tx'.vin.map CTxIn.prevout = (kernel.coin :: added).map (Coin.prevout ctx.hashes) ∧
      ctx.stakeOutputs nFees (amountOf (kernel.coin :: added)) kernel.scriptPubKeyOut =
        some tx'.vout := by
  obtain ⟨added, hsub, hloop, hne⟩ :=
    ctx.combineLoop_spec kernel nLimit setCoins [kernel.coin] kernel.coin.txout.nValue
  unfold completeCoinStake at h
  simp only [hloop, singleton_append] at h
  obtain ⟨_, _, -, h⟩ := bind_eq_returned.mp h
  have hamount : kernel.coin.txout.nValue + amountOf added = amountOf (kernel.coin :: added) := by
    simp [amountOf]
  rw [hamount] at h
  cases hout : ctx.stakeOutputs nFees (amountOf (kernel.coin :: added)) kernel.scriptPubKeyOut with
  | none =>
    rw [hout] at h
    exact absurd h refuse_ne_returned
  | some vout =>
    simp only [hout, bind_eq_returned, pure_eq_returned, Prod.mk.injEq] at h
    obtain ⟨txNew, _, hsign, _, _, -, ⟨rfl, -⟩, -⟩ := h
    obtain ⟨hvin, hvout⟩ := signInputs_returned hsign
    refine ⟨added, hsub, hne, hvin.trans ?_, hout.trans (congrArg some hvout.symm)⟩
    rw [map_map]
    rfl

lemma createCoinStake_returned {nBits : UInt32} {nSearchInterval : Int64} {nFees : CAmount}
    (hkeyed : s.wallet.Keyed ctx.hashes)
    (h : ctx.createCoinStake nBits nSearchInterval nFees tx s = (.returned (tx', key), s')) :
    ∃ nBalance wallet setCoins nValueIn coins script,
      s.wallet.getBalance ctx.wallet ctx.sur = some (nBalance, wallet) ∧
        wallet.selectCoinsForStaking ctx.wallet ctx.sur (nBalance - ctx.nReserveBalance) =
          some (setCoins, nValueIn) ∧
        SpendsChosen ctx setCoins coins tx' ∧
        ctx.stakeOutputs nFees (amountOf coins) script = some tx'.vout := by
  unfold createCoinStake at h
  simp only [bind_eq_returned, require_eq_returned, ensure_eq_returned] at h
  obtain ⟨pindexPrev, _, ⟨-, rfl⟩, nBalance, s₁, hbalance, _, _, ⟨-, rfl⟩, ordered, s₂, hcoins,
    _, _, ⟨-, rfl⟩, _, s₃, -, _, s₄, -, found, s₅, hkernel, h⟩ := h
  cases found with
  | none => exact absurd h refuse_ne_returned
  | some kernel =>
    obtain ⟨setCoins, nValueIn, hselect, hperm⟩ := readCoins_returned hcoins
    obtain ⟨hnodup, hfrom⟩ := CWallet.selectCoinsForStaking_spec hselect
    obtain ⟨added, hsub, hne, hvin, hvout⟩ := completeCoinStake_returned h
    have hkeyed₁ := CWallet.getBalanceLoop_keyed (readBalance_returned hbalance) hkeyed
    have hmem : kernel.coin ∈ ordered := searchKernel_mem (Prod.mk.inj hkernel).1
    refine ⟨nBalance, s₁.wallet, setCoins, nValueIn, kernel.coin :: added, kernel.scriptPubKeyOut,
      readBalance_returned hbalance, hselect, ⟨?_, hvin, ?_⟩, hvout⟩
    · intro coin hcoin
      obtain rfl | hadded := mem_cons.mp hcoin
      · exact hperm.mem_iff.mp hmem
      · exact hperm.mem_iff.mp (hsub.subset hadded)
    · rw [hvin]
      exact nodup_prevouts hkeyed₁ (hperm.nodup_iff.mpr hnodup)
        (fun coin hcoin => hfrom coin (hperm.mem_iff.mp hcoin)) hsub hne

lemma toInt_sum (hnonneg : ∀ a ∈ amounts, 0 ≤ a.toInt)
    (hlt : (amounts.map Int64.toInt).sum < 2 ^ 63) :
    amounts.sum.toInt = (amounts.map Int64.toInt).sum := by
  induction amounts with
  | nil => rfl
  | cons a amounts ih =>
    rw [forall_mem_cons] at hnonneg
    rw [map_cons, sum_cons] at hlt ⊢
    have hrest : 0 ≤ (amounts.map Int64.toInt).sum :=
      sum_nonneg (by simpa using hnonneg.2)
    rw [sum_cons, toInt_add, ih hnonneg.2 (by omega),
      Int.bmod_eq_of_le (by omega) (by omega)]

def amountOut (tx : CTransaction) : CAmount := (tx.vout.map CTxOut.nValue).sum

variable {rest : List CTxOut} {nStake : CAmount} {script : CScript}

lemma PaysStake.amountOut_eq (h : PaysStake tx.vout script nStake rest amounts) :
    amountOut tx = nStake + (rest.map CTxOut.nValue).sum := by
  rw [amountOut, h.vout_eq, ← h.sum_eq]
  simp [map_map, Function.comp_def]

lemma PaysStake.exact_eq (h : PaysStake tx.vout script nStake rest amounts)
    (hstake : 0 ≤ nStake.toInt) :
    (tx.vout.map fun txout => txout.nValue.toInt).sum =
      nStake.toInt + (rest.map fun txout => txout.nValue.toInt).sum := by
  rw [h.vout_eq, ← h.exact_sum hstake]
  simp [map_map, Function.comp_def]

/-- What a coinstake claims: the subsidy, and the fees unless there is a donation. -/
def claimed (ctx : StakeContext Key) (nFees : CAmount) : CAmount :=
  if ctx.donation.isSome then getProofOfStakeSubsidy else getProofOfStakeSubsidy + nFees

def claimedExactly (ctx : StakeContext Key) (nFees : CAmount) : Int :=
  if ctx.donation.isSome then getProofOfStakeSubsidy.toInt
  else getProofOfStakeSubsidy.toInt + nFees.toInt

/-- The amounts of the inputs of a coinstake as integers. -/
def exactAmountOf (coins : List Coin) : Int :=
  (coins.map fun coin => coin.txout.nValue.toInt).sum

/-- The amounts of a coinstake that spends the given coins. Amounts are 64-bit words; the balance
is exact as long as the total is one. -/
structure Accounts (ctx : StakeContext Key) (nFees : CAmount) (coins : List Coin)
    (tx : CTransaction) : Prop where
  donating : ∀ devScript, ctx.donation = some devScript → ∃ script amounts,
    PaysStake tx.vout script (amountOf coins + (getProofOfStakeSubsidy - ctx.devCredit))
      [⟨ctx.devCredit, devScript⟩] amounts
  devCredit : ctx.devCredit.toInt =
    getProofOfStakeSubsidy.toInt * ctx.nDonationPercentage.toNat / 100
  plain : ctx.donation = none → ∃ script amounts,
    PaysStake tx.vout script (amountOf coins + (nFees + getProofOfStakeSubsidy)) [] amounts
  balance : amountOut tx - amountOf coins = ctx.claimed nFees
  exact_balance : ctx.nDonationPercentage ≤ 95 → (∀ coin ∈ coins, 0 ≤ coin.txout.nValue.toInt) →
    exactAmountOf coins + ctx.claimedExactly nFees < 2 ^ 63 →
    (tx.vout.map fun txout => txout.nValue.toInt).sum - exactAmountOf coins =
      ctx.claimedExactly nFees

section Exact

variable {nFees : CAmount} {coins : List Coin} {tx : CTransaction} {script devScript : CScript}
variable {amounts : List CAmount}

lemma toInt_getProofOfStakeSubsidy : getProofOfStakeSubsidy.toInt = 200000000 := by
  decide

section

variable (hnonneg : ∀ coin ∈ coins, 0 ≤ coin.txout.nValue.toInt)
include hnonneg

lemma exactAmountOf_nonneg : 0 ≤ exactAmountOf coins :=
  sum_nonneg (by simpa using hnonneg)

lemma toInt_amountOf (hlt : exactAmountOf coins < 2 ^ 63) :
    (amountOf coins).toInt = exactAmountOf coins := by
  have hsum : ((coins.map fun coin => coin.txout.nValue).map Int64.toInt).sum =
      exactAmountOf coins := by
    rw [map_map]
    rfl
  rw [amountOf, toInt_sum (by simpa using hnonneg) (by rwa [hsum]), hsum]

lemma exact_balance {nReward : CAmount} (hreward : 0 ≤ nReward.toInt)
    (hlt : exactAmountOf coins + nReward.toInt < 2 ^ 63)
    (h : PaysStake tx.vout script (amountOf coins + nReward) rest amounts) :
    (tx.vout.map fun txout => txout.nValue.toInt).sum - exactAmountOf coins =
      nReward.toInt + (rest.map fun txout => txout.nValue.toInt).sum := by
  have hin := exactAmountOf_nonneg hnonneg
  have hstake : (amountOf coins + nReward).toInt = exactAmountOf coins + nReward.toInt := by
    rw [toInt_add, toInt_amountOf hnonneg (by omega), Int.bmod_eq_of_le (by omega) (by omega)]
  rw [h.exact_eq (by omega), hstake]
  ring

lemma exact_balance_donating (hpercent : ctx.nDonationPercentage ≤ 95)
    (hlt : exactAmountOf coins + getProofOfStakeSubsidy.toInt < 2 ^ 63)
    (h : PaysStake tx.vout script (amountOf coins + (getProofOfStakeSubsidy - ctx.devCredit))
      [⟨ctx.devCredit, devScript⟩] amounts) :
    (tx.vout.map fun txout => txout.nValue.toInt).sum - exactAmountOf coins =
      getProofOfStakeSubsidy.toInt := by
  have hsubsidy := toInt_getProofOfStakeSubsidy
  have hdev : ctx.devCredit.toInt = _ := toInt_devCredit
  have hpercent' : ctx.nDonationPercentage.toNat ≤ 95 := UInt32.le_iff_toNat_le.mp hpercent
  rw [hsubsidy] at hdev hlt
  have hminer : (getProofOfStakeSubsidy - ctx.devCredit).toInt =
      200000000 - ctx.devCredit.toInt := by
    rw [Signed.toInt_sub (Signed.fits_sub (by omega) (by omega)), hsubsidy]
  rw [exact_balance hnonneg (by omega) (by omega) h, hminer, hsubsidy]
  simp

lemma exact_balance_plain (hreward : ¬nFees + getProofOfStakeSubsidy < 0)
    (hlt : exactAmountOf coins + (getProofOfStakeSubsidy.toInt + nFees.toInt) < 2 ^ 63)
    (h : PaysStake tx.vout script (amountOf coins + (nFees + getProofOfStakeSubsidy)) [] amounts) :
    (tx.vout.map fun txout => txout.nValue.toInt).sum - exactAmountOf coins =
      getProofOfStakeSubsidy.toInt + nFees.toInt := by
  have hsubsidy := toInt_getProofOfStakeSubsidy
  have hlow := nFees.le_toInt
  have hin := exactAmountOf_nonneg hnonneg
  have hsum : (nFees + getProofOfStakeSubsidy).toInt =
      getProofOfStakeSubsidy.toInt + nFees.toInt := by
    rw [toInt_add, Int.bmod_eq_of_le (by omega) (by omega), add_comm]
  rw [lt_iff_toInt_lt, not_lt] at hreward
  rw [exact_balance hnonneg hreward (by omega) h, hsum]
  simp

end

lemma accounts_of_stakeOutputs (h : ctx.stakeOutputs nFees (amountOf coins) script = some tx.vout) :
    Accounts ctx nFees coins tx := by
  unfold stakeOutputs at h
  cases hdonation : ctx.donation with
  | some devScript =>
    rw [hdonation] at h
    obtain ⟨amounts, hpays⟩ := donatingOutputs_pays h
    have hclaimed : ctx.claimed nFees = getProofOfStakeSubsidy := by simp [claimed, hdonation]
    have hexactly : ctx.claimedExactly nFees = getProofOfStakeSubsidy.toInt := by
      simp [claimedExactly, hdonation]
    refine ⟨fun dev heq => ?_, toInt_devCredit, fun hnone => ?_, ?_, fun hpercent hnonneg hlt => ?_⟩
    · obtain rfl := Option.some.inj (hdonation.symm.trans heq)
      exact ⟨script, amounts, hpays⟩
    · rw [hdonation] at hnone
      cases hnone
    · rw [hpays.amountOut_eq, hclaimed]
      grind
    · rw [hexactly] at hlt ⊢
      exact exact_balance_donating hnonneg hpercent hlt hpays
  | none =>
    rw [hdonation] at h
    obtain ⟨amounts, hpays⟩ := plainOutputs_pays h
    have hreward : ¬nFees + getProofOfStakeSubsidy < 0 := by
      intro hneg
      simp [plainOutputs, hneg] at h
    have hclaimed : ctx.claimed nFees = getProofOfStakeSubsidy + nFees := by
      simp [claimed, hdonation]
    have hexactly : ctx.claimedExactly nFees = getProofOfStakeSubsidy.toInt + nFees.toInt := by
      simp [claimedExactly, hdonation]
    refine ⟨fun dev heq => ?_, toInt_devCredit, fun _ => ⟨script, amounts, hpays⟩, ?_,
      fun _ hnonneg hlt => ?_⟩
    · rw [hdonation] at heq
      cases heq
    · rw [hpays.amountOut_eq, hclaimed]
      grind
    · rw [hexactly] at hlt ⊢
      exact exact_balance_plain hnonneg hreward hlt hpays

end Exact

end StakeContext

/-! ## A small wallet -/

def toyStakeScript : CScript := 33 :: (List.replicate 33 2 ++ [0xac])

def toyStakeCoin (nValue : CAmount) : CTransaction :=
  { toyStaked with vout := [⟨nValue, toyStakeScript⟩] }

def toyStakeWallet (values : List CAmount) : CWallet :=
  values.foldr (fun nValue w => w.set ((toyStakeCoin nValue).getHash stakingConfig.hashes)
    { tx := toyStakeCoin nValue, hashBlock := 101, nIndex := 1 }) CWallet.empty

lemma toyStakeWallet_lookup {values : List CAmount} {hash : Uint256} {wtx : CWalletTx}
    (h : (toyStakeWallet values).lookup hash = some wtx) :
    ∃ nValue ∈ values, hash = (toyStakeCoin nValue).getHash stakingConfig.hashes ∧
      wtx = { tx := toyStakeCoin nValue, hashBlock := 101, nIndex := 1 } := by
  induction values with
  | nil => cases h
  | cons nValue values ih =>
    rw [toyStakeWallet, foldr_cons, CWallet.lookup_set] at h
    split_ifs at h with heq
    · exact ⟨nValue, mem_cons_self, heq, (Option.some.inj h).symm⟩
    · obtain ⟨nValue', hmem, hfound⟩ := ih h
      exact ⟨nValue', mem_cons_of_mem _ hmem, hfound⟩

/-- A staker on a chain of height 12 who donates a tenth of the subsidy. -/
def toyStakeContext : StakeContext Unit where
  config := stakingConfig
  chain := (stakingNode 12).toChainState
  tipIsBestHeader := true
  wallet := ⟨stakingConfig.hashes, fun _ => ISMINE_SPENDABLE, 10, true⟩
  sur :=
    { chain := (List.range 12).reverse.map fun n =>
        { toCBlockHeader := { toyStakedHeader with nNonce := UInt32.ofNat (101 + n) }
          vtx := []
          vchBlockSig := []
          fChecked := false }
      inMempool := fun _ => false
      adjustedTime := 1700001000 }
  keystore := ⟨fun _ => some (), fun _ => List.replicate 33 2, id, fun _ _ _ => some []⟩
  address := BitVec.toNat
  nReserveBalance := 0
  nDonationPercentage := 10
  devRewardScript := some [0x52]
  fStakeCache := false

def toyStakingState : StakeContext.StakingState :=
  ⟨toyStakeWallet [90000000000, 20000000000, 10000000000],
    Finmap.singleton ⟨(toyStakeCoin 90000000000).getHash stakingConfig.hashes, 0⟩
      ⟨1700001000, 90000000000⟩⟩

def toyStakeStart : CTransaction := { toyCoinBase with nTime := 1700002000 }

lemma toyStakeWallet_keyed (values : List CAmount) :
    (toyStakeWallet values).Keyed toyStakeContext.hashes := by
  intro hash wtx hlookup _
  obtain ⟨nValue, -, rfl, rfl⟩ := toyStakeWallet_lookup hlookup
  rfl

namespace StakeContext

end StakeContext

end Jumpcoin
