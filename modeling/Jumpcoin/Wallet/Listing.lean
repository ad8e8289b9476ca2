import Jumpcoin.Wallet.CoinSelection

/-!
# Selection from the outputs of a wallet

A listing is what `AvailableCoins` gives to `SelectCoinsMinConf`: outputs of the wallet, none twice,
with amounts that are not negative. Selection from a listing is right for every implementation of
the arithmetic and every outcome of the random choices exactly if no sum overflows and a coin worth
the largest word is not needed.
-/

namespace Jumpcoin

open List

open Signed (Arithmetic Fits)
open StakeContext (exactAmountOf)

namespace CWallet

/-! ## Listings -/

/-- A list of outputs of the wallet: each once, with an amount that is not negative and with a
transaction whose debit is one. -/
structure Listing (ctx : WalletContext) (w : CWallet) where
  vCoins : List COutput
  nodup : (vCoins.map COutput.outpoint).Nodup
  held : ∀ output ∈ vCoins, ∃ coin, w.coin output.outpoint = some coin ∧ 0 ≤ coin.nValue.toInt
  debit : ∀ output ∈ vCoins, ∀ pcoin, w.lookup output.outpoint.hash = some pcoin →
    (w.getDebitAll ctx pcoin).isSome

section Listed

variable {ctx : WalletContext} {pool : PoolCounts} {w : CWallet} {policy : SelectionPolicy}
variable {outpoint : COutPoint} {output : COutput} {coin : Coin} {vCoins : List COutput}

def eligibleCoins (ctx : WalletContext) (pool : PoolCounts) (w : CWallet)
    (policy : SelectionPolicy) (vCoins : List COutput) : List Coin :=
  vCoins.filterMap fun output =>
    if eligible ctx pool w policy output = some true then w.coin output.outpoint else none

lemma mem_eligibleCoins : coin ∈ eligibleCoins ctx pool w policy vCoins ↔
    ∃ output ∈ vCoins, eligible ctx pool w policy output = some true ∧
      w.coin output.outpoint = some coin := by
  simp [eligibleCoins]

lemma key_of_coin (h : w.coin outpoint = some coin) : coin.key = outpoint := by
  unfold CWallet.coin at h
  simp only [Option.bind_eq_bind, Option.bind_eq_some_iff, Option.some.injEq] at h
  obtain ⟨_, -, _, -, rfl⟩ := h
  rfl

lemma keys_sublist (vCoins : List COutput) :
    ((eligibleCoins ctx pool w policy vCoins).map Coin.key).Sublist
      (vCoins.map COutput.outpoint) := by
  apply Subset.map_filterMap_sublist
  intro output coin hcoin
  obtain ⟨-, hcoin⟩ := Option.ite_none_right_eq_some.mp hcoin
  exact key_of_coin hcoin

lemma eligible_isSome {pcoin : CWalletTx} (hlookup : w.lookup output.outpoint.hash = some pcoin)
    (hdebit : (w.getDebitAll ctx pcoin).isSome) : (eligible ctx pool w policy output).isSome := by
  obtain ⟨⟨nDebit, entry⟩, hdebit⟩ := Option.isSome_iff_exists.mp hdebit
  unfold eligible
  grind

namespace Listing

variable (listing : Listing ctx w)

lemma lookup_of_mem (h : output ∈ listing.vCoins) :
    ∃ pcoin, w.lookup output.outpoint.hash = some pcoin := by
  obtain ⟨coin, hcoin, -⟩ := listing.held output h
  unfold CWallet.coin at hcoin
  simp only [Option.bind_eq_bind, Option.bind_eq_some_iff] at hcoin
  obtain ⟨pcoin, hlookup, -⟩ := hcoin
  exact ⟨pcoin, hlookup⟩

lemma eligible_isSome (pool : PoolCounts) (policy : SelectionPolicy) (h : output ∈ listing.vCoins) :
    (eligible ctx pool w policy output).isSome := by
  obtain ⟨pcoin, hlookup⟩ := listing.lookup_of_mem h
  exact CWallet.eligible_isSome hlookup (listing.debit output h pcoin hlookup)

lemma nonneg (h : vCoins ⊆ listing.vCoins) :
    ∀ coin ∈ eligibleCoins ctx pool w policy vCoins, 0 ≤ coin.nValue.toInt := by
  intro coin hcoin
  obtain ⟨output, hmem, -, hcoin⟩ := mem_eligibleCoins.mp hcoin
  obtain ⟨coin', hcoin', hnonneg⟩ := listing.held output (h hmem)
  obtain rfl := Option.some.inj (hcoin.symm.trans hcoin')
  exact hnonneg

/-- On listed outputs the loop meets their eligible coins, in the same order. -/
lemma gatherLoop_eq (arith : Arithmetic) (pool : PoolCounts) (policy : SelectionPolicy)
    (nTargetValue : CAmount) (g : Gathered) (h : vCoins ⊆ listing.vCoins) :
    gatherLoop arith ctx pool w policy nTargetValue vCoins g =
      gatherCoins arith nTargetValue (eligibleCoins ctx pool w policy vCoins) g := by
  induction vCoins generalizing g with
  | nil => rfl
  | cons output rest ih =>
    obtain ⟨hmem, hrest⟩ := cons_subset.mp h
    obtain ⟨fEligible, heligible⟩ :=
      Option.isSome_iff_exists.mp (listing.eligible_isSome pool policy hmem)
    obtain ⟨coin, hcoin, -⟩ := listing.held output hmem
    rw [gatherLoop, eligibleCoins, filterMap_cons]
    simp only [heligible, hcoin, Option.bind_eq_bind, Option.bind_some]
    cases fEligible with
    | false => exact ih g hrest
    | true =>
      simp only [if_true, gatherCoins]
      cases gatherCoin arith nTargetValue coin g with
      | none => rfl
      | some gathered =>
        obtain coin | g' := gathered
        · rfl
        · exact ih g' hrest

variable (pool : PoolCounts) (policy : SelectionPolicy) (nTargetValue : CAmount)

def coins : List Coin := eligibleCoins ctx pool w policy listing.vCoins

lemma coins_keys_nodup : ((listing.coins pool policy).map Coin.key).Nodup :=
  listing.nodup.sublist (keys_sublist _)

/-- What a selection gives: with true, eligible coins without a repetition whose values sum to the
value returned, which is at least the target; with false, all eligible coins are worth less. -/
def Selected : Option (Bool × List Coin × CAmount) → Prop
  | some (true, setCoinsRet, nValueRet) => (setCoinsRet.map Coin.key).Nodup ∧
      (∀ coin ∈ setCoinsRet, ∃ output ∈ listing.vCoins,
        eligible ctx pool w policy output = some true ∧ w.coin output.outpoint = some coin) ∧
      exactAmountOf setCoinsRet = nValueRet.toInt ∧ nTargetValue ≤ nValueRet
  | some (false, _, _) => exactAmountOf (listing.coins pool policy) < nTargetValue.toInt
  | none => False

variable {pool policy nTargetValue}

lemma Selected.of_chosen {coins : List Coin} {outcome : Option (Bool × List Coin × CAmount)}
    (hperm : coins.Perm (listing.coins pool policy)) (h : Chosen nTargetValue coins outcome) :
    listing.Selected pool policy nTargetValue outcome := by
  obtain _ | ⟨fSelected, setCoinsRet, nValueRet⟩ := outcome
  · exact h
  · cases fSelected with
    | false =>
      have hsum : exactAmountOf coins = exactAmountOf (listing.coins pool policy) :=
        (hperm.map _).sum_eq
      exact (hsum ▸ h : exactAmountOf (listing.coins pool policy) < nTargetValue.toInt)
    | true =>
      obtain ⟨hnodup, hsub, hvalue, hreaches⟩ := h
      have hmem (coin : Coin) (hcoin : coin ∈ setCoinsRet) : coin ∈ listing.coins pool policy :=
        hperm.subset (hsub hcoin)
      refine ⟨?_, fun coin hcoin => mem_eligibleCoins.mp (hmem coin hcoin), hvalue, hreaches⟩
      apply hnodup.map_on
      intro a ha b hb heq
      exact inj_on_of_nodup_map (listing.coins_keys_nodup pool policy) (hmem a ha) (hmem b hb) heq

/-- With room for the sums, every run of `SelectCoinsMinConf` selects rightly. -/
lemma selected_of_selectable (arith : Arithmetic) (chance : Chance)
    (h : Selectable nTargetValue (listing.coins pool policy)) :
    listing.Selected pool policy nTargetValue
      (selectCoinsMinConf arith ctx pool w policy nTargetValue chance listing.vCoins) := by
  have hshuffle := chance.shuffle_perm listing.vCoins
  set coins := eligibleCoins ctx pool w policy (chance.shuffle listing.vCoins)
  have hperm : coins.Perm (listing.coins pool policy) := hshuffle.filterMap _
  have hselectable : Selectable nTargetValue coins := h.of_perm hperm.symm
  have hnonneg : ∀ coin ∈ coins, 0 ≤ coin.nValue.toInt := listing.nonneg hshuffle.subset
  have hnodup : coins.Nodup :=
    hperm.nodup_iff.mpr (listing.coins_keys_nodup pool policy).of_map
  have hloop := listing.gatherLoop_eq arith pool policy nTargetValue .start hshuffle.subset
  apply Selected.of_chosen listing hperm
  unfold selectCoinsMinConf
  simp only [hloop, Option.bind_eq_bind]
  obtain ⟨coin, hmem, hvalue, heq⟩ | ⟨g, heq, hgathers⟩ :=
    gatherCoins_spec arith hnonneg hselectable.limit (g := .start) le_rfl
      (by simpa [Gathered.start] using hselectable.total)
  · rw [heq]
    exact .single arith hmem hnonneg (by rw [hvalue])
  · rw [heq]
    exact hgathers.finish arith chance hselectable hnodup hnonneg

/-- A run in which overflows are trapped and the coins other than the target come first. -/
lemma room_of_selected (h : ∀ arith chance, listing.Selected pool policy nTargetValue
      (selectCoinsMinConf arith ctx pool w policy nTargetValue chance listing.vCoins)) :
    Room nTargetValue (listing.coins pool policy) := by
  let isOther : COutput → Bool := fun output =>
    (w.coin output.outpoint).any fun coin => coin.nValue ≠ nTargetValue
  let chance := Chance.shuffled (fun vCoins => vCoins.filter isOther ++ vCoins.filter (!isOther ·))
    fun vCoins => filter_append_perm isOther vCoins
  let others := eligibleCoins ctx pool w policy (listing.vCoins.filter isOther)
  let targets := eligibleCoins ctx pool w policy (listing.vCoins.filter (!isOther ·))
  have hsplit : eligibleCoins ctx pool w policy (chance.shuffle listing.vCoins) =
      others ++ targets := filterMap_append
  have hshuffle := chance.shuffle_perm listing.vCoins
  have hperm : (others ++ targets).Perm (listing.coins pool policy) :=
    hsplit ▸ hshuffle.filterMap _
  have hothers : ∀ coin ∈ others, coin.nValue ≠ nTargetValue := by
    intro coin hcoin
    obtain ⟨output, hmem, -, hcoin⟩ := mem_eligibleCoins.mp hcoin
    simpa [isOther, hcoin] using (mem_filter.mp hmem).2
  have htargets : ∀ coin ∈ targets, coin.nValue = nTargetValue := by
    intro coin hcoin
    obtain ⟨output, hmem, -, hcoin⟩ := mem_eligibleCoins.mp hcoin
    simpa [isOther, hcoin] using (mem_filter.mp hmem).2
  obtain ⟨r, hr⟩ : ∃ r, gatherCoins .trapping nTargetValue others .start = some r := by
    apply Option.ne_none_iff_exists'.mp
    intro hnone
    have hselected := h .trapping chance
    rw [selectCoinsMinConf, listing.gatherLoop_eq _ pool policy _ _ hshuffle.subset, hsplit,
      gatherCoins_append_eq_none hnone] at hselected
    exact hselected
  obtain ⟨hfits, hlt⟩ := fits_of_gatherCoins_trapping hr hothers
  apply Room.of_perm _ hperm
  refine ⟨?_, ?_⟩
  · rintro ⟨coin, hcoin, hne⟩
    obtain hcoin | hcoin := mem_append.mp hcoin
    · exact hfits (ne_nil_of_mem hcoin)
    · exact absurd (htargets coin hcoin) hne
  · have hnone : lowerCoins nTargetValue targets = [] := by
      apply filter_eq_nil_iff.mpr
      intro coin hcoin
      simp [Lower, htargets coin hcoin]
    have happend : lowerCoins nTargetValue (others ++ targets) =
        lowerCoins nTargetValue others ++ lowerCoins nTargetValue targets := filter_append ..
    rw [happend, hnone, append_nil]
    simpa [Gathered.start] using hlt

/-- A run that returns false, although a coin is worth the largest word. -/
lemma largest_of_selected (hroom : Room nTargetValue (listing.coins pool policy))
    (h : ∀ arith chance, listing.Selected pool policy nTargetValue
      (selectCoinsMinConf arith ctx pool w policy nTargetValue chance listing.vCoins))
    (hinexact : ∀ coin ∈ listing.coins pool policy, coin.nValue ≠ nTargetValue)
    (hmax : ∃ coin ∈ listing.coins pool policy, coin.nValue = Int64.maxValue)
    (hsplit : ∀ coin ∈ listing.coins pool policy,
      coin.nValue.toInt < nTargetValue.toInt + MIN_CHANGE.toInt ∨ coin.nValue = Int64.maxValue) :
    nTargetValue.toInt ≤ exactAmountOf (lowerCoins nTargetValue (listing.coins pool policy)) := by
  by_contra! hlt
  have hnonneg : ∀ coin ∈ listing.coins pool policy, 0 ≤ coin.nValue.toInt :=
    listing.nonneg (List.Subset.refl _)
  obtain ⟨coin, hmem, hvalue, -⟩ | ⟨g, heq, hgathers⟩ :=
    gatherCoins_spec .wrapping hnonneg hroom.limit (g := .start) le_rfl
      (by simpa [Gathered.start] using hroom.total)
  · exact hinexact coin hmem hvalue
  · have htotal : g.nTotalLower.toInt =
        0 + exactAmountOf (lowerCoins nTargetValue (listing.coins pool policy)) := hgathers.total
    have hlarger : g.coinLowestLarger = none := by
      apply Option.eq_none_iff_forall_ne_some.mpr
      intro coin hcoin
      obtain hold | ⟨hmem, hlarge, hne⟩ := hgathers.larger coin hcoin
      · cases hold
      · obtain hsmall | hmax := hsplit coin hmem
        · omega
        · exact hne hmax
    have hloop : gatherLoop .wrapping ctx pool w policy nTargetValue listing.vCoins .start =
        some (.inr g) :=
      (listing.gatherLoop_eq _ pool policy _ _ (List.Subset.refl _)).trans heq
    have hselected := h .wrapping (.shuffled id fun _ => .refl _)
    unfold selectCoinsMinConf at hselected
    simp only [Chance.shuffled, id_eq] at hselected
    have hne : g.nTotalLower ≠ nTargetValue := by
      rintro rfl
      omega
    have hlt' : g.nTotalLower < nTargetValue := by
      rw [Int64.lt_iff_toInt_lt]
      omega
    simp only [hloop, Option.bind_eq_bind, Option.bind_some, hne, if_false, hlt', if_true,
      hlarger] at hselected
    obtain ⟨coin, hmem, hvalue⟩ := hmax
    have hle := exactAmountOf_le_of_sublist (singleton_sublist.mpr hmem) hnonneg
    have hone : exactAmountOf [coin] = coin.nValue.toInt := by simp [exactAmountOf]
    have htarget := nTargetValue.toInt_lt
    have hword : Int64.maxValue.toInt = 2 ^ 63 - 1 := by decide
    have hsum : exactAmountOf (listing.coins pool policy) < nTargetValue.toInt := hselected
    rw [hone, hvalue] at hle
    omega

/-- For every implementation of the arithmetic and every outcome of the random choices, selection
returns true only with different eligible coins that are together worth the value returned, at least
the target, and returns false only if all eligible coins are worth less. -/
theorem selectCoinsMinConf_iff (listing : Listing ctx w) (pool : PoolCounts)
    (policy : SelectionPolicy) (nTargetValue : CAmount) :
    (∀ arith chance, listing.Selected pool policy nTargetValue
      (selectCoinsMinConf arith ctx pool w policy nTargetValue chance listing.vCoins)) ↔
      Selectable nTargetValue (listing.coins pool policy) := by
  constructor
  · intro h
    have hroom := listing.room_of_selected h
    exact ⟨hroom, listing.largest_of_selected hroom h⟩
  · intro h arith chance
    exact listing.selected_of_selectable arith chance h

end Listing

/-! ## What `AvailableCoins` lists -/

variable {sur : Surroundings} {fOnlyConfirmed fIncludeZeroValue : Bool}
variable {coinControl : Option CoinSelection} {hash : Uint256} {pcoin : CWalletTx}

def outpointsOf (hash : Uint256) (tx : CTransaction) : List COutPoint :=
  (List.range' 0 tx.vout.length).map fun i => ⟨hash, UInt32.ofNat i⟩

lemma outpointsOf_nodup {tx : CTransaction} (hsize : tx.vout.length ≤ 2 ^ 32) :
    (outpointsOf hash tx).Nodup := by
  apply List.Nodup.map_on _ nodup_range'
  intro i hi j hj heq
  have hword32 : UInt32.size = 2 ^ 32 := rfl
  have hword := congrArg UInt32.toNat (COutPoint.mk.inj heq).2
  simp only [mem_range'_1] at hi hj
  rwa [UInt32.toNat_ofNat_of_lt' (by omega), UInt32.toNat_ofNat_of_lt' (by omega)] at hword

lemma availableCoinsOf_sublist :
    ((w.availableCoinsOf ctx sur coinControl fIncludeZeroValue hash pcoin).map
      COutput.outpoint).Sublist (outpointsOf hash pcoin.tx) := by
  have hpositions : outpointsOf hash pcoin.tx =
      pcoin.tx.vout.zipIdx.map fun entry => ⟨hash, UInt32.ofNat entry.2⟩ := by
    rw [outpointsOf, ← zipIdx_map_snd, map_map]
    rfl
  rw [hpositions]
  apply Subset.map_filterMap_sublist
  rintro ⟨txout, i⟩ output houtput
  obtain ⟨-, hsome⟩ := Option.ite_none_right_eq_some.mp houtput
  obtain rfl := Option.some.inj hsome
  rfl

section

variable (h : w.availableCoins ctx sur fOnlyConfirmed coinControl fIncludeZeroValue = some vCoins)
include h

lemma availableCoins_sublist :
    vCoins.Sublist (w.mapWallet.entries.flatMap fun entry =>
      w.availableCoinsOf ctx sur coinControl fIncludeZeroValue entry.1 entry.2) := by
  let listed (entry : (_ : Uint256) × CWalletTx) : List COutput :=
    w.availableCoinsOf ctx sur coinControl fIncludeZeroValue entry.1 entry.2
  have hrun : ∃ added, vCoins = [] ++ added ∧
      added.Sublist (w.mapWallet.entries.flatMap listed) := by
    apply Subset.foldlM_sublist _ h
    intro acc entry acc' hstep
    clear h
    cases htrusted : w.isTrusted ctx sur entry.2 <;> cases fOnlyConfirmed
    all_goals
      grind
  obtain ⟨added, rfl, hsub⟩ := hrun
  exact hsub

lemma unspent_of_listed (houtput : output ∈ vCoins) :
    w.isSpent ctx.hashes sur.chain output.outpoint = false ∧
      output.outpoint ∉ w.setLockedCoins := by
  obtain ⟨entry, -, hmem⟩ := mem_flatMap.mp ((availableCoins_sublist h).subset houtput)
  obtain ⟨⟨txout, i⟩, -, hlisted⟩ := mem_filterMap.mp hmem
  obtain ⟨hcond, heq⟩ := Option.ite_none_right_eq_some.mp hlisted
  obtain rfl := Option.some.inj heq
  grind

variable (hwallet : ∀ hash pcoin, w.lookup hash = some pcoin → pcoin.tx.vout.length ≤ 2 ^ 32 ∧
  (∀ txout ∈ pcoin.tx.vout, 0 ≤ txout.nValue.toInt) ∧ (w.getDebitAll ctx pcoin).isSome)
include hwallet

/-- What `AvailableCoins` lists is a listing, if the transactions of the wallet have amounts that
are not negative. -/
lemma exists_listing : ∃ listing : Listing ctx w, listing.vCoins = vCoins := by
  have hsub := availableCoins_sublist h
  have hlookup (entry) (hentry : entry ∈ w.mapWallet.entries) :
      w.lookup entry.1 = some entry.2 :=
    mem_dlookup_iff w.mapWallet.nodupKeys |>.mpr hentry
  refine ⟨⟨vCoins, ?_, ?_, ?_⟩, rfl⟩
  · have hall : (w.mapWallet.entries.flatMap fun entry =>
        outpointsOf entry.1 entry.2.tx).Nodup := by
      rw [nodup_flatMap]
      refine ⟨fun entry hentry => outpointsOf_nodup (hwallet _ _ (hlookup entry hentry)).1, ?_⟩
      apply (nodupKeys_iff_pairwise.mp w.mapWallet.nodupKeys).imp
      intro entry entry' hne outpoint hmem hmem'
      obtain ⟨_, -, rfl⟩ := mem_map.mp hmem
      obtain ⟨_, -, heq⟩ := mem_map.mp hmem'
      exact hne (COutPoint.mk.inj heq).1.symm
    apply List.Nodup.sublist _ hall
    apply (hsub.map COutput.outpoint).trans
    rw [map_flatMap]
    exact List.Sublist.flatMap_right _ fun entry _ => availableCoinsOf_sublist
  · intro output houtput
    obtain ⟨entry, hentry, houtput⟩ := mem_flatMap.mp (hsub.subset houtput)
    have hentry := hlookup entry hentry
    obtain ⟨i, hi, houtpoint⟩ := mem_map.mp
      (availableCoinsOf_sublist.subset (mem_map_of_mem houtput))
    have hlt : i < entry.2.tx.vout.length := by simpa using hi
    have hword : (UInt32.ofNat i).toNat = i := by
      have hword32 : UInt32.size = 2 ^ 32 := rfl
      have := (hwallet _ _ hentry).1
      exact UInt32.toNat_ofNat_of_lt' (by omega)
    refine ⟨⟨entry.1, entry.2.tx, UInt32.ofNat i, entry.2.tx.vout[i]⟩, ?_,
      (hwallet _ _ hentry).2.1 _ (getElem_mem hlt)⟩
    rw [← houtpoint]
    simp [CWallet.coin, hentry, hword, hlt]
  · intro output _ pcoin hpcoin
    exact (hwallet _ pcoin hpcoin).2.2

/-- Selection from what `AvailableCoins` lists takes different outputs of the wallet, unspent and
not locked, and it is right for every target that leaves room for the sums. -/
theorem availableCoins_selected :
    (∀ output ∈ vCoins, w.isSpent ctx.hashes sur.chain output.outpoint = false ∧
      output.outpoint ∉ w.setLockedCoins) ∧
    ∃ listing : Listing ctx w, listing.vCoins = vCoins ∧
      ∀ arith chance pool policy nTargetValue, Selectable nTargetValue (listing.coins pool policy) →
        listing.Selected pool policy nTargetValue
          (selectCoinsMinConf arith ctx pool w policy nTargetValue chance vCoins) := by
  obtain ⟨listing, hlisting⟩ := exists_listing h hwallet
  refine ⟨fun output => unspent_of_listed h, listing, hlisting, fun arith chance _ _ _ hroom => ?_⟩
  rw [← hlisting]
  exact listing.selected_of_selectable arith chance hroom

end

end Listed

/-! ## Small wallets -/

def toyCoin (nValue : CAmount) : Coin :=
  ⟨(toyStakeCoin nValue).getHash stakingConfig.hashes, toyStakeCoin nValue, 0,
    ⟨nValue, toyStakeScript⟩⟩

/-- Three coins are listed and selected from. -/
theorem toyCoins_selected :
    ∃ vCoins, (toyStakeWallet [1000, 2000, 4000]).availableCoins toyStakeContext.wallet
        toyStakeContext.sur true none false = some vCoins ∧ vCoins.length = 3 ∧
      (∀ output ∈ vCoins, (toyStakeWallet [1000, 2000, 4000]).isSpent stakingConfig.hashes
        toyStakeContext.sur.chain output.outpoint = false) ∧
      ∃ listing : Listing toyStakeContext.wallet (toyStakeWallet [1000, 2000, 4000]),
        listing.vCoins = vCoins ∧ ∀ arith chance, listing.Selected (fun _ => none) ⟨1, 10, 0⟩ 2500
          (selectCoinsMinConf arith toyStakeContext.wallet (fun _ => none)
            (toyStakeWallet [1000, 2000, 4000]) ⟨1, 10, 0⟩ 2500 chance vCoins) := by
  have hlisted : ((toyStakeWallet [1000, 2000, 4000]).availableCoins toyStakeContext.wallet
      toyStakeContext.sur true none false).map (fun vCoins => (vCoins.length, eligibleCoins
        toyStakeContext.wallet (fun _ => none) (toyStakeWallet [1000, 2000, 4000]) ⟨1, 10, 0⟩
        vCoins)) = some (3, [1000, 2000, 4000].map toyCoin) := by decide +kernel
  obtain ⟨vCoins, hvCoins, heq⟩ := Option.map_eq_some_iff.mp hlisted
  obtain ⟨hlength, hcoins⟩ := Prod.mk.inj heq
  have hselectable : Selectable 2500 ([1000, 2000, 4000].map toyCoin) := by
    refine ⟨⟨fun _ => by decide, by decide +kernel⟩, fun _ hlargest => ?_⟩
    exact absurd hlargest (by decide +kernel)
  obtain ⟨hunspent, listing, hlisting, hselected⟩ := availableCoins_selected hvCoins (by
    intro hash pcoin hpcoin
    obtain ⟨nValue, hmem, -, rfl⟩ := toyStakeWallet_lookup hpcoin
    fin_cases hmem <;> decide +kernel)
  refine ⟨vCoins, hvCoins, hlength, fun output houtput => (hunspent output houtput).1, listing,
    hlisting, fun arith chance => hselected arith chance _ _ _ ?_⟩
  rwa [Listing.coins, hlisting, hcoins]

def toyListing : Listing toyStakeContext.wallet (toyStakeWallet [2000]) where
  vCoins := [⟨⟨(toyStakeCoin 2000).getHash stakingConfig.hashes, 0⟩, 12, true⟩]
  nodup := List.nodup_singleton _
  held := by
    intro output houtput
    obtain rfl := List.mem_singleton.mp houtput
    exact ⟨toyCoin 2000, by decide +kernel, by decide⟩
  debit := by
    intro output houtput pcoin hpcoin
    obtain ⟨nValue, hmem, -, rfl⟩ := toyStakeWallet_lookup hpcoin
    obtain rfl := List.mem_singleton.mp hmem
    decide +kernel

/-- With two's complement the coin is taken for a target that is far above it. -/
theorem selectCoinsMinConf_short :
    ∃ setCoinsRet,
      selectCoinsMinConf .wrapping toyStakeContext.wallet (fun _ => none) (toyStakeWallet [2000])
        ⟨1, 10, 0⟩ 9223372036854775807 (.shuffled id fun _ => .refl _) toyListing.vCoins =
          some (true, setCoinsRet, 2000) ∧
      ¬ toyListing.Selected (fun _ => none) ⟨1, 10, 0⟩ 9223372036854775807
        (some (true, setCoinsRet, 2000)) := by
  refine ⟨[toyCoin 2000], by decide +kernel, ?_⟩
  rintro ⟨-, -, -, hreaches⟩
  exact absurd hreaches (by decide)

end CWallet

end Jumpcoin
