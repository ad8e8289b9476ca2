import Jumpcoin.Coins.Disconnect
import Jumpcoin.Coins.Spending

/-!
# Taking back what a transaction did

`ApplyTxInUndo` and the removal of outputs in `DisconnectBlock` as the inverses of the steps of
`UpdateCoins`.

A record that loses its outputs one by one and gets them back in reverse order is the record it was,
except that spent outputs in it have become null outputs and those at the end are gone. So a view
is compared with the one before by what is unspent in it (`CCoinsViewCache.Restores`). A record
that was tidy to begin with comes back exactly; this is what `DisconnectBlock` relies on when it
compares the outputs it finds with those of the transaction.
-/

namespace Jumpcoin

open List CCoins

/-! ## Records -/

namespace CCoins

/-- Spent outputs are null outputs, and there are none at the end. -/
structure Tidy (coins : CCoins) : Prop where
  clean : coins.Clean
  null : ∀ txout ∈ coins.vout, txout.isNull = true → txout = CTxOut.null

/-- The second record has the data and the unspent outputs of the first, and it is the first record
if that is tidy. -/
structure Restores (coins restored : CCoins) : Prop where
  fCoinBase : restored.fCoinBase = coins.fCoinBase
  fCoinStake : restored.fCoinStake = coins.fCoinStake
  nHeight : restored.nHeight = coins.nHeight
  nVersion : restored.nVersion = coins.nVersion
  nTime : restored.nTime = coins.nTime
  output : ∀ n, restored.output n = coins.output n
  tidy : coins.Tidy → restored = coins

variable {coins coins' left : CCoins} {nPos : Nat} {txout : CTxOut}

lemma Restores.refl (coins : CCoins) : coins.Restores coins :=
  ⟨rfl, rfl, rfl, rfl, rfl, fun _ => rfl, fun _ => rfl⟩

/-- The last output of a clean record is unspent, so no shorter list has the same unspent
outputs. -/
lemma length_le_of_output_eq (h : coins.Clean) (hout : ∀ n, coins'.output n = coins.output n) :
    coins.vout.length ≤ coins'.vout.length := by
  by_cases hne : coins.vout = []
  · simp [hne]
  · have hlast : coins.vout[coins.vout.length - 1]? = some (coins.vout.getLast hne) := by
      rw [← getLast?_eq_getElem?, getLast?_eq_some_getLast hne]
    have hnull := h _ (getLast?_eq_some_getLast hne)
    have hsome := (hout (coins.vout.length - 1)).trans (output_eq_some.mpr ⟨hlast, hnull⟩)
    have hget := (output_eq_some.mp hsome).1
    have hlt := (List.getElem?_eq_some_iff.mp hget).1
    omega

/-- Tidy records with the same unspent outputs have the same outputs. -/
lemma Tidy.vout_eq (h : coins.Tidy) (h' : coins'.Tidy)
    (hout : ∀ n, coins'.output n = coins.output n) : coins'.vout = coins.vout := by
  have hlen : coins'.vout.length = coins.vout.length :=
    le_antisymm (length_le_of_output_eq h'.clean fun n => (hout n).symm)
      (length_le_of_output_eq h.clean hout)
  refine ext_getElem hlen fun n hn hn' => ?_
  have hget : coins.vout[n]? = some coins.vout[n] := getElem?_eq_getElem hn'
  have hget' : coins'.vout[n]? = some coins'.vout[n] := getElem?_eq_getElem hn
  have hn := hout n
  unfold output at hn
  rw [hget, hget'] at hn
  cases hnull : coins.vout[n].isNull with
  | true =>
    cases hnull' : coins'.vout[n].isNull with
    | true =>
      rw [h.null _ (getElem_mem _) hnull, h'.null _ (getElem_mem _) hnull']
    | false => simp [Option.filter, hnull, hnull'] at hn
  | false =>
    cases hnull' : coins'.vout[n].isNull with
    | true => simp [Option.filter, hnull, hnull'] at hn
    | false => simpa [Option.filter, hnull, hnull'] using hn

/-- Records with the same data and unspent outputs, the second of them tidy. -/
lemma Restores.of_tidy (hmeta : coins'.fCoinBase = coins.fCoinBase ∧
      coins'.fCoinStake = coins.fCoinStake ∧ coins'.nHeight = coins.nHeight ∧
      coins'.nVersion = coins.nVersion ∧ coins'.nTime = coins.nTime)
    (hout : ∀ n, coins'.output n = coins.output n) (htidy : coins.Tidy → coins'.Tidy) :
    coins.Restores coins' := by
  obtain ⟨h₁, h₂, h₃, h₄, h₅⟩ := hmeta
  refine ⟨h₁, h₂, h₃, h₄, h₅, hout, fun h => ?_⟩
  have hvout := h.vout_eq (htidy h) hout
  cases coins
  cases coins'
  simp_all

lemma cleanup_tidy (h : ∀ txout ∈ coins.vout, txout.isNull = true → txout = CTxOut.null) :
    coins.cleanup.Tidy :=
  ⟨cleanup_clean coins, fun txout hmem =>
    h txout ((List.rdropWhile_prefix CTxOut.isNull coins.vout).subset hmem)⟩

lemma Tidy.spend (h : coins.Tidy) (hspend : coins.spend nPos = some left) : left.Tidy := by
  unfold CCoins.spend at hspend
  split_ifs at hspend
  obtain rfl := Option.some.inj hspend
  refine cleanup_tidy fun txout hmem hnull => ?_
  rcases mem_or_eq_of_mem_set hmem with hmem | rfl
  · exact h.null txout hmem hnull
  · rfl

lemma isPruned_of_output (h : coins.output nPos = some txout) : coins.isPruned = false := by
  by_contra hpruned
  rw [output_of_isPruned (by simpa using hpruned)] at h
  cases h

lemma spend_meta (h : coins.spend nPos = some left) :
    left.fCoinBase = coins.fCoinBase ∧ left.fCoinStake = coins.fCoinStake ∧
      left.nHeight = coins.nHeight ∧ left.nVersion = coins.nVersion ∧ left.nTime = coins.nTime := by
  unfold spend at h
  split_ifs at h
  obtain rfl := Option.some.inj h
  exact ⟨rfl, rfl, rfl, rfl, rfl⟩

/-! ### Setting an output -/

lemma getElem?_setOutput (vout : List CTxOut) (nPos : Nat) (txout : CTxOut) (n : Nat) :
    (setOutput vout nPos txout)[n]? =
      if n = nPos then some txout
      else if n < vout.length then vout[n]?
      else if n < nPos then some CTxOut.null else none := by
  unfold setOutput
  have hlen : (vout ++ List.replicate (nPos + 1 - vout.length) CTxOut.null).length =
      max vout.length (nPos + 1) := by
    simp only [length_append, length_replicate]
    omega
  rw [getElem?_set]
  by_cases heq : nPos = n
  · subst heq
    rw [if_pos rfl, if_pos (by rw [hlen]; omega), if_pos rfl]
  · rw [if_neg heq, if_neg (Ne.symm heq), getElem?_append]
    split_ifs with h₁ h₂
    · rfl
    · rw [getElem?_replicate, if_pos (by omega)]
    · rw [getElem?_replicate, if_neg (by omega)]

lemma output_setOutput (coins : CCoins) (nPos : Nat) (hnull : txout.isNull = false) (n : Nat) :
    ({ coins with vout := setOutput coins.vout nPos txout } : CCoins).output n =
      if n = nPos then some txout else coins.output n := by
  unfold output
  rw [getElem?_setOutput]
  split_ifs with h₁ h₂ h₃
  · simp [hnull]
  · rfl
  · rw [getElem?_eq_none (by omega)]
    simp [Option.filter]
  · rw [getElem?_eq_none (by omega)]

/-- Null outputs are the only spent ones that setting an output adds. -/
lemma null_of_mem_setOutput {vout : List CTxOut} {txout' : CTxOut}
    (h : ∀ txout ∈ vout, txout.isNull = true → txout = CTxOut.null) (hnull : txout.isNull = false)
    (hmem : txout' ∈ setOutput vout nPos txout) (hnull' : txout'.isNull = true) :
    txout' = CTxOut.null := by
  obtain ⟨n, hn⟩ := getElem?_of_mem hmem
  rw [getElem?_setOutput] at hn
  split_ifs at hn with h₁ h₂ h₃
  · obtain rfl := Option.some.inj hn
    simp [hnull] at hnull'
  · exact h txout' (mem_of_getElem? hn) hnull'
  · exact (Option.some.inj hn).symm

/-- The output that was spent, put back into what the spend left. -/
lemma restores_setOutput {base : CCoins} (hspend : coins.spend nPos = some left)
    (hout : coins.output nPos = some txout) (hbase : left.Restores base) :
    coins.Restores ({ base with vout := setOutput base.vout nPos txout } : CCoins).cleanup := by
  have hnull : txout.isNull = false := (output_eq_some.mp hout).2
  obtain ⟨h₁, h₂, h₃, h₄, h₅⟩ := spend_meta hspend
  refine .of_tidy ⟨hbase.fCoinBase.trans h₁, hbase.fCoinStake.trans h₂, hbase.nHeight.trans h₃,
    hbase.nVersion.trans h₄, hbase.nTime.trans h₅⟩ (fun n => ?_) fun htidy => ?_
  · rw [output_cleanup, output_setOutput base nPos hnull, hbase.output, output_spend hspend]
    split_ifs with heq
    · rw [heq, hout]
    · rfl
  · have hleft := htidy.spend hspend
    rw [hbase.tidy hleft]
    exact cleanup_tidy fun txout' hmem hnull' => null_of_mem_setOutput hleft.null hnull hmem hnull'

/-- A record that a spend has emptied, built up again from the data in the undo information. -/
lemma restores_of_emptied (hnil : left.vout = []) :
    left.Restores { CCoins.empty with
      fCoinBase := left.fCoinBase
      fCoinStake := left.fCoinStake
      nHeight := left.nHeight
      nVersion := left.nVersion
      nTime := left.nTime } := by
  refine ⟨rfl, rfl, rfl, rfl, rfl, fun n => ?_, fun _ => ?_⟩
  · simp [output, empty, hnil]
  · cases left
    simp_all [empty]

/-! ### Records of transactions -/

/-- Outputs that are not negative are null in the record only if they are unspendable. -/
lemma fromTx_tidy {tx : CTransaction} (h : ∀ txout ∈ tx.vout, txout.isNull = false)
    (nHeight : Int32) : (fromTx tx nHeight).Tidy := by
  refine cleanup_tidy fun txout hmem hnull => ?_
  obtain ⟨txout', hmem', rfl⟩ := mem_map.mp hmem
  split_ifs at hnull ⊢
  · rfl
  · simp [h txout' hmem'] at hnull

lemma clearUnspendable_fromTx (tx : CTransaction) (nHeight : Int32) :
    (fromTx tx nHeight).clearUnspendable = fromTx tx nHeight := by
  have hmem : ∀ txout ∈ (fromTx tx nHeight).vout, txout.isUnspendable = false := by
    intro txout hmem
    have hsub := (List.rdropWhile_prefix CTxOut.isNull _).subset hmem
    obtain ⟨txout', -, rfl⟩ := mem_map.mp hsub
    split_ifs with hun
    · rfl
    · simpa using hun
  have hmap : (fromTx tx nHeight).vout.map
      (fun txout => if txout.isUnspendable then CTxOut.null else txout) =
      (fromTx tx nHeight).vout := by
    conv_rhs => rw [← map_id (fromTx tx nHeight).vout]
    exact map_congr_left fun txout hin => by simp [hmem txout hin]
  unfold clearUnspendable
  rw [hmap]
  exact cleanup_eq_self (fromTx_clean tx nHeight)

lemma isPruned_clearUnspendable (h : coins.isPruned = true) :
    coins.clearUnspendable.isPruned = true := by
  unfold clearUnspendable
  rw [isPruned_cleanup]
  unfold isPruned at h ⊢
  rw [all_map, all_eq_true]
  intro txout hmem
  have hnull := all_eq_true.mp h txout hmem
  simp only [Function.comp]
  split_ifs
  · rfl
  · exact hnull

end CCoins

/-! ## Views -/

namespace CCoinsViewCache

def unspent (view : CCoinsViewCache) (txid : Uint256) : Option CCoins :=
  (view.accessCoins txid).filter fun coins => !coins.isPruned

/-- The second view has the unspent outputs of the first, with the data of their transactions. -/
def Restores (view restored : CCoinsViewCache) : Prop :=
  ∀ txid, Option.Rel CCoins.Restores (view.unspent txid) (restored.unspent txid)

/-- Every record is of a block above the genesis block, whose transactions are never added. -/
def AboveGenesis (view : CCoinsViewCache) : Prop :=
  ∀ txid coins, view.accessCoins txid = some coins → coins.nHeight ≠ 0

variable {view view' restored : CCoinsViewCache} {txid txid' : Uint256} {coins : CCoins}

lemma unspent_setCoins_self :
    (view.setCoins txid coins).unspent txid =
      if coins.isPruned then none else some coins.cleanup := by
  rw [unspent, accessCoins_setCoins_self, isPruned_cleanup]
  split_ifs with hpruned
  · rfl
  · simp [Option.filter, isPruned_cleanup, hpruned]

lemma unspent_setCoins_of_ne (h : txid' ≠ txid) :
    (view.setCoins txid coins).unspent txid' = view.unspent txid' := by
  rw [unspent, accessCoins_setCoins_of_ne h, unspent]

lemma unspent_eq_some : view.unspent txid = some coins ↔
    view.accessCoins txid = some coins ∧ coins.isPruned = false := by
  simp [unspent, Option.filter_eq_some_iff]

lemma isPruned_modifyCoins :
    (view.modifyCoins txid).isPruned = true ↔ view.unspent txid = none := by
  unfold modifyCoins unspent
  cases view.accessCoins txid with
  | none => simp [CCoins.isPruned, CCoins.empty]
  | some coins => cases hpruned : coins.isPruned <;> simp [Option.filter, hpruned]

lemma modifyCoins_of_unspent (h : view.unspent txid = some coins) :
    view.modifyCoins txid = coins := by
  simp [modifyCoins, (unspent_eq_some.mp h).1]

lemma Restores.refl (view : CCoinsViewCache) : view.Restores view := by
  intro txid
  cases view.unspent txid with
  | none => exact .none
  | some coins => exact .some (.refl coins)

lemma Restores.unspent_none (h : view.Restores restored) (hnone : view.unspent txid = none) :
    restored.unspent txid = none := by
  have hrel := h txid
  rw [hnone] at hrel
  cases hrunspent : restored.unspent txid with
  | none => rfl
  | some coins =>
    rw [hrunspent] at hrel
    cases hrel

lemma Restores.unspent_some (h : view.Restores restored) (hsome : view.unspent txid = some coins) :
    ∃ coins', restored.unspent txid = some coins' ∧ coins.Restores coins' := by
  have hrel := h txid
  rw [hsome] at hrel
  cases hrunspent : restored.unspent txid with
  | none =>
    rw [hrunspent] at hrel
    cases hrel
  | some coins' =>
    rw [hrunspent] at hrel
    cases hrel with
    | some hcoins => exact ⟨coins', rfl, hcoins⟩

/-- Views that agree except for one record, and there as well. -/
lemma Restores.of_setCoins {coins₁ coins₂ : CCoins}
    (h : (view.setCoins txid coins₁).Restores restored)
    (hself : Option.Rel CCoins.Restores (view.unspent txid)
      (if coins₂.isPruned then none else some coins₂.cleanup)) :
    view.Restores (restored.setCoins txid coins₂) := by
  intro txid'
  by_cases heq : txid' = txid
  · subst heq
    rw [unspent_setCoins_self]
    exact hself
  · rw [unspent_setCoins_of_ne heq]
    have hrel := h txid'
    rwa [unspent_setCoins_of_ne heq] at hrel

lemma AboveGenesis.setCoins (h : view.AboveGenesis) (hcoins : coins.nHeight ≠ 0) :
    (view.setCoins txid coins).AboveGenesis := by
  intro txid' coins' hacc
  by_cases heq : txid' = txid
  · subst heq
    rw [accessCoins_setCoins_self] at hacc
    split_ifs at hacc
    obtain rfl := Option.some.inj hacc
    exact hcoins
  · rw [accessCoins_setCoins_of_ne heq] at hacc
    exact h txid' coins' hacc

/-! ### Inputs -/

section Inputs

variable {txin : CTxIn} {s : SpentOutput}

lemma SpendsInput.aboveGenesis (h : SpendsInput view txin s view') (hview : view.AboveGenesis) :
    s.coins.nHeight ≠ 0 ∧ view'.AboveGenesis := by
  have hcoins := hview _ _ h.coins_eq
  refine ⟨hcoins, ?_⟩
  rw [h.view_eq]
  exact hview.setCoins ((spend_meta h.spend_eq).2.2.1 ▸ hcoins)

lemma SpendsInput.unspent_eq (h : SpendsInput view txin s view') :
    view.unspent txin.prevout.hash = some s.coins :=
  unspent_eq_some.mpr ⟨h.coins_eq, isPruned_of_output h.output_eq⟩

/-- A transaction with nothing unspent has nothing unspent after a spend. -/
lemma SpendsInput.unspent_none (h : SpendsInput view txin s view')
    (hnone : view.unspent txid = none) : view'.unspent txid = none := by
  have hne : txid ≠ txin.prevout.hash := by
    rintro rfl
    rw [h.unspent_eq] at hnone
    cases hnone
  rw [h.view_eq, unspent_setCoins_of_ne hne, hnone]

lemma toUInt32_ne_zero {n : Int32} (h : n ≠ 0) : n.toUInt32 ≠ 0 := by
  intro hzero
  apply h
  rw [← Int32.toInt32_toUInt32 n, hzero]
  rfl

/-- The spent output put back into the record, whatever version of it is there. -/
lemma SpendsInput.restores_setOutput (h : SpendsInput view txin s view')
    (hrestored : view'.Restores restored) {base : CCoins} (hbase : s.left.Restores base) :
    view.Restores (restored.setCoins txin.prevout.hash
      { base with vout := setOutput base.vout txin.prevout.n.toNat s.txout }) := by
  have hnull := (output_eq_some.mp h.output_eq).2
  have hpruned : ({ base with
      vout := setOutput base.vout txin.prevout.n.toNat s.txout } : CCoins).isPruned = false := by
    exact isPruned_of_output
      ((output_setOutput base txin.prevout.n.toNat hnull _).trans (if_pos rfl))
  rw [h.view_eq] at hrestored
  refine hrestored.of_setCoins ?_
  rw [h.unspent_eq, hpruned, ← h.nPos_eq]
  exact .some (CCoins.restores_setOutput h.spend_eq h.output_eq hbase)

lemma SpendsInput.applyTxInUndo (h : SpendsInput view txin s view') (hview : view.AboveGenesis)
    (hrestored : view'.Restores restored) :
    ∃ restored', applyTxInUndo restored s.undo txin.prevout = ⟨restored', true⟩ ∧
      view.Restores restored' := by
  have hclean := spend_clean h.spend_eq
  have hleft : view'.unspent txin.prevout.hash =
      if s.left.isPruned then none else some s.left.cleanup := by
    rw [h.view_eq, unspent_setCoins_self]
  by_cases hnil : s.left.vout = []
  · -- the last output of the record: its data is in the undo information
    rw [if_pos ((isPruned_iff hclean).mpr hnil)] at hleft
    have hpruned := isPruned_modifyCoins.mpr (hrestored.unspent_none hleft)
    have hheight : s.left.nHeight.toUInt32 ≠ 0 := toUInt32_ne_zero
      ((spend_meta h.spend_eq).2.2.1 ▸ (h.aboveGenesis hview).1)
    refine ⟨_, ?_, h.restores_setOutput hrestored (restores_of_emptied hnil)⟩
    simp [Jumpcoin.applyTxInUndo, SpentOutput.undo, hnil, hheight, hpruned, CCoins.isAvailable,
      CCoins.empty]
  · have hpruned : s.left.isPruned = false :=
      Bool.eq_false_iff.mpr (mt (isPruned_iff hclean).mp hnil)
    rw [hpruned, cleanup_eq_self hclean] at hleft
    obtain ⟨base, hunspent, hbase⟩ := hrestored.unspent_some hleft
    have hspent : base.isAvailable txin.prevout.n.toNat = false := by
      have hout := hbase.output txin.prevout.n.toNat
      rw [output_spend h.spend_eq, if_pos h.nPos_eq.symm] at hout
      by_contra havail
      obtain ⟨txout, htxout⟩ := isAvailable_iff.mp (by simpa using havail)
      simp [hout] at htxout
    refine ⟨_, ?_, h.restores_setOutput hrestored hbase⟩
    simp [Jumpcoin.applyTxInUndo, SpentOutput.undo, hnil, modifyCoins_of_unspent hunspent,
      (unspent_eq_some.mp hunspent).2, hspent]

variable {spent : List SpentOutput} {vin : List CTxIn}

/-- Restoring the inputs of a transaction takes back its spends. -/
lemma spendInputs_restoreInputs (h : view.spendInputs vin = some (spent, view'))
    (hview : view.AboveGenesis) (hrestored : view'.Restores restored) :
    ∃ restored', restoreInputs restored (vin.zip (spent.map SpentOutput.undo)) =
      ⟨restored', true⟩ ∧ view.Restores restored' := by
  replace h := spendInputs_run h
  induction h with
  | nil => exact ⟨restored, rfl, hrestored⟩
  | cons hs _ ih =>
    obtain ⟨later, hlater, hview₁⟩ := ih (hs.aboveGenesis hview).2 hrestored
    obtain ⟨restored', hthis, hview'⟩ := hs.applyTxInUndo hview hview₁
    refine ⟨restored', ?_, hview'⟩
    simp [restoreInputs, hlater, hthis]

/-- What spending leaves as it was. -/
lemma spendInputs_keeps (h : view.spendInputs vin = some (spent, view')) :
    (view.AboveGenesis → view'.AboveGenesis) ∧
      ∀ txid, view.unspent txid = none → view'.unspent txid = none := by
  replace h := spendInputs_run h
  induction h with
  | nil => exact ⟨id, fun _ => id⟩
  | cons hs _ ih =>
    obtain ⟨habove, hnone⟩ := ih
    exact ⟨fun hview => habove (hs.aboveGenesis hview).2,
      fun txid h => hnone txid (hs.unspent_none h)⟩

end Inputs

/-! ### Outputs -/

section Outputs

variable {hashes : Hashes} {tx : CTransaction} {nHeight : Nat}

/-- Removing the outputs of a transaction takes back their addition. -/
lemma removeOutputs_restores (hout : ∀ txout ∈ tx.vout, txout.isNull = false)
    (hnew : view.unspent (tx.getHash hashes) = none)
    (hrestored : (view.setCoins (tx.getHash hashes)
      (CCoins.fromTx tx (Int32.ofNat nHeight))).Restores restored) :
    ∃ restored', removeOutputs hashes restored tx nHeight = ⟨restored', true⟩ ∧
      view.Restores restored' := by
  refine ⟨restored.setCoins (tx.getHash hashes) CCoins.empty, ?_, hrestored.of_setCoins ?_⟩
  · have hadded : (view.setCoins (tx.getHash hashes)
        (CCoins.fromTx tx (Int32.ofNat nHeight))).unspent (tx.getHash hashes) =
          if (CCoins.fromTx tx (Int32.ofNat nHeight)).isPruned then none
          else some (CCoins.fromTx tx (Int32.ofNat nHeight)) := by
      rw [unspent_setCoins_self, cleanup_eq_self (fromTx_clean tx _)]
    have hmatch : (removeOutputs hashes restored tx nHeight).fClean = true := by
      unfold removeOutputs CCoins.equals
      cases hpruned : (CCoins.fromTx tx (Int32.ofNat nHeight)).isPruned with
      | true =>
        rw [hpruned, if_pos rfl] at hadded
        have hfound := isPruned_clearUnspendable
          (isPruned_modifyCoins.mpr (hrestored.unspent_none hadded))
        dsimp only
        split_ifs
        · simpa [hpruned] using .inl hfound
        · simp [hpruned, hfound]
      | false =>
        rw [hpruned, if_neg (by simp)] at hadded
        obtain ⟨coins, hunspent, hcoins⟩ := hrestored.unspent_some hadded
        dsimp only
        rw [modifyCoins_of_unspent hunspent, hcoins.tidy (fromTx_tidy hout _),
          clearUnspendable_fromTx]
        simp
    rw [← hmatch]
    rfl
  · rw [hnew]
    exact .none

variable {txundo : CTxUndo}

/-- Taking back a transaction undoes `UpdateCoins`, unless it has overwritten something unspent. -/
lemma updateCoins_disconnectTx {fClean : Bool}
    (h : view.updateCoins hashes tx nHeight = some (txundo, view')) (hcb : tx.isCoinBase = false)
    (hview : view.AboveGenesis) (hout : ∀ txout ∈ tx.vout, txout.isNull = false)
    (hnew : view.unspent (tx.getHash hashes) = none) (hrestored : view'.Restores restored) :
    ∃ restored', disconnectTx hashes nHeight tx txundo ⟨restored, fClean⟩ =
      some ⟨restored', fClean⟩ ∧ view.Restores restored' := by
  obtain ⟨spent, view₁, hspend, rfl, rfl⟩ := updateCoins_eq_some h
  simp only [spendTx, hcb, Bool.false_eq_true, if_false] at hspend
  have hlen : (spent.map SpentOutput.undo).length = tx.vin.length := by
    rw [length_map, (spendInputs_spent hspend).length_eq]
  obtain ⟨removed, hremove, hview₁⟩ :=
    removeOutputs_restores hout ((spendInputs_keeps hspend).2 _ hnew) hrestored
  obtain ⟨restored', hrestore, hview'⟩ := spendInputs_restoreInputs hspend hview hview₁
  refine ⟨restored', ?_, hview'⟩
  simp [disconnectTx, hlen, hremove, hrestore]

lemma updateCoins_aboveGenesis (h : view.updateCoins hashes tx nHeight = some (txundo, view'))
    (hview : view.AboveGenesis) (hheight : Int32.ofNat nHeight ≠ 0) : view'.AboveGenesis := by
  obtain ⟨spent, view₁, hspend, rfl, rfl⟩ := updateCoins_eq_some h
  refine AboveGenesis.setCoins ?_ hheight
  unfold spendTx at hspend
  split_ifs at hspend
  · obtain ⟨-, rfl⟩ : [] = spent ∧ view = view₁ := by simpa using hspend
    exact hview
  · exact (spendInputs_keeps hspend).1 hview

end Outputs

end CCoinsViewCache

end Jumpcoin
