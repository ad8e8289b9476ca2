import Jumpcoin.Coins.Restore

/-!
# Records that stand

A record with an unspent output is found under its transaction, with its height, for as long as that
output is left alone: transactions that spend other outputs of the record shrink it, and taking them
back lets it grow again, but only a record with nothing left in it is dropped and built anew.
-/

namespace Jumpcoin

open Option CCoins

/-! ## Spending other outputs -/

namespace CCoinsViewCache

/-- The record of a transaction is there with a given height, and output `n` of it is unspent. -/
def Stands (view : CCoinsViewCache) (txid : Uint256) (n : Nat) (nHeight : Int32) : Prop :=
  ∃ coins, view.accessCoins txid = some coins ∧ coins.nHeight = nHeight ∧
    ∃ txout, coins.output n = some txout

def Spares (hashes : Hashes) (txid : Uint256) (n : Nat) (tx : CTransaction) : Prop :=
  tx.getHash hashes ≠ txid ∧ (tx.isCoinBase = false →
    ∀ txin ∈ tx.vin, txin.prevout.hash = txid → txin.prevout.n.toNat ≠ n)

namespace Stands

variable {hashes : Hashes} {view view' : CCoinsViewCache} {txid : Uint256} {n : Nat}
variable {nHeight : Int32} {coins : CCoins}

lemma of_setCoins {txout : CTxOut} (hheight : coins.nHeight = nHeight)
    (hout : coins.output n = some txout) : (view.setCoins txid coins).Stands txid n nHeight := by
  have hclean : coins.cleanup.output n = some txout := by rwa [output_cleanup]
  refine ⟨coins.cleanup, ?_, hheight, txout, hclean⟩
  rw [accessCoins_setCoins_self, isPruned_of_output hclean]
  rfl

lemma setCoins_of_ne {txid' : Uint256} (h : view.Stands txid n nHeight) (hne : txid ≠ txid') :
    (view.setCoins txid' coins).Stands txid n nHeight := by
  obtain ⟨coins', hcoins, hrest⟩ := h
  exact ⟨coins', by rw [accessCoins_setCoins_of_ne hne, hcoins], hrest⟩

lemma spendInput {txin : CTxIn} {s : SpentOutput} (h : view.Stands txid n nHeight)
    (hs : SpendsInput view txin s view')
    (hne : txin.prevout.hash = txid → txin.prevout.n.toNat ≠ n) : view'.Stands txid n nHeight := by
  rw [hs.view_eq]
  by_cases hhash : txid = txin.prevout.hash
  · subst hhash
    obtain ⟨coins, hcoins, hheight, txout, hout⟩ := h
    obtain rfl : coins = s.coins := some.inj (hcoins.symm.trans hs.coins_eq)
    have hn : n ≠ s.nPos := fun hn => hne rfl (hs.nPos_eq.symm.trans hn.symm)
    have hleft : s.left.output n = some txout := by
      rw [output_spend hs.spend_eq, if_neg hn, hout]
    exact of_setCoins ((spend_meta hs.spend_eq).2.2.1.trans hheight) hleft
  · exact h.setCoins_of_ne hhash

lemma spendRun {vin : List CTxIn} {spent : List SpentOutput} (h : view.Stands txid n nHeight)
    (hspend : SpendRun view vin spent view')
    (hne : ∀ txin ∈ vin, txin.prevout.hash = txid → txin.prevout.n.toNat ≠ n) :
    view'.Stands txid n nHeight := by
  induction hspend with
  | nil => exact h
  | cons hs _ ih =>
    rw [List.forall_mem_cons] at hne
    exact ih (h.spendInput hs hne.1) hne.2

lemma updateCoins {tx : CTransaction} {height : Nat} {txundo : CTxUndo}
    (h : view.Stands txid n nHeight) (hspares : Spares hashes txid n tx)
    (hupdate : view.updateCoins hashes tx height = some (txundo, view')) :
    view'.Stands txid n nHeight := by
  obtain ⟨spent, view₁, hspend, -, rfl⟩ := updateCoins_eq_some hupdate
  refine setCoins_of_ne ?_ hspares.1.symm
  refine h.spendRun (spendTx_run hspend) ?_
  cases hcb : tx.isCoinBase with
  | true => simp
  | false => simpa using hspares.2 hcb

end Stands

end CCoinsViewCache

/-! ## Taking transactions back -/

lemma CCoins.output_setOutput_of_ne (coins : CCoins) {nPos n : Nat} (txout : CTxOut)
    (hne : n ≠ nPos) :
    ({ coins with vout := setOutput coins.vout nPos txout } : CCoins).output n =
      coins.output n := by
  unfold output
  rw [getElem?_setOutput, if_neg hne]
  split_ifs with h₁ h₂
  · rfl
  · rw [List.getElem?_eq_none (by omega)]
    simp [Option.filter]
  · rw [List.getElem?_eq_none (by omega)]

variable {undone later : Undone} {tx : CTransaction} {txundo : CTxUndo}

/-- What is clean in the end was clean before the last transaction was taken back. -/
lemma fClean_of_disconnectTx {hashes : Hashes} {height : Nat}
    (hundone : disconnectTx hashes height tx txundo later = some undone)
    (hclean : undone.fClean = true) : later.fClean = true := by
  unfold disconnectTx at hundone
  split_ifs at hundone
  obtain rfl := some.inj hundone
  simp only [Bool.and_eq_true] at hclean
  exact hclean.1.1

namespace CCoinsViewCache.Stands

variable {hashes : Hashes} {view view' : CCoinsViewCache} {txid : Uint256} {n : Nat}
variable {nHeight : Int32} {height : Nat}

lemma modifyCoins (h : view.Stands txid n nHeight) :
    (view.modifyCoins txid).nHeight = nHeight ∧
      ∃ txout, (view.modifyCoins txid).output n = some txout := by
  obtain ⟨coins, hcoins, hrest⟩ := h
  rwa [CCoinsViewCache.modifyCoins, hcoins, getD_some]

lemma applyTxInUndo {undo : CTxInUndo} {prevout : COutPoint} (h : view.Stands txid n nHeight)
    (hclean : (applyTxInUndo view undo prevout).fClean = true) :
    (applyTxInUndo view undo prevout).view.Stands txid n nHeight := by
  by_cases hhash : txid = prevout.hash
  · subst hhash
    obtain ⟨hheight, txout, hout⟩ := h.modifyCoins
    simp only [Jumpcoin.applyTxInUndo, isPruned_of_output hout] at hclean ⊢
    -- the record has an output left, so the undo information says nothing about its height
    have hundo : undo.nHeight = 0 := by
      by_contra hne
      simp [hne] at hclean
    simp only [hundo, ne_eq, not_true_eq_false, if_false, decide_false, beq_self_eq_true,
      Bool.true_and, Bool.not_eq_true'] at hclean ⊢
    have hn : n ≠ prevout.n.toNat := by
      rintro rfl
      rw [isAvailable_iff.mpr ⟨_, hout⟩] at hclean
      cases hclean
    exact of_setCoins hheight ((output_setOutput_of_ne _ _ hn).trans hout)
  · exact h.setCoins_of_ne hhash

lemma restoreInputs {inputs : List (CTxIn × CTxInUndo)} (h : view.Stands txid n nHeight)
    (hclean : (restoreInputs view inputs).fClean = true) :
    (restoreInputs view inputs).view.Stands txid n nHeight := by
  induction inputs with
  | nil => exact h
  | cons input inputs ih =>
    obtain ⟨txin, undo⟩ := input
    simp only [Jumpcoin.restoreInputs, Bool.and_eq_true] at hclean ⊢
    exact (ih hclean.1).applyTxInUndo hclean.2

lemma disconnectTx (h : later.view.Stands txid n nHeight) (hhash : tx.getHash hashes ≠ txid)
    (hundone : disconnectTx hashes height tx txundo later = some undone)
    (hclean : undone.fClean = true) : undone.view.Stands txid n nHeight := by
  unfold Jumpcoin.disconnectTx at hundone
  split_ifs at hundone
  obtain rfl := some.inj hundone
  rw [Bool.and_eq_true] at hclean
  exact restoreInputs (h.setCoins_of_ne hhash.symm) hclean.2

lemma disconnectTxs {txs : List (CTransaction × CTxUndo)} (h : view.Stands txid n nHeight)
    (hhash : ∀ tx ∈ txs, tx.1.getHash hashes ≠ txid)
    (hundone : disconnectTxs hashes height view txs = some undone) (hclean : undone.fClean = true) :
    undone.view.Stands txid n nHeight := by
  induction txs generalizing undone with
  | nil =>
    obtain rfl := some.inj hundone
    exact h
  | cons tx txs ih =>
    obtain ⟨later, hlater, hone⟩ := bind_eq_some_iff.mp hundone
    rw [List.forall_mem_cons] at hhash
    have hbefore := fClean_of_disconnectTx hone hclean
    exact disconnectTx (ih hhash.2 hlater hbefore) hhash.1 hone hclean

lemma disconnectTransactions {block : CBlock} {blockUndo : CBlockUndo}
    (h : view.Stands txid n nHeight) (hhash : ∀ tx ∈ block.vtx, tx.getHash hashes ≠ txid)
    (hundone : disconnectTransactions hashes height block blockUndo view = some view') :
    view'.Stands txid n nHeight := by
  unfold Jumpcoin.disconnectTransactions at hundone
  rcases hvtx : block.vtx with _ | ⟨coinBase, rest⟩
  · simp [hvtx] at hundone
  · rw [hvtx] at hundone hhash
    simp only [bind_eq_bind] at hundone
    split_ifs at hundone
    obtain ⟨later, hlater, hundone⟩ := bind_eq_some_iff.mp hundone
    split_ifs at hundone with hclean
    obtain rfl := some.inj hundone
    rw [Bool.and_eq_true] at hclean
    rw [List.forall_mem_cons] at hhash
    refine setCoins_of_ne (disconnectTxs h (fun tx hmem => ?_) hlater hclean.1) hhash.1.symm
    exact hhash.2 tx.1 (List.of_mem_zip hmem).1

end CCoinsViewCache.Stands

/-! ## What every write keeps

A property that no write of a record can break is kept by everything that is done to a view. -/

namespace CCoinsViewCache

def WriteStable (P : CCoinsViewCache → Prop) : Prop :=
  ∀ view txid coins, P view → P (view.setCoins txid coins)

namespace WriteStable

variable {P : CCoinsViewCache → Prop} {hashes : Hashes} {view view' : CCoinsViewCache}
  {height : Nat}

section

variable (hP : WriteStable P)
include hP

lemma spendRun {vin : List CTxIn} {spent : List SpentOutput}
    (hspend : SpendRun view vin spent view') (h : P view) : P view' := by
  induction hspend with
  | nil => exact h
  | cons hs _ ih =>
    refine ih ?_
    rw [hs.view_eq]
    exact hP _ _ _ h

lemma updateCoins (hupdate : view.updateCoins hashes tx height = some (txundo, view'))
    (h : P view) : P view' := by
  obtain ⟨spent, view₁, hspend, -, rfl⟩ := updateCoins_eq_some hupdate
  refine hP view₁ _ _ ?_
  exact hP.spendRun (spendTx_run hspend) h

lemma restoreInputs (inputs : List (CTxIn × CTxInUndo)) (h : P view) :
    P (restoreInputs view inputs).view := by
  induction inputs with
  | nil => exact h
  | cons input inputs ih => exact hP _ _ _ ih

lemma disconnectTxs {txs : List (CTransaction × CTxUndo)}
    (hundone : disconnectTxs hashes height view txs = some undone) (h : P view) :
    P undone.view := by
  induction txs generalizing undone with
  | nil =>
    obtain rfl := some.inj hundone
    exact h
  | cons tx txs ih =>
    obtain ⟨later, hlater, hone⟩ := bind_eq_some_iff.mp hundone
    unfold disconnectTx at hone
    split_ifs at hone
    obtain rfl := some.inj hone
    exact hP.restoreInputs _ (hP _ _ _ (ih hlater))

lemma disconnectTransactions {block : CBlock} {blockUndo : CBlockUndo}
    (hundone : disconnectTransactions hashes height block blockUndo view = some view')
    (h : P view) : P view' := by
  unfold Jumpcoin.disconnectTransactions at hundone
  rcases hvtx : block.vtx with _ | ⟨coinBase, rest⟩
  · simp [hvtx] at hundone
  · rw [hvtx] at hundone
    simp only [bind_eq_bind] at hundone
    split_ifs at hundone
    obtain ⟨later, hlater, hundone⟩ := bind_eq_some_iff.mp hundone
    split_ifs at hundone
    obtain rfl := some.inj hundone
    exact hP _ _ _ (hP.disconnectTxs hlater h)

end

end WriteStable

def Unpruned (view : CCoinsViewCache) : Prop :=
  ∀ txid coins, view.accessCoins txid = some coins → coins.isPruned = false

lemma Unpruned.writeStable : WriteStable Unpruned := by
  intro view txid coins h txid' coins' hcoins
  by_cases heq : txid' = txid
  · subst heq
    rw [accessCoins_setCoins_self] at hcoins
    split_ifs at hcoins with hpruned
    obtain rfl := some.inj hcoins
    simpa using hpruned
  · rw [accessCoins_setCoins_of_ne heq] at hcoins
    exact h txid' coins' hcoins

lemma Unpruned.stands {view : CCoinsViewCache} {txid : Uint256} {coins : CCoins} (h : view.Unpruned)
    (hcoins : view.accessCoins txid = some coins) : ∃ n, view.Stands txid n coins.nHeight := by
  obtain ⟨txout, hmem, hnull⟩ := List.all_eq_false.mp (h txid coins hcoins)
  obtain ⟨n, hn⟩ := List.getElem?_of_mem hmem
  exact ⟨n, coins, hcoins, rfl, txout, output_eq_some.mpr ⟨hn, by simpa using hnull⟩⟩

end CCoinsViewCache

end Jumpcoin
