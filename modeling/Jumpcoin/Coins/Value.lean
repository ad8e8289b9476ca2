import Jumpcoin.Coins.Spending
import Jumpcoin.Foundation.Totals

/-!
# The value of the unspent outputs

The total of all unspent outputs of a view, in unbounded arithmetic, and how a transaction changes
it: spending takes the spent amounts out, and adding the outputs puts in the amounts of those that
can be spent, less what an unspent transaction of the same hash held.
-/

namespace Jumpcoin

open List

/-- The amount of an output; spent and negative outputs hold nothing. -/
def CTxOut.value (txout : CTxOut) : Nat := txout.nValue.toInt.toNat

def CTransaction.valueOut (tx : CTransaction) : Nat := (tx.vout.map CTxOut.value).sum

def CTransaction.valueBurned (tx : CTransaction) : Nat :=
  ((tx.vout.filter CTxOut.isUnspendable).map CTxOut.value).sum

def CCoins.value (coins : CCoins) : Nat := (coins.vout.map CTxOut.value).sum

def CCoinsViewCache.totalValue (view : CCoinsViewCache) : Nat :=
  MapTotal.total CCoins.value view.cacheCoins

def CCoinsViewCache.valueOf (view : CCoinsViewCache) (txid : Uint256) : Nat :=
  MapTotal.measureAt CCoins.value view.cacheCoins txid

lemma CTxOut.value_of_isNull {txout : CTxOut} (h : txout.isNull = true) : txout.value = 0 := by
  obtain hv : txout.nValue = -1 := by simpa [isNull] using h
  rw [value, hv]
  rfl

namespace CCoins

variable {coins left : CCoins} {nPos : Nat} {txout : CTxOut}

@[simp] lemma value_cleanup (coins : CCoins) : coins.cleanup.value = coins.value := by
  have hdrop : ∀ vout : List CTxOut,
      ((vout.rdropWhile CTxOut.isNull).map CTxOut.value).sum = (vout.map CTxOut.value).sum := by
    intro vout
    induction vout using List.reverseRecOn with
    | nil => rfl
    | append_singleton vout txout ih =>
      by_cases hnull : txout.isNull = true
      · rw [rdropWhile_concat_pos _ _ _ hnull, ih]
        simp [CTxOut.value_of_isNull hnull]
      · rw [rdropWhile_concat_neg _ _ _ hnull]
  exact hdrop coins.vout

lemma value_of_isPruned (h : coins.isPruned = true) : coins.value = 0 := by
  refine sum_eq_zero fun n hn => ?_
  obtain ⟨txout, hmem, rfl⟩ := mem_map.mp hn
  exact CTxOut.value_of_isNull (all_eq_true.mp h txout hmem)

lemma sum_map_set {vout : List CTxOut} (h : vout[nPos]? = some txout) :
    ((vout.set nPos CTxOut.null).map CTxOut.value).sum + txout.value =
      (vout.map CTxOut.value).sum := by
  induction vout generalizing nPos with
  | nil => simp at h
  | cons first vout ih =>
    cases nPos with
    | zero =>
      obtain rfl : first = txout := by simpa using h
      simp [CTxOut.value_of_isNull CTxOut.isNull_null, Nat.add_comm]
    | succ nPos =>
      have hrest := ih (by simpa using h)
      simp only [set_cons_succ, map_cons, sum_cons]
      omega

lemma value_spend (hspend : coins.spend nPos = some left)
    (hout : coins.output nPos = some txout) : left.value + txout.value = coins.value := by
  unfold spend at hspend
  split_ifs at hspend
  obtain rfl := Option.some.inj hspend
  rw [value_cleanup]
  exact sum_map_set (output_eq_some.mp hout).1

/-- The record of a new transaction holds what it does not burn. -/
lemma value_fromTx (tx : CTransaction) (nHeight : Int32) :
    (fromTx tx nHeight).value + tx.valueBurned = tx.valueOut := by
  have hsplit : ∀ vout : List CTxOut,
      ((vout.map fun txout => if txout.isUnspendable then CTxOut.null else txout).map
          CTxOut.value).sum + ((vout.filter CTxOut.isUnspendable).map CTxOut.value).sum =
        (vout.map CTxOut.value).sum := by
    intro vout
    induction vout with
    | nil => rfl
    | cons txout vout ih =>
      cases hun : txout.isUnspendable with
      | true =>
        simp only [map_cons, sum_cons, hun, if_true, filter_cons_of_pos,
          CTxOut.value_of_isNull CTxOut.isNull_null]
        omega
      | false =>
        simp only [map_cons, sum_cons, hun, Bool.false_eq_true, if_false,
          not_false_eq_true, filter_cons_of_neg]
        omega
  unfold fromTx clearUnspendable
  rw [value_cleanup]
  exact hsplit tx.vout

end CCoins

namespace CCoinsViewCache

variable {view view' : CCoinsViewCache}

lemma totalValue_setCoins (view : CCoinsViewCache) (txid : Uint256) (coins : CCoins) :
    (view.setCoins txid coins).totalValue + view.valueOf txid = view.totalValue + coins.value := by
  simp only [totalValue, valueOf, setCoins]
  rw [← CCoins.value_cleanup]
  split_ifs with hpruned
  · rw [MapTotal.total_erase, CCoins.value_of_isPruned hpruned, Nat.add_zero]
  · exact MapTotal.total_insert

lemma SpendsInput.totalValue {txin : CTxIn} {s : SpentOutput} (h : SpendsInput view txin s view') :
    view'.totalValue + s.txout.value = view.totalValue := by
  have hset := totalValue_setCoins view txin.prevout.hash s.left
  have hvalue := CCoins.value_spend h.spend_eq h.output_eq
  have hat : view.valueOf txin.prevout.hash = s.coins.value := by
    have hlookup : view.cacheCoins.lookup txin.prevout.hash = some s.coins := h.coins_eq
    simp [valueOf, MapTotal.measureAt, hlookup]
  rw [← h.view_eq, hat] at hset
  omega

lemma spendInputs_totalValue {vin : List CTxIn} {spent : List SpentOutput}
    (h : view.spendInputs vin = some (spent, view')) :
    view'.totalValue + (spent.map fun s => s.txout.value).sum = view.totalValue := by
  replace h := spendInputs_run h
  induction h with
  | nil => rfl
  | cons hs _ ih =>
    have hfirst := hs.totalValue
    simp only [map_cons, sum_cons]
    omega

end CCoinsViewCache

end Jumpcoin
