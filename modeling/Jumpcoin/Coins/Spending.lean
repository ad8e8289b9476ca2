import Jumpcoin.Coins.Undo
import Jumpcoin.Foundation.Sequences

/-!
# Spending as removal of outpoints

What the operations on coin records do to the set of unspent outputs, seen as a map from outpoints
to outputs: spending an input removes its outpoint and nothing else, and adding a transaction
replaces the outputs under its hash.
-/

namespace Jumpcoin

open Option

namespace CCoins

def output (coins : CCoins) (nPos : Nat) : Option CTxOut :=
  coins.vout[nPos]?.filter fun txout => !txout.isNull

variable {coins left : CCoins} {nPos : Nat}

lemma output_eq_some {txout : CTxOut} :
    coins.output nPos = some txout ↔ coins.vout[nPos]? = some txout ∧ txout.isNull = false := by
  simp [output]

lemma isAvailable_iff :
    coins.isAvailable nPos = true ↔ ∃ txout, coins.output nPos = some txout := by
  unfold isAvailable output
  cases coins.vout[nPos]? <;> simp

/-- Dropping null outputs at the end drops no unspent one. -/
lemma filter_getElem?_rdropWhile (vout : List CTxOut) (n : Nat) :
    (vout.rdropWhile CTxOut.isNull)[n]?.filter (fun txout => !txout.isNull) =
      vout[n]?.filter fun txout => !txout.isNull := by
  induction vout using List.reverseRecOn with
  | nil => simp
  | append_singleton vout txout ih =>
    by_cases hnull : txout.isNull = true
    · rw [List.rdropWhile_concat_pos _ _ _ hnull, ih, List.getElem?_append]
      split_ifs with hlt
      · rfl
      · rw [List.getElem?_eq_none (by omega)]
        rcases n - vout.length with _ | m <;> simp [Option.filter, hnull]
    · rw [List.rdropWhile_concat_neg _ _ _ hnull]

@[simp] lemma output_cleanup (coins : CCoins) (n : Nat) : coins.cleanup.output n = coins.output n :=
  filter_getElem?_rdropWhile coins.vout n

lemma output_spend (h : coins.spend nPos = some left) (n : Nat) :
    left.output n = if n = nPos then none else coins.output n := by
  unfold spend at h
  split_ifs at h with havail
  obtain rfl := some.inj h
  rw [output_cleanup]
  unfold output
  rw [List.getElem?_set]
  by_cases heq : nPos = n
  · subst heq
    by_cases hlt : nPos < coins.vout.length <;> simp [hlt]
  · rw [if_neg heq, if_neg (Ne.symm heq)]

lemma output_of_isPruned (h : coins.isPruned = true) (n : Nat) : coins.output n = none := by
  unfold output
  cases hn : coins.vout[n]? with
  | none => rfl
  | some txout =>
    have hnull := List.all_eq_true.mp h txout (List.mem_of_getElem? hn)
    simp [hnull]

end CCoins

namespace CCoinsViewCache

variable {view view' : CCoinsViewCache} {txid : Uint256} {coins : CCoins}

lemma getOutputFor_eq (view : CCoinsViewCache) (prevout : COutPoint) :
    view.getOutputFor prevout =
      (view.accessCoins prevout.hash).bind fun coins => coins.output prevout.n.toNat := by
  unfold getOutputFor CCoins.output
  cases view.accessCoins prevout.hash with
  | none => rfl
  | some coins =>
    cases h : coins.vout[prevout.n.toNat]? with
    | none => simp [h]
    | some txout => cases hnull : txout.isNull <;> simp [Option.filter, h, hnull]

lemma getOutputFor_setCoins (prevout : COutPoint) :
    (view.setCoins txid coins).getOutputFor prevout =
      if prevout.hash = txid then coins.output prevout.n.toNat else view.getOutputFor prevout := by
  rw [getOutputFor_eq]
  split_ifs with h
  · subst h
    rw [accessCoins_setCoins_self]
    split_ifs with hpruned
    · rw [← CCoins.output_cleanup, CCoins.output_of_isPruned hpruned]
      rfl
    · exact CCoins.output_cleanup coins _
  · rw [accessCoins_setCoins_of_ne h, getOutputFor_eq]

structure SpendsInput (view : CCoinsViewCache) (txin : CTxIn) (s : SpentOutput)
    (view' : CCoinsViewCache) : Prop where
  coins_eq : view.accessCoins txin.prevout.hash = some s.coins
  output_eq : s.coins.output s.nPos = some s.txout
  nPos_eq : s.nPos = txin.prevout.n.toNat
  spend_eq : s.coins.spend s.nPos = some s.left
  view_eq : view' = view.setCoins txin.prevout.hash s.left

variable {s : SpentOutput} {txin : CTxIn}

lemma spendInput_eq_some (h : view.spendInput txin = some (s, view')) :
    SpendsInput view txin s view' := by
  simp only [spendInput, bind_eq_bind, bind_eq_some_iff, some.injEq,
    Prod.mk.injEq] at h
  obtain ⟨txout, htxout, left, hleft, rfl, rfl⟩ := h
  have havail : (view.modifyCoins txin.prevout.hash).isAvailable txin.prevout.n.toNat = true := by
    unfold CCoins.spend at hleft
    split_ifs at hleft with havail
    exact havail
  have hcoins : view.accessCoins txin.prevout.hash = some (view.modifyCoins txin.prevout.hash) := by
    unfold modifyCoins at htxout ⊢
    cases hacc : view.accessCoins txin.prevout.hash with
    | none => simp [hacc, CCoins.empty] at htxout
    | some coins => rfl
  refine ⟨hcoins, ?_, rfl, hleft, rfl⟩
  rw [CCoins.output_eq_some]
  refine ⟨htxout, ?_⟩
  simpa [CCoins.isAvailable, htxout] using havail

/-- Spending removes exactly the outpoint it names. -/
lemma SpendsInput.getOutputFor (h : SpendsInput view txin s view') (prevout : COutPoint) :
    view'.getOutputFor prevout =
      if prevout = txin.prevout then none else view.getOutputFor prevout := by
  rw [h.view_eq, getOutputFor_setCoins, CCoins.output_spend h.spend_eq, h.nPos_eq]
  by_cases hhash : prevout.hash = txin.prevout.hash
  · rw [if_pos hhash, getOutputFor_eq view, hhash, h.coins_eq]
    have hn : prevout.n.toNat = txin.prevout.n.toNat ↔ prevout = txin.prevout := by
      rw [UInt32.toNat_inj]
      constructor
      · intro hn
        cases prevout
        cases hp : txin.prevout
        simp_all
      · rintro rfl
        rfl
    by_cases heq : prevout = txin.prevout
    · rw [if_pos (hn.mpr heq), if_pos heq]
    · rw [if_neg (mt hn.mp heq), if_neg heq]
      rfl
  · rw [if_neg hhash, if_neg (fun heq => hhash (congrArg COutPoint.hash heq))]

lemma SpendsInput.spent (h : SpendsInput view txin s view') :
    view.getOutputFor txin.prevout = some s.txout := by
  rw [getOutputFor_eq, h.coins_eq, ← h.nPos_eq]
  exact h.output_eq

/-- Inputs are spent one after the other. -/
inductive SpendRun : CCoinsViewCache → List CTxIn → List SpentOutput → CCoinsViewCache → Prop
  | nil (view : CCoinsViewCache) : SpendRun view [] [] view
  | cons {view view₁ view' : CCoinsViewCache} {txin : CTxIn} {vin : List CTxIn} {s : SpentOutput}
      {spent : List SpentOutput} (hs : SpendsInput view txin s view₁)
      (hrest : SpendRun view₁ vin spent view') : SpendRun view (txin :: vin) (s :: spent) view'

variable {spent : List SpentOutput} {vin : List CTxIn}

lemma spendInputs_run (h : view.spendInputs vin = some (spent, view')) :
    SpendRun view vin spent view' := by
  induction vin generalizing view spent with
  | nil =>
    obtain ⟨rfl, rfl⟩ : [] = spent ∧ view = view' := by simpa [spendInputs] using h
    exact .nil view
  | cons txin vin ih =>
    simp only [spendInputs, bind_eq_bind, bind_eq_some_iff, some.injEq,
      Prod.mk.injEq, Prod.exists] at h
    obtain ⟨s, view₁, hone, rest, view₂, hrest, rfl, rfl⟩ := h
    exact .cons (spendInput_eq_some hone) (ih hrest)

variable {tx : CTransaction}

lemma spendTx_run (h : view.spendTx tx = some (spent, view')) :
    SpendRun view (if tx.isCoinBase then [] else tx.vin) spent view' := by
  unfold spendTx at h
  split_ifs at h ⊢
  · obtain ⟨rfl, rfl⟩ : [] = spent ∧ view = view' := by simpa using h
    exact .nil view
  · exact spendInputs_run h

/-- The outputs that a list of inputs spends are unspent in the view they start from. -/
lemma spendInputs_spent (h : view.spendInputs vin = some (spent, view')) :
    List.Forall₂ (fun txin s => view.getOutputFor txin.prevout = some s.txout) vin spent := by
  replace h := spendInputs_run h
  induction h with
  | nil => exact .nil
  | cons hs _ ih =>
    refine .cons hs.spent (ih.imp fun txin' s' hout => ?_)
    rw [hs.getOutputFor] at hout
    split_ifs at hout
    exact hout

/-- Each spend takes one output out of the record it finds. -/
lemma spendInputs_spend (h : view.spendInputs vin = some (spent, view')) :
    ∀ s ∈ spent, s.coins.spend s.nPos = some s.left := by
  replace h := spendInputs_run h
  induction h with
  | nil => simp
  | cons hs _ ih =>
    intro s' hmem
    rcases List.mem_cons.mp hmem with rfl | hmem
    · exact hs.spend_eq
    · exact ih s' hmem

variable {txundo : CTxUndo} {hashes : Hashes} {nHeight : Nat}

lemma updateCoins_eq_some (h : view.updateCoins hashes tx nHeight = some (txundo, view')) :
    ∃ spent view₁, view.spendTx tx = some (spent, view₁) ∧
      txundo = ⟨spent.map SpentOutput.undo⟩ ∧
      view' = view₁.setCoins (tx.getHash hashes) (CCoins.fromTx tx (Int32.ofNat nHeight)) := by
  simp only [updateCoins, bind_eq_bind, bind_eq_some_iff,
    some.injEq, Prod.mk.injEq, Prod.exists] at h
  obtain ⟨spent, view₁, hspend, rfl, rfl⟩ := h
  exact ⟨spent, view₁, hspend, rfl, rfl⟩

lemma SpendRun.hashBlock (h : SpendRun view vin spent view') :
    view'.hashBlock = view.hashBlock := by
  induction h with
  | nil => rfl
  | cons hs _ ih =>
    rw [ih, hs.view_eq]
    rfl

lemma updateCoins_hashBlock (h : view.updateCoins hashes tx nHeight = some (txundo, view')) :
    view'.hashBlock = view.hashBlock := by
  obtain ⟨spent, view₁, hspend, -, rfl⟩ := updateCoins_eq_some h
  exact (spendTx_run hspend).hashBlock

end CCoinsViewCache

end Jumpcoin
