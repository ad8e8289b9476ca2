import Jumpcoin.Coins.Restore
import Jumpcoin.Validation.Accepted

/-!
# Disconnecting a connected block

`DisconnectBlock` takes back what `ConnectBlock` did: with the undo information of the block it
finds everything as expected, and the view has the unspent outputs that it had before.

A transaction that is added must not replace an unspent one, whose outputs would be lost.
`ConnectBlock` makes sure of this for the view it starts from (the check named after BIP30). Within
a block it follows from the inputs: a second copy of a transaction would have to spend outputs that
the first copy has spent, and these come back only with a second copy of their own transaction.
-/

namespace Jumpcoin

open Check CValidationState

/-! ## No transaction is replaced -/

namespace CCoinsViewCache

variable {view view' : CCoinsViewCache} {spent : List SpentOutput} {tx : CTransaction}

lemma overwrites_iff {hashes : Hashes} :
    overwrites hashes view tx = false ↔ view.unspent (tx.getHash hashes) = none := by
  unfold overwrites unspent
  cases view.accessCoins (tx.getHash hashes) with
  | none => simp
  | some coins => cases hpruned : coins.isPruned <;> simp [Option.filter, hpruned]

lemma unspent_ne_none {prevout : COutPoint} {txout : CTxOut}
    (h : view.getOutputFor prevout = some txout) : view.unspent prevout.hash ≠ none := by
  rw [getOutputFor_eq, Option.bind_eq_some_iff] at h
  obtain ⟨coins, hacc, hout⟩ := h
  rw [unspent_eq_some.mpr ⟨hacc, CCoins.isPruned_of_output hout⟩]
  simp

/-- Spending removes the outpoints of the inputs and no others. -/
lemma spendInputs_getOutputFor {vin : List CTxIn}
    (h : view.spendInputs vin = some (spent, view')) (prevout : COutPoint) :
    view'.getOutputFor prevout =
      if prevout ∈ vin.map CTxIn.prevout then none else view.getOutputFor prevout := by
  replace h := spendInputs_run h
  induction h with
  | nil => simp
  | @cons view view₁ view' txin vin s spent hs _ ih =>
    rw [ih, hs.getOutputFor]
    by_cases hmem : prevout ∈ vin.map CTxIn.prevout
    · simp [hmem]
    · by_cases heq : prevout = txin.prevout <;> simp [hmem, heq]

/-- What the inputs of a transaction do to the view: they spend unspent outputs, and bring none
back. -/
lemma spendTx_spends (h : view.spendTx tx = some (spent, view')) :
    (∀ txid, view'.unspent txid ≠ none → view.unspent txid ≠ none) ∧
      (∀ prevout, view.getOutputFor prevout = none → view'.getOutputFor prevout = none) ∧
      (tx.isCoinBase = false → ∀ txin ∈ tx.vin, view'.getOutputFor txin.prevout = none ∧
        ∃ txout, view.getOutputFor txin.prevout = some txout) := by
  unfold spendTx at h
  split_ifs at h with hcb
  · obtain ⟨-, rfl⟩ : [] = spent ∧ view = view' := by simpa using h
    exact ⟨fun _ => id, fun _ => id, fun hcb' => absurd hcb (by simp [hcb'])⟩
  · refine ⟨fun txid => mt ((spendInputs_keeps h).2 txid), fun prevout hnone => ?_,
      fun _ txin htxin => ⟨?_, ?_⟩⟩
    · rw [spendInputs_getOutputFor h, hnone, ite_self]
    · rw [spendInputs_getOutputFor h, if_pos (List.mem_map_of_mem htxin)]
    · obtain ⟨s, -, hs⟩ := Loop.exists_left_of_mem (spendInputs_spent h).flip htxin
      exact ⟨s.txout, hs⟩

end CCoinsViewCache

open CCoinsViewCache

/-- What is unspent after the transactions `seen`: it was unspent at the start or it is of one of
them, and the outputs they spent are not among it. -/
structure Untouched (hashes : Hashes) (start view : CCoinsViewCache) (seen : List CTransaction) :
    Prop where
  origin : ∀ txid, view.unspent txid ≠ none →
    start.unspent txid ≠ none ∨ txid ∈ seen.map (CTransaction.getHash hashes)
  spent : ∀ tx ∈ seen, tx.isCoinBase = false → ∀ txin ∈ tx.vin,
    view.getOutputFor txin.prevout = none ∧ (start.unspent txin.prevout.hash ≠ none ∨
      txin.prevout.hash ∈ seen.map (CTransaction.getHash hashes))

/-- The outputs that a transaction spends; coinbases don't spend anything. -/
def CTransaction.outpointsSpent (tx : CTransaction) : List COutPoint :=
  if tx.isCoinBase then [] else tx.vin.map CTxIn.prevout

lemma Untouched.start (hashes : Hashes) (view : CCoinsViewCache) : Untouched hashes view view [] :=
  ⟨fun _ h => .inl h, by simp⟩

section Fresh

variable {hashes : Hashes} {start view view' : CCoinsViewCache} {seen : List CTransaction}
variable {tx : CTransaction} {nHeight : Nat} {txundo : CTxUndo}

section

variable (h : Untouched hashes start view seen)
  (hupdate : view.updateCoins hashes tx nHeight = some (txundo, view'))
include h hupdate

/-- A transaction that is new to the chain is new in its place in the block, too. -/
lemma Untouched.fresh (hseen : tx.isCoinBase = true → seen = []) (hvin : tx.vin ≠ [])
    (hinj : ∀ tx' ∈ seen, tx'.getHash hashes = tx.getHash hashes → tx' = tx)
    (hnew : start.unspent (tx.getHash hashes) = none) :
    tx.getHash hashes ∉ seen.map (CTransaction.getHash hashes) ∧
      view.unspent (tx.getHash hashes) = none := by
  have hnot : tx.getHash hashes ∉ seen.map (CTransaction.getHash hashes) := by
    intro hmem
    obtain ⟨tx', hmem', hhash⟩ := List.mem_map.mp hmem
    obtain rfl := hinj tx' hmem' hhash
    have hcb : tx'.isCoinBase = false := by
      by_contra hcb
      rw [hseen (by simpa using hcb)] at hmem'
      cases hmem'
    obtain ⟨spent, view₁, hspend, -, -⟩ := updateCoins_eq_some hupdate
    obtain ⟨txin, htxin⟩ := List.exists_mem_of_ne_nil _ hvin
    obtain ⟨-, txout, hsome⟩ := (spendTx_spends hspend).2.2 hcb txin htxin
    rw [(h.spent tx' hmem' hcb txin htxin).1] at hsome
    cases hsome
  refine ⟨hnot, ?_⟩
  by_contra hunspent
  rcases h.origin _ hunspent with hstart | hmem
  · exact hstart hnew
  · exact hnot hmem

lemma Untouched.update (hnew : start.unspent (tx.getHash hashes) = none)
    (hnot : tx.getHash hashes ∉ seen.map (CTransaction.getHash hashes)) :
    Untouched hashes start view' (tx :: seen) := by
  obtain ⟨spent, view₁, hspend, -, rfl⟩ := updateCoins_eq_some hupdate
  have hne : ∀ txid, (start.unspent txid ≠ none ∨
      txid ∈ seen.map (CTransaction.getHash hashes)) → txid ≠ tx.getHash hashes := by
    rintro _ hknown rfl
    rcases hknown with hstart | hmem
    · exact hstart hnew
    · exact hnot hmem
  have hout : ∀ prevout : COutPoint, (start.unspent prevout.hash ≠ none ∨
      prevout.hash ∈ seen.map (CTransaction.getHash hashes)) →
      view₁.getOutputFor prevout = none →
      (view₁.setCoins (tx.getHash hashes) (CCoins.fromTx tx (Int32.ofNat nHeight))).getOutputFor
        prevout = none ∧ (start.unspent prevout.hash ≠ none ∨
          prevout.hash ∈ (tx :: seen).map (CTransaction.getHash hashes)) := by
    intro prevout hknown hnone
    refine ⟨?_, hknown.imp_right fun hmem => by simp [List.mem_map.mp hmem]⟩
    rw [getOutputFor_setCoins, if_neg (hne _ hknown), hnone]
  obtain ⟨hunspent, hkeeps, hspends⟩ := spendTx_spends hspend
  constructor
  · intro txid htxid
    by_cases heq : txid = tx.getHash hashes
    · exact .inr (by simp [heq])
    · rw [unspent_setCoins_of_ne heq] at htxid
      exact (h.origin txid (hunspent txid htxid)).imp_right fun hmem => by
        simp [List.mem_map.mp hmem]
  · intro tx' hmem hcb txin htxin
    rcases List.mem_cons.mp hmem with rfl | hmem
    · obtain ⟨hnone, txout, hsome⟩ := hspends hcb txin htxin
      exact hout _ (h.origin _ (unspent_ne_none hsome)) hnone
    · obtain ⟨hnone, hknown⟩ := h.spent tx' hmem hcb txin htxin
      exact hout _ hknown (hkeeps _ hnone)

/-- Nothing that is spent already is spent again. -/
lemma Untouched.disjoint {tx' : CTransaction} (hmem : tx' ∈ seen) :
    tx'.outpointsSpent.Disjoint tx.outpointsSpent := by
  obtain ⟨spent, view₁, hspend, -⟩ := updateCoins_eq_some hupdate
  intro prevout hbefore hnow
  simp only [CTransaction.outpointsSpent, List.mem_ite_nil_left, List.mem_map,
    Bool.not_eq_true] at hbefore hnow
  obtain ⟨hcb', txin', htxin', rfl⟩ := hbefore
  obtain ⟨hcb, txin, htxin, heq⟩ := hnow
  obtain ⟨-, txout, hsome⟩ := (spendTx_spends hspend).2.2 hcb txin htxin
  rw [heq, (h.spent tx' hmem hcb' txin' htxin').1] at hsome
  cases hsome

end

end Fresh

/-! ## The loop and the block -/

/-- Only the records of a view matter, not its best block. -/
lemma sameCoins {view view' : CCoinsViewCache} (h : view'.cacheCoins = view.cacheCoins) :
    view.Restores view' ∧ (view.AboveGenesis → view'.AboveGenesis) := by
  have haccess : ∀ txid, view'.accessCoins txid = view.accessCoins txid := by
    intro txid
    rw [accessCoins, accessCoins, h]
  refine ⟨fun txid => ?_, fun hview txid coins hcoins => hview txid coins (haccess txid ▸ hcoins)⟩
  rw [unspent, unspent, haccess txid]
  exact Restores.refl view txid

lemma CheckedTransaction.isNull_eq_false {tx : CTransaction} (h : CheckedTransaction tx) :
    ∀ txout ∈ tx.vout, txout.isNull = false := by
  intro txout hmem
  have hvalue := h.value_nonneg txout hmem
  unfold CTxOut.isNull
  rw [beq_eq_false_iff_ne]
  intro heq
  rw [heq] at hvalue
  exact absurd hvalue (by decide)

/-- A loop that added each transaction as a new one is taken back from its undo information. -/
lemma ConnectRun.disconnectTxs {ctx : ConnectContext} {i : Nat} {block : CBlock}
    {vtx seen : List CTransaction} {s s' : ConnectLoop} {start restored : CCoinsViewCache}
    (hrun : ConnectRun ctx i vtx s s') (hi : i ≠ 0) (hwf : WellFormed block)
    (hmem : ∀ tx ∈ vtx, tx ∈ block.vtx ∧ tx.isCoinBase = false)
    (hseen : ∀ tx ∈ seen, tx ∈ block.vtx)
    (hinj : ∀ tx ∈ block.vtx, ∀ tx' ∈ block.vtx,
      tx.getHash ctx.config.hashes = tx'.getHash ctx.config.hashes → tx = tx')
    (hnew : ∀ tx ∈ block.vtx, start.unspent (tx.getHash ctx.config.hashes) = none)
    (huntouched : Untouched ctx.config.hashes start s.view seen) (hview : s.view.AboveGenesis)
    (hheight : Int32.ofNat ctx.pindex.nHeight ≠ 0) (hrestored : s'.view.Restores restored) :
    s'.view.AboveGenesis ∧ ∃ vtxundo restored', s'.vtxundo = s.vtxundo ++ vtxundo ∧
      vtxundo.length = vtx.length ∧
      Jumpcoin.disconnectTxs ctx.config.hashes ctx.pindex.nHeight restored (vtx.zip vtxundo) =
        some ⟨restored', true⟩ ∧ s.view.Restores restored' := by
  induction hrun generalizing seen with
  | nil => exact ⟨hview, [], restored, by simp, rfl, rfl, hrestored⟩
  | @cons i tx vtx s s₁ s' htx _ ih =>
    obtain ⟨txundo, hupdate, hundo⟩ := htx.update
    obtain ⟨htx, hcb⟩ := hmem tx (by simp)
    have hchecked := hwf.txs tx htx
    obtain ⟨hnot, hfresh⟩ := huntouched.fresh hupdate (by simp [hcb]) hchecked.vin_ne
      (fun tx' hmem' => hinj tx' (hseen tx' hmem') tx htx) (hnew tx htx)
    obtain ⟨hend, vtxundo, later, happend, hlength, hlater, hrestores⟩ :=
      ih i.succ_ne_zero (fun tx' hmem' => hmem tx' (by simp [hmem']))
        (by simpa [htx] using hseen) (huntouched.update hupdate (hnew tx htx) hnot)
        (updateCoins_aboveGenesis hupdate hview hheight) hrestored
    obtain ⟨restored', htake, hrestores'⟩ : ∃ restored', disconnectTx ctx.config.hashes
        ctx.pindex.nHeight tx txundo ⟨later, true⟩ = some ⟨restored', true⟩ ∧
          s.view.Restores restored' :=
      updateCoins_disconnectTx hupdate hcb hview hchecked.isNull_eq_false hfresh hrestores
    refine ⟨hend, txundo :: vtxundo, restored', ?_, by simp [hlength], ?_, hrestores'⟩
    · rw [happend, hundo, if_neg hi, List.append_assoc, List.singleton_append]
    · simp [Jumpcoin.disconnectTxs, hlater, htake]

/-- On a network without a block from which on they are impossible, duplicates are always looked
for; all networks of `chainparams.cpp` are of this kind. -/
lemma enforceBIP30_of_neg {params : Params} (h : params.BIP34Height < 0)
    (pprev : List CBlockIndex) : enforceBIP30 params pprev = true := by
  have hnone : getAncestor pprev params.BIP34Height = none := by
    cases pprev with
    | nil => rfl
    | cons pindex rest => simp [getAncestor, h]
  rw [enforceBIP30, hnone]

lemma int32_ofNat_ne_zero {n : Nat} (h : 0 < n) (hlt : n < 2 ^ 31) : Int32.ofNat n ≠ 0 := by
  intro heq
  have hint := congrArg Int32.toInt heq
  rw [Int32.toInt_ofNat_of_lt hlt] at hint
  simp at hint
  omega

section Block

variable {config : Config} {chain : ChainState} {disk : Disk} {block : CBlock}
variable {pindex : CBlockIndex} {pprev : List CBlockIndex} {view : CCoinsViewCache}
variable {fJustCheck : Bool} {r : Connected} {state state' : CValidationState}

lemma ConnectedBlock.disconnectTransactions
    (h : ConnectedBlock config chain block pindex pprev view r)
    (hnetwork : config.params.BIP34Height < 0)
    (hinj : ∀ tx ∈ block.vtx, ∀ tx' ∈ block.vtx,
      tx.getHash config.hashes = tx'.getHash config.hashes → tx = tx')
    (hview : view.AboveGenesis) (hheight : Int32.ofNat pindex.nHeight ≠ 0) :
    r.view.AboveGenesis ∧ ∃ view', Jumpcoin.disconnectTransactions config.hashes pindex.nHeight
      block r.blockundo r.view = some view' ∧ view.Restores view' := by
  obtain ⟨ctx, rfl, rfl, rfl, s, hrun, hcoins, hundo, -⟩ := h.run
  obtain ⟨coinBase, rest, hvtx, hcb, hrest⟩ := h.wellFormed.coinBase
  have hnew : ∀ tx ∈ block.vtx, view.unspent (tx.getHash ctx.config.hashes) = none :=
    fun tx hmem => overwrites_iff.mp (h.bip30 (enforceBIP30_of_neg hnetwork pprev) tx hmem)
  obtain ⟨hsame, hkept⟩ := sameCoins hcoins
  rw [hvtx] at hrun
  cases hrun with
  | @cons _ _ _ _ s₁ _ htx hrun =>
    obtain ⟨txundo, hupdate, hvtxundo⟩ := htx.update
    have hmem : coinBase ∈ block.vtx := by simp [hvtx]
    have hstart := Untouched.start ctx.config.hashes view
    obtain ⟨hend, vtxundo, restored, happend, hlength, hlater, hrestores⟩ :=
      hrun.disconnectTxs one_ne_zero h.wellFormed
        (fun tx htx => ⟨by simp [hvtx, htx], hrest tx htx⟩)
        (by simpa using hmem) hinj hnew
        (hstart.update hupdate (hnew coinBase hmem) (by simp))
        (updateCoins_aboveGenesis hupdate hview hheight) hheight hsame
    obtain ⟨spent, view₁, hspend, -, hset⟩ := updateCoins_eq_some hupdate
    obtain ⟨-, rfl⟩ : [] = spent ∧ view = view₁ := by simpa [spendTx, hcb] using hspend
    rw [hset] at hrestores
    obtain ⟨view', hremove, hview'⟩ := removeOutputs_restores
      (h.wellFormed.txs coinBase hmem).isNull_eq_false (hnew coinBase hmem) hrestores
    refine ⟨hkept hend, view', ?_, hview'⟩
    have hall : s.vtxundo = vtxundo := by simp [happend, hvtxundo]
    simp [Jumpcoin.disconnectTransactions, hvtx, hundo, hall, hlength, hlater, hremove]

/-- `DisconnectBlock` undoes `ConnectBlock`. With the undo information that connecting a block
produced, the block is found as expected in the new view and taken back, and this leaves the unspent
outputs, with the heights, versions, times and flags of their transactions, that the view had
before.

No record of a view is of height zero, since the genesis block adds none; connecting a block keeps
this. Different transactions of the block are assumed to have different hashes. -/
theorem disconnectBlock_undoes_connectBlock (hflag : FlagSound config.crypto config.params block)
    (hnetwork : config.params.BIP34Height < 0)
    (hinj : ∀ tx ∈ block.vtx, ∀ tx' ∈ block.vtx,
      tx.getHash config.hashes = tx'.getHash config.hashes → tx = tx')
    (hview : view.AboveGenesis) (hheight : 0 < pindex.nHeight ∧ pindex.nHeight < 2 ^ 31)
    (h : connectBlock config chain disk block pindex pprev view fJustCheck state =
      (.returned r, state')) :
    r.view.AboveGenesis ∧
      (block.getHash config.hashes ≠ config.params.hashGenesisBlock →
        ∃ view', disconnectTransactions config.hashes pindex.nHeight block r.blockundo r.view =
            some view' ∧ view.Restores view' ∧
          ∀ undoFile hashPrev state, CBlockUndo.undoReadFromDisk config.hashes config.keys
              undoFile hashPrev = some r.blockundo →
            disconnectBlock config.hashes config.keys block r.view.hashBlock hashPrev
              pindex.nHeight (some undoFile) r.view state =
                (.returned (view'.setBestBlock hashPrev), state)) := by
  obtain ⟨-, ⟨hgenesis, hcoins, -⟩ | ⟨-, hconnected⟩⟩ := connectBlock_returned hflag h
  · exact ⟨(sameCoins hcoins).2 hview, absurd hgenesis⟩
  · obtain ⟨hkept, view', htake, hrestores⟩ := hconnected.disconnectTransactions hnetwork hinj hview
      (int32_ofNat_ne_zero hheight.1 hheight.2)
    refine ⟨hkept, fun _ => ⟨view', htake, hrestores, fun undoFile hashPrev state hread => ?_⟩⟩
    simp only [disconnectBlock, beq_self_eq_true, demand_true, Option.bind_some, hread, htake]
    rfl

/-- The loop spends no output twice. -/
lemma ConnectRun.disjoint {ctx : ConnectContext} {i : Nat} {vtx seen : List CTransaction}
    {s s' : ConnectLoop} (hrun : ConnectRun ctx i vtx s s')
    (htxs : ∀ tx ∈ vtx, tx.vin ≠ [] ∧ view.unspent (tx.getHash ctx.config.hashes) = none ∧
      (tx.isCoinBase = true → seen = [])) (hcb : ∀ tx ∈ vtx.tail, tx.isCoinBase = false)
    (hinj : ∀ tx ∈ seen ++ vtx, ∀ tx' ∈ vtx,
      tx.getHash ctx.config.hashes = tx'.getHash ctx.config.hashes → tx = tx')
    (h : Untouched ctx.config.hashes view s.view seen) :
    (∀ tx ∈ seen, ∀ tx' ∈ vtx, tx.outpointsSpent.Disjoint tx'.outpointsSpent) ∧
      vtx.Pairwise (Function.onFun List.Disjoint CTransaction.outpointsSpent) := by
  induction hrun generalizing seen with
  | nil => simp
  | @cons i tx vtx s s₁ s' htx _ ih =>
    obtain ⟨txundo, hupdate, -⟩ := htx.update
    obtain ⟨hvin, hnew, hseen⟩ := htxs tx (by simp)
    obtain ⟨hnot, -⟩ := h.fresh hupdate hseen hvin
      (fun tx' hmem => hinj tx' (by simp [hmem]) tx (by simp)) hnew
    obtain ⟨hlater, hpairs⟩ := ih (by grind)
      (fun tx' hmem => hcb tx' (List.mem_of_mem_tail hmem)) (by grind) (h.update hupdate hnew hnot)
    refine ⟨fun tx' hmem => ?_, .cons (hlater tx (by simp)) hpairs⟩
    rw [List.forall_mem_cons]
    exact ⟨h.disjoint hupdate hmem, hlater tx' (by simp [hmem])⟩

/-- The transactions of a connected block spend no output twice. -/
theorem connectBlock_no_double_spend (hflag : FlagSound config.crypto config.params block)
    (hnetwork : config.params.BIP34Height < 0)
    (hinj : ∀ tx ∈ block.vtx, ∀ tx' ∈ block.vtx,
      tx.getHash config.hashes = tx'.getHash config.hashes → tx = tx')
    (hgenesis : block.getHash config.hashes ≠ config.params.hashGenesisBlock)
    (h : connectBlock config chain disk block pindex pprev view fJustCheck state =
      (.returned r, state')) : (block.vtx.flatMap CTransaction.outpointsSpent).Nodup := by
  obtain ⟨hwf, ⟨heq, -⟩ | ⟨-, hconnected⟩⟩ := connectBlock_returned hflag h
  · exact absurd heq hgenesis
  obtain ⟨ctx, rfl, -, -, s, hrun, -⟩ := hconnected.run
  obtain ⟨coinBase, rest, hvtx, -, hrest⟩ := hwf.coinBase
  refine List.nodup_flatMap.mpr ⟨fun tx hmem => ?_, (hrun.disjoint (fun tx hmem =>
    ⟨(hwf.txs tx hmem).vin_ne, ?_, fun _ => rfl⟩) (by simpa [hvtx] using hrest) hinj
    (.start _ view)).2⟩
  · unfold CTransaction.outpointsSpent
    split_ifs
    exacts [List.nodup_nil, (hwf.txs tx hmem).nodup]
  · exact overwrites_iff.mp (hconnected.bip30 (enforceBIP30_of_neg hnetwork pprev) tx hmem)

end Block

/-- A block that spends the last output of a transaction of block 1 is taken back. -/
theorem toySpend_undone :
    ∃ r state, connectBlock toyConfig toyChain .ok (toyBlock [toyCoinBase, toySpend])
        toyNextIndex toyPath (toyView 1) false .init = (.returned r, state) ∧
      ∃ view', disconnectTransactions toyConfig.hashes toyNextIndex.nHeight
          (toyBlock [toyCoinBase, toySpend]) r.blockundo r.view = some view' ∧
        (toyView 1).Restores view' := by
  obtain ⟨hflag, r, state, h⟩ := toySpend_connected
  have hview : (toyView 1).AboveGenesis := by
    intro txid coins hcoins
    obtain rfl := (Finmap.mem_singleton _ _ _).mp (Finmap.mem_of_lookup_eq_some hcoins)
    obtain rfl := Option.some.inj (Finmap.lookup_singleton_eq.symm.trans hcoins)
    decide
  have hinj : ∀ tx ∈ (toyBlock [toyCoinBase, toySpend]).vtx,
      ∀ tx' ∈ (toyBlock [toyCoinBase, toySpend]).vtx,
        tx.getHash toyConfig.hashes = tx'.getHash toyConfig.hashes → tx = tx' := by
    decide +kernel
  have hnetwork : toyConfig.params.BIP34Height < 0 := by decide
  have hheight : 0 < toyNextIndex.nHeight ∧ toyNextIndex.nHeight < 2 ^ 31 := by decide
  obtain ⟨-, hundone⟩ := disconnectBlock_undoes_connectBlock hflag hnetwork hinj hview hheight h
  obtain ⟨view', htake, hrestores, -⟩ := hundone (by decide +kernel)
  exact ⟨r, state, h, view', htake, hrestores⟩

def toySpendNext : CTransaction :=
  { toySpend with vin := [⟨⟨toySpend.getHash toyCrypto.toHashes, 0⟩, [], 0xffffffff⟩] }

/-- The second transaction spends an output of the view, the third one the output of the second. -/
theorem toySpend_spends_once :
    ((toyBlock [toyCoinBase, toySpend, toySpendNext]).vtx.flatMap
        CTransaction.outpointsSpent).length = 2 ∧
      ((toyBlock [toyCoinBase, toySpend, toySpendNext]).vtx.flatMap
        CTransaction.outpointsSpent).Nodup := by
  obtain ⟨r, state, h⟩ := exists_returned (x := connectBlock toyConfig toyChain .ok
    (toyBlock [toyCoinBase, toySpend, toySpendNext]) toyNextIndex toyPath (toyView 1) false)
    (s := .init) (by decide +kernel)
  exact ⟨by decide +kernel, connectBlock_no_double_spend (flagSound_of_unmarked rfl) (by decide)
    (by decide +kernel) (by decide +kernel) h⟩

end Jumpcoin
