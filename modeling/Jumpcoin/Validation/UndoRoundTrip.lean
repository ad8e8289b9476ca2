import Jumpcoin.Validation.Accepted

/-!
# Undo information of connected blocks

The undo information of a connected block is read back from its file exactly if the format keeps
each spent output: every output a transaction of the block spends survives compression, and where
the spend empties a record, the height, version and time of that record survive too.

The condition speaks about the spends of the block (`blockSpends`): which record each input finds
in the view as the transactions before it have left it.
-/

namespace Jumpcoin

open Codec Check CValidationState

/-! ## Spends of a block -/

def blockSpends (hashes : Hashes) (nHeight : Nat) :
    CCoinsViewCache → List CTransaction → List SpentOutput
  | _, [] => []
  | view, tx :: vtx =>
    match view.spendTx tx, view.updateCoins hashes tx nHeight with
    | some (spent, _), some (_, view') => spent ++ blockSpends hashes nHeight view' vtx
    | _, _ => []

/-- The data of a record survives the undo format: the height fits with two flags into 32 bits, the
version is not negative, and the time is zero where the format leaves it out. -/
def CCoins.MetaKept (coins : CCoins) : Prop :=
  (coins.nHeight = 0 ∧ coins.nVersion = 0) ∨
    (0 < coins.nHeight.toInt ∧ coins.nHeight.toInt < 2 ^ 30 ∧ 0 ≤ coins.nVersion.toInt ∧
      (¬coins.nVersion < 2 → coins.nTime = 0))

def SpentOutput.Kept (s : SpentOutput) : Prop :=
  Restorable s.txout ∧ (s.left.vout = [] → s.coins.MetaKept)

instance (coins : CCoins) : Decidable coins.MetaKept :=
  inferInstanceAs (Decidable (_ ∨ _))

instance (s : SpentOutput) : Decidable s.Kept :=
  inferInstanceAs (Decidable (_ ∧ _))

lemma toUInt32_height (n : Int32) :
    (n.toUInt32 = 0 ↔ n = 0) ∧
      (0 < n.toUInt32 ∧ n.toUInt32.toNat < 2 ^ 30 ↔ 0 < n.toInt ∧ n.toInt < 2 ^ 30) := by
  have hint : n.toInt = if 2 * n.toUInt32.toNat < 2 ^ 32 then (n.toUInt32.toNat : Int)
      else (n.toUInt32.toNat : Int) - 2 ^ 32 := BitVec.toInt_eq_toNat_cond n.toBitVec
  have hlt := n.toUInt32.toNat_lt
  refine ⟨⟨fun h => ?_, ?_⟩, ?_⟩
  · rw [← Int32.toInt_inj, hint, h]
    rfl
  · rintro rfl
    rfl
  · rw [UInt32.lt_iff_toNat_lt, hint]
    have h0 : (0 : UInt32).toNat = 0 := rfl
    rw [h0]
    split_ifs <;> omega

lemma SpentOutput.undo_kept_iff {s : SpentOutput} (hspend : s.coins.spend s.nPos = some s.left)
    (hvalue : 0 ≤ s.txout.nValue.toInt) :
    (s.undo.MetaKept ∧ restoreTxOut s.undo.txout = s.undo.txout) ↔ s.Kept := by
  have htxout : s.undo.txout = s.txout := by
    unfold undo
    split_ifs <;> rfl
  have hmeta : s.undo.MetaKept ↔ (s.left.vout = [] → s.coins.MetaKept) := by
    unfold undo
    by_cases hnil : s.left.vout = []
    · obtain ⟨h0, hrange⟩ := toUInt32_height s.coins.nHeight
      unfold CCoins.spend at hspend
      split_ifs at hspend
      rw [if_pos (by simpa using hnil), ← Option.some.inj hspend]
      simp only [CTxInUndo.MetaKept, CCoins.MetaKept, CCoins.cleanup, h0]
      rw [← and_assoc, hrange, and_assoc]
      exact ⟨fun h _ => h, fun h => h (by rw [← hnil, ← Option.some.inj hspend]; rfl)⟩
    · rw [if_neg (by simpa using hnil)]
      exact iff_of_true (.inl ⟨rfl, rfl⟩) fun h => absurd h hnil
  rw [hmeta, htxout, restoreTxOut_eq_self hvalue, Kept, and_comm]

/-! ## The undo information of a run -/

section Run

variable {ctx : ConnectContext} {i : Nat} {tx : CTransaction} {s s' : ConnectLoop}
  {vtx : List CTransaction}

lemma blockSpends_cons {hashes : Hashes} {nHeight : Nat} {view view₁ view' : CCoinsViewCache}
    {spent : List SpentOutput} {txundo : CTxUndo}
    (hspend : view.spendTx tx = some (spent, view₁))
    (hupdate : view.updateCoins hashes tx nHeight = some (txundo, view')) :
    blockSpends hashes nHeight view (tx :: vtx) =
      spent ++ blockSpends hashes nHeight view' vtx := by
  rw [blockSpends, hspend, hupdate]

/-- After the coinbase, each transaction adds its spends to the undo information. -/
lemma ConnectRun.vtxundo (h : ConnectRun ctx i vtx s s') (hi : i ≠ 0) :
    ∃ us, s'.vtxundo = s.vtxundo ++ us ∧
      List.Forall₂ (fun tx u => u.vprevout.length ≤ tx.vin.length) vtx us ∧
      us.flatMap CTxUndo.vprevout =
        (blockSpends ctx.config.hashes ctx.pindex.nHeight s.view vtx).map SpentOutput.undo ∧
      ∀ x ∈ blockSpends ctx.config.hashes ctx.pindex.nHeight s.view vtx,
        x.coins.spend x.nPos = some x.left ∧ 0 ≤ x.txout.nValue.toInt := by
  induction h with
  | nil => exact ⟨[], by simp, .nil, rfl, by simp [blockSpends]⟩
  | @cons i tx vtx s s₁ s' htx _ ih =>
    obtain ⟨us, hus, hlen, hflat, hall⟩ := ih (Nat.succ_ne_zero i)
    obtain ⟨txundo, hupdate, hundo⟩ := htx.update
    obtain ⟨spent, view₁, hspend, rfl, -⟩ := CCoinsViewCache.updateCoins_eq_some hupdate
    obtain ⟨hcount, hspent⟩ := htx.spends hspend
    rw [if_neg hi] at hundo
    rw [blockSpends_cons hspend hupdate]
    refine ⟨⟨spent.map SpentOutput.undo⟩ :: us, by simp [hus, hundo], ?_, ?_, ?_⟩
    · exact .cons (by simpa using hcount) hlen
    · simp [hflat]
    · intro x hx
      rcases List.mem_append.mp hx with hx | hx
      · exact hspent x hx
      · exact hall x hx

end Run

/-! ## The undo information of a block -/

variable {config : Config} {chain : ChainState} {block : CBlock} {pindex : CBlockIndex}
variable {pprev : List CBlockIndex} {view : CCoinsViewCache} {r : Connected}

/-- The undo information of a connected block fits the format, and the format keeps it exactly if it
keeps each spend. -/
lemma ConnectedBlock.undo_kept_iff (h : ConnectedBlock config chain block pindex pprev view r) :
    r.blockundo.Fits ∧ (r.blockundo.Kept ↔
      ∀ x ∈ blockSpends config.hashes pindex.nHeight view block.vtx, x.Kept) := by
  obtain ⟨ctx, rfl, rfl, rfl, s, hrun, -, hundo, -⟩ := h.run
  obtain ⟨coinBase, rest, hvtx, hcb, -⟩ := h.wellFormed.coinBase
  have htxs := h.wellFormed.txs
  have hlength := h.wellFormed.length_le
  rw [hvtx] at hrun htxs hlength ⊢
  cases hrun with
  | @cons _ _ _ _ s₁ _ htx hrest =>
    -- the coinbase spends nothing and is left out of the undo information
    obtain ⟨txundo, hupdate, hfirst⟩ := htx.update
    have hspend : view.spendTx coinBase = some ([], view) := by
      simp [CCoinsViewCache.spendTx, hcb]
    obtain ⟨us, hus, hlen, hflat, hall⟩ := hrest.vtxundo (Nat.succ_ne_zero 0)
    have hblock : r.blockundo = ⟨us⟩ := by rw [hundo, hus, hfirst]; rfl
    rw [blockSpends_cons hspend hupdate, List.nil_append, hblock]
    refine ⟨⟨?_, ?_⟩, ?_⟩
    · have hle : us.length ≤ MAX_BLOCK_SIZE := by
        rw [← hlen.length_eq]
        exact le_trans (Nat.le_succ _) hlength
      exact hle.trans (by decide)
    · intro u hu
      obtain ⟨tx, htx', hle⟩ := Loop.exists_left_of_mem hlen hu
      have hsize := (htxs tx (List.mem_cons_of_mem _ htx')).size_le
      exact hle.trans (tx.vin_length_le.trans (hsize.trans (by decide)))
    · have hkept : (CBlockUndo.mk us).Kept ↔ ∀ undo ∈ us.flatMap CTxUndo.vprevout,
          undo.MetaKept ∧ restoreTxOut undo.txout = undo.txout := by
        simp only [CBlockUndo.Kept, List.mem_flatMap]
        grind
      rw [hkept, hflat, List.forall_mem_map]
      exact forall₂_congr fun x hx => SpentOutput.undo_kept_iff (hall x hx).1 (hall x hx).2

section

variable {disk : Disk} {fJustCheck : Bool} {state state' : CValidationState}

lemma blockundo_kept_iff (hflag : FlagSound config.crypto config.params block)
    (h : connectBlock config chain disk block pindex pprev view fJustCheck state =
      (.returned r, state')) :
    r.blockundo.Fits ∧ (r.blockundo.Kept ↔
      block.getHash config.hashes = config.params.hashGenesisBlock ∨
        ∀ x ∈ blockSpends config.hashes pindex.nHeight view block.vtx, x.Kept) := by
  obtain ⟨-, ⟨hgen, -, hundo⟩ | ⟨hgen, hblock⟩⟩ := connectBlock_returned hflag h
  · simp [hundo, hgen, CBlockUndo.Fits, CBlockUndo.Kept]
  · simpa [hgen] using hblock.undo_kept_iff

/-- The undo information of a connected block is read back, and its file gives it back, exactly if
the block is the genesis block or the format keeps each of its spends. -/
theorem blockundo_restored_iff (hflag : FlagSound config.crypto config.params block)
    (h : connectBlock config chain disk block pindex pprev view fJustCheck state =
      (.returned r, state')) (hashPrev : Uint256) :
    (Reads (CBlockUndo.unserialize config.keys) (r.blockundo.serialize config.keys) r.blockundo ∧
      CBlockUndo.undoReadFromDisk config.hashes config.keys
        (r.blockundo.undoWriteToDisk config.hashes config.keys hashPrev) hashPrev =
          some r.blockundo) ↔
      block.getHash config.hashes = config.params.hashGenesisBlock ∨
        ∀ x ∈ blockSpends config.hashes pindex.nHeight view block.vtx, x.Kept := by
  obtain ⟨hfits, hkept⟩ := blockundo_kept_iff hflag h
  rw [CBlockUndo.unserialize_reads_iff hfits, CBlockUndo.undoReadFromDisk_iff hfits, and_self,
    hkept]

end

/-! ## A version that is kept and one that is lost -/

/-- A transaction of version 1 is spent, and its undo information is read back. -/
theorem toySpend_undo_restored :
    FlagSound toyConfig.crypto toyConfig.params (toyBlock [toyCoinBase, toySpend]) ∧
      ∃ r state, connectBlock toyConfig toyChain .ok (toyBlock [toyCoinBase, toySpend])
          toyNextIndex toyPath (toyView 1) false .init = (.returned r, state) ∧
        Reads (CBlockUndo.unserialize toyConfig.keys) (r.blockundo.serialize toyConfig.keys)
          r.blockundo ∧
        CBlockUndo.undoReadFromDisk toyConfig.hashes toyConfig.keys
          (r.blockundo.undoWriteToDisk toyConfig.hashes toyConfig.keys 101) 101 =
            some r.blockundo := by
  obtain ⟨hflag, r, state, h⟩ := toySpend_connected
  exact ⟨hflag, r, state, h,
    (blockundo_restored_iff hflag h 101).mpr (.inr (by decide +kernel))⟩

/-- A transaction of version -1 is spent, and its undo information is not read back: the version is
written as the one byte 127. -/
theorem toySpend_undo_lost :
    ∃ r state, connectBlock toyConfig toyChain .ok (toyBlock [toyCoinBase, toySpend])
        toyNextIndex toyPath (toyView (-1)) false .init = (.returned r, state) ∧
      ¬(Reads (CBlockUndo.unserialize toyConfig.keys) (r.blockundo.serialize toyConfig.keys)
          r.blockundo ∧
        CBlockUndo.undoReadFromDisk toyConfig.hashes toyConfig.keys
          (r.blockundo.undoWriteToDisk toyConfig.hashes toyConfig.keys 101) 101 =
            some r.blockundo) := by
  obtain ⟨r, state, h⟩ := exists_returned (x := connectBlock toyConfig toyChain .ok
    (toyBlock [toyCoinBase, toySpend]) toyNextIndex toyPath (toyView (-1)) false) (s := .init)
    (by decide +kernel)
  refine ⟨r, state, h, ?_⟩
  obtain ⟨hfits, hkept⟩ := blockundo_kept_iff toySpend_connected.1 h
  rw [CBlockUndo.unserialize_reads_iff hfits, CBlockUndo.undoReadFromDisk_iff hfits, and_self,
    hkept]
  decide +kernel

end Jumpcoin
