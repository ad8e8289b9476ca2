import Jumpcoin.Chain.Index

/-!
# Rescanning the chain

`CWallet::ScanForWalletTransactions` with `CChain::Next` of `chain.h`. The rescan offers the blocks
of the active chain to the wallet, and once a minute it reports how far it is. The report names the
block that comes next: after the last block there is none, and the null pointer is followed.

The rest of the wallet is a state of any type, of which only `AddToWalletIfInvolvingMe` is known.
-/

namespace Jumpcoin

open List

structure CChain where
  vChain : List CBlockIndex
  nHeight_eq : ∀ h (pindex : CBlockIndex), vChain[h]? = some pindex → pindex.nHeight = h

namespace CChain

def contains (chain : CChain) (pindex : CBlockIndex) : Bool :=
  chain.vChain[pindex.nHeight]? == some pindex

def next (chain : CChain) (pindex : CBlockIndex) : Option CBlockIndex :=
  if chain.contains pindex then chain.vChain[pindex.nHeight + 1]? else none

lemma next_eq {chain : CChain} {h : Nat} {pindex : CBlockIndex}
    (hpindex : chain.vChain[h]? = some pindex) : chain.next pindex = chain.vChain[h + 1]? := by
  have hheight := chain.nHeight_eq h pindex hpindex
  simp [next, contains, hheight, hpindex]

end CChain

/-- What a rescan works on. The clock and the flag are read again and again, and a reading may give
anything. -/
structure RescanContext (W : Type) where
  chainActive : CChain
  nTimeFirstKey : Int
  /-- the block that `ReadBlockFromDisk` reads -/
  readBlockFromDisk : CBlockIndex → CBlock
  getTime : Nat → Int
  fAbortRescan : Nat → Bool
  addToWalletIfInvolvingMe : CTransaction → CBlock → Bool → W → Bool × W

/-- The time of the last report, and how often the clock has been read. -/
structure RescanClock where
  nNow : Int
  reads : Nat

/-- `ret` and the wallet, the clock, and how often the flag has been read. -/
structure RescanState (W : Type) where
  ret : Nat
  wallet : W
  clock : RescanClock
  turns : Nat

inductive RescanOutcome (W : Type) where
  | returned (ret : Nat) (wallet : W)
  | nullDereference
  | unfinished
  deriving DecidableEq

namespace RescanContext

variable {W : Type} (ctx : RescanContext W) (fUpdate : Bool)

def isOld (pindex : CBlockIndex) : Bool :=
  ctx.nTimeFirstKey != 0 && decide (pindex.getBlockTime < ctx.nTimeFirstKey - 7200)

def skipOld : Nat → Option CBlockIndex → Option CBlockIndex
  | fuel + 1, some pindex =>
    if ctx.isOld pindex then skipOld fuel (ctx.chainActive.next pindex) else some pindex
  | _, pindex => pindex

def scanBlock (pindex : CBlockIndex) (s : RescanState W) : RescanState W :=
  let block := ctx.readBlockFromDisk pindex
  block.vtx.foldl (fun s tx =>
    let (found, wallet) := ctx.addToWalletIfInvolvingMe tx block fUpdate s.wallet
    { s with ret := if found then s.ret + 1 else s.ret, wallet := wallet }) s

def reportDue (clock : RescanClock) : Bool :=
  decide (clock.nNow + 60 ≤ ctx.getTime clock.reads)

/-- The clock is read once, and a second time for a report. -/
def readClock (clock : RescanClock) : RescanClock :=
  if ctx.reportDue clock then ⟨ctx.getTime (clock.reads + 1), clock.reads + 2⟩
  else { clock with reads := clock.reads + 1 }

def scanLoop : Nat → Option CBlockIndex → RescanState W → RescanOutcome W
  | 0, _, _ => .unfinished
  | _ + 1, none, s => .returned s.ret s.wallet
  | fuel + 1, some pindex, s =>
    if ctx.fAbortRescan s.turns then .returned s.ret s.wallet
    else
      let pindexNext := ctx.chainActive.next pindex
      -- the report reads the height of the next block
      if ctx.reportDue s.clock && pindexNext.isNone then .nullDereference
      else scanLoop fuel pindexNext { ctx.scanBlock fUpdate pindex s with
        clock := ctx.readClock s.clock, turns := s.turns + 1 }

/-- `ScanForWalletTransactions`; no loop makes more turns than the chain has blocks. -/
def scanForWalletTransactions (pindexStart : Option CBlockIndex) (wallet : W) : RescanOutcome W :=
  let turns := ctx.chainActive.vChain.length + 1
  ctx.scanLoop fUpdate turns (ctx.skipOld turns pindexStart) ⟨0, wallet, ⟨ctx.getTime 0, 1⟩, 0⟩

/-! ## What a rescan is for -/

def blocksFrom (h : Nat) : List CBlockIndex :=
  (ctx.chainActive.vChain.drop h).dropWhile ctx.isOld

def offerAll (blocks : List CBlockIndex) (wallet : W) : W :=
  (blocks.flatMap fun pindex => (ctx.readBlockFromDisk pindex).vtx.map (·, pindex)).foldl
    (fun wallet offer => (ctx.addToWalletIfInvolvingMe offer.1 (ctx.readBlockFromDisk offer.2)
      fUpdate wallet).2) wallet

def reportDueAtEnd : Nat → RescanClock → Bool
  | 0, _ => false
  | 1, clock => ctx.reportDue clock
  | blocks + 2, clock => reportDueAtEnd (blocks + 1) (ctx.readClock clock)

variable {ctx fUpdate}

lemma scanBlock_wallet (pindex : CBlockIndex) (s : RescanState W) :
    (ctx.scanBlock fUpdate pindex s).wallet = ctx.offerAll fUpdate [pindex] s.wallet := by
  simp only [scanBlock, offerAll, flatMap_singleton, foldl_map]
  generalize ctx.readBlockFromDisk pindex = block
  induction block.vtx generalizing s with
  | nil => rfl
  | cons tx vtx ih => rw [foldl_cons, ih, foldl_cons]

/-- The first loop stops at the first block that is not too old. -/
lemma skipOld_eq (ctx : RescanContext W) (fuel h : Nat)
    (hfuel : ctx.chainActive.vChain.length ≤ h + fuel) :
    ∃ h', ctx.skipOld fuel ctx.chainActive.vChain[h]? = ctx.chainActive.vChain[h']? ∧
      ctx.chainActive.vChain.drop h' = ctx.blocksFrom h := by
  induction fuel generalizing h with
  | zero =>
    refine ⟨h, by cases ctx.chainActive.vChain[h]? <;> rfl, ?_⟩
    rw [blocksFrom, drop_of_length_le (by simpa using hfuel), dropWhile_nil]
  | succ fuel ih =>
    cases hpindex : ctx.chainActive.vChain[h]? with
    | none =>
      refine ⟨h, hpindex.symm, ?_⟩
      rw [blocksFrom, drop_of_length_le (getElem?_eq_none_iff.mp hpindex),
        dropWhile_nil]
    | some pindex =>
      obtain ⟨hlt, rfl⟩ := List.getElem?_eq_some_iff.mp hpindex
      rw [skipOld, ctx.chainActive.next_eq hpindex, blocksFrom, List.drop_eq_getElem_cons hlt,
        dropWhile_cons]
      split_ifs
      · exact ih (h + 1) (by omega)
      · exact ⟨h, hpindex.symm, drop_eq_getElem_cons hlt⟩

/-- The second loop offers all blocks, or it follows the null pointer at the end. -/
lemma scanLoop_eq (fUpdate : Bool) (habort : ∀ turn, ctx.fAbortRescan turn = false) {fuel h : Nat}
    {blocks : List CBlockIndex} (hblocks : ctx.chainActive.vChain.drop h = blocks)
    (hfuel : blocks.length < fuel) (s : RescanState W) :
    (ctx.reportDueAtEnd blocks.length s.clock = true ∧
      ctx.scanLoop fUpdate fuel ctx.chainActive.vChain[h]? s = .nullDereference) ∨
    (ctx.reportDueAtEnd blocks.length s.clock = false ∧
      ∃ ret, ctx.scanLoop fUpdate fuel ctx.chainActive.vChain[h]? s =
        .returned ret (ctx.offerAll fUpdate blocks s.wallet)) := by
  induction blocks generalizing h fuel s with
  | nil =>
    obtain ⟨fuel, rfl⟩ := Nat.exists_eq_add_of_lt hfuel
    rw [getElem?_eq_none_iff.mpr (drop_eq_nil_iff.mp hblocks)]
    exact .inr ⟨rfl, s.ret, rfl⟩
  | cons pindex blocks ih =>
    obtain ⟨fuel, rfl⟩ : ∃ n, fuel = n + 1 := ⟨fuel - 1, by omega⟩
    have hpindex : ctx.chainActive.vChain[h]? = some pindex := by
      rw [← head?_drop, hblocks, head?_cons]
    have hnext : ctx.chainActive.vChain[h + 1]? = blocks.head? := by
      rw [← head?_drop, ← tail_drop, hblocks, tail_cons]
    have hrest := ih (h := h + 1) (by rw [← tail_drop, hblocks, tail_cons])
      (Nat.lt_of_succ_lt_succ hfuel) { ctx.scanBlock fUpdate pindex s with
        clock := ctx.readClock s.clock, turns := s.turns + 1 }
    rw [hpindex, scanLoop, if_neg (by simp [habort]), ctx.chainActive.next_eq hpindex]
    have hcons : ctx.offerAll fUpdate (pindex :: blocks) s.wallet =
        ctx.offerAll fUpdate blocks (ctx.offerAll fUpdate [pindex] s.wallet) := by
      simp [offerAll]
    rw [hcons, ← scanBlock_wallet]
    cases blocks with
    | nil =>
      cases hdue : ctx.reportDue s.clock with
      | true => exact .inl ⟨hdue, by simp [hnext]⟩
      | false => exact .inr ⟨hdue, by simpa [reportDueAtEnd] using hrest⟩
    | cons pindex' blocks => simpa [reportDueAtEnd, hnext] using hrest

/-- A rescan that is not aborted offers every transaction once and in order, unless a report is due
when it has finished the last block. -/
theorem rescan_complete_iff (ctx : RescanContext W) (fUpdate : Bool)
    (habort : ∀ turn, ctx.fAbortRescan turn = false) (h : Nat) (wallet : W) :
    (∃ ret, ctx.scanForWalletTransactions fUpdate ctx.chainActive.vChain[h]? wallet =
        .returned ret (ctx.offerAll fUpdate (ctx.blocksFrom h) wallet)) ↔
      ctx.reportDueAtEnd (ctx.blocksFrom h).length ⟨ctx.getTime 0, 1⟩ = false := by
  obtain ⟨h', hskip, hblocks⟩ :=
    ctx.skipOld_eq (ctx.chainActive.vChain.length + 1) h (by omega)
  have hfuel : (ctx.blocksFrom h).length < ctx.chainActive.vChain.length + 1 := by
    rw [← hblocks, length_drop]
    omega
  simp only [scanForWalletTransactions, hskip]
  rcases scanLoop_eq fUpdate habort hblocks hfuel ⟨0, wallet, ⟨ctx.getTime 0, 1⟩, 0⟩ with
    ⟨hdue, hloop⟩ | ⟨hdue, hloop⟩
  · simp [hdue, hloop]
  · exact iff_of_true hloop hdue

end RescanContext

/-- A chain of blocks with the given times and one transaction each, which are all added. -/
def toyRescan (times : List UInt32) (nTimeFirstKey : Int) (getTime : Nat → Int) :
    RescanContext (List CTransaction) where
  chainActive :=
    { vChain := times.mapIdx fun h nTime =>
        { CBlockIndex.ofHeader 1 ⟨1, 0, 0, nTime, 0, 0⟩ with nHeight := h }
      nHeight_eq := by
        intro h pindex hpindex
        rw [getElem?_mapIdx, Option.map_eq_some_iff] at hpindex
        obtain ⟨nTime, -, rfl⟩ := hpindex
        rfl }
  nTimeFirstKey
  readBlockFromDisk := fun pindex =>
    ⟨⟨1, 0, 0, pindex.nTime, 0, 0⟩, [⟨1, pindex.nTime, [], [], 0⟩], [], false⟩
  getTime
  fAbortRescan := fun _ => false
  addToWalletIfInvolvingMe := fun tx _ _ wallet => (true, wallet ++ [tx])

/-- The first block is too old, and the first of the other two takes a minute. -/
theorem rescan_complete_reported :
    let ctx := toyRescan [100, 10000, 10100] 8000 fun n => if n = 0 then 1000 else 1060
    ctx.reportDue ⟨1000, 1⟩ = true ∧
      ∃ ret, ctx.scanForWalletTransactions true ctx.chainActive.vChain[0]? [] =
        .returned ret [⟨1, 10000, [], [], 0⟩, ⟨1, 10100, [], [], 0⟩] :=
  ⟨by decide, (RescanContext.rescan_complete_iff (toyRescan [100, 10000, 10100] 8000 _) true
    (fun _ => rfl) 0 []).mpr (by decide)⟩

/-- The one block takes a minute. -/
theorem rescan_slow_null :
    (toyRescan [100] 1 fun n => 1000 + 60 * n).scanForWalletTransactions true
      (toyRescan [100] 1 fun n => 1000 + 60 * n).chainActive.vChain[0]? [] = .nullDereference := by
  decide

end Jumpcoin
