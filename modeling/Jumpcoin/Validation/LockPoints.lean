import Jumpcoin.Chain.Paths
import Jumpcoin.Validation.ConnectBlock

/-!
# Cached lock points

`CheckSequenceLocks` of `main.cpp`: whether a transaction could be in the next block as far as its
relative locks are concerned. What it computes is kept with the transaction, together with the
highest block that confirmed one of its locked inputs, and used again as long as this block is on
the active chain (`TestLockPointValidity`).

An input that was not confirmed counts as confirmed in the next block. With a lock of zero it makes
no difference then, but it is part of what is kept.
-/

namespace Jumpcoin

open List

/-! ## The check -/

def MEMPOOL_HEIGHT : Int32 := 0x7FFFFFFF

structure CCoinsViewMemPool where
  base : Uint256 → Option CCoins
  mempool : Uint256 → Option CTransaction

def CCoinsViewMemPool.getCoins (view : CCoinsViewMemPool) (txid : Uint256) : Option CCoins :=
  match view.mempool txid with
  | some tx => some (.fromTx tx MEMPOOL_HEIGHT)
  | none => (view.base txid).filter fun coins => !coins.isPruned

/-- The null pointer is the empty path. -/
structure LockPoints where
  height : Int
  time : Int
  maxInputBlock : List CBlockIndex
  deriving DecidableEq, Repr

/-- All mempool transactions are assumed to confirm in the next block. -/
def prevHeight (active : List CBlockIndex) (coins : CCoins) : Int :=
  if coins.nHeight = MEMPOOL_HEIGHT then nextHeight active else coins.nHeight.toInt

def prevHeights (active : List CBlockIndex) (view : CCoinsViewMemPool) (vin : List CTxIn) :
    Option (List Int) :=
  vin.mapM fun txin => (view.getCoins txin.prevout.hash).map (prevHeight active)

/-- The block after the tip, as far as it is filled in. -/
def nextIndex (active : List CBlockIndex) : CBlockIndex :=
  { CBlockIndex.ofHeader 0 ⟨0, 0, 0, 0, 0, 0⟩ with nHeight := nextHeight active }

def enforcesSequence (tx : CTransaction) (fVerifySequence : Bool) : Bool :=
  decide (2 ≤ tx.nVersion.toUInt32) && fVerifySequence

/-- What `CalculateSequenceLocks` leaves of the heights: those of inputs without a lock are cleared
when locks are enforced. -/
def lockedHeights (tx : CTransaction) (fVerifySequence : Bool) (heights : List Int) : List Int :=
  if enforcesSequence tx fVerifySequence then
    (tx.vin.zip heights).map fun input => if input.1.nSequence.toNat.testBit 31 then 0 else input.2
  else heights

def maxInputHeight (active : List CBlockIndex) (heights : List Int) : Int :=
  heights.foldl (fun m height => if height ≠ (nextHeight active : Int) then max m height else m) 0

def evaluateSequenceLocks (params : Params) (active : List CBlockIndex) (lockPair : Int × Int) :
    Option Bool := do
  let nBlockTime ← getPastTimeLimit params active
  some (!(decide ((nextHeight active : Int) ≤ lockPair.1) || decide (nBlockTime ≤ lockPair.2)))

/-- `CheckSequenceLocks` with the lock points to use, if any; the result and the lock points after
it. Nothing is computed if an input is missing. -/
def checkSequenceLocks (params : Params) (active : List CBlockIndex) (view : CCoinsViewMemPool)
    (tx : CTransaction) (fVerifySequence : Bool) (existing : Option LockPoints) :
    Option (Bool × Option LockPoints) :=
  match existing with
  | some lp => do
    let result ← evaluateSequenceLocks params active (lp.height, lp.time)
    some (result, some lp)
  | none =>
    match prevHeights active view tx.vin with
    | none => some (false, none)
    | some heights => do
      let lockPair ← calculateSequenceLocks params (nextIndex active :: active) tx
        fVerifySequence heights
      let height := maxInputHeight active (lockedHeights tx fVerifySequence heights)
      let result ← evaluateSequenceLocks params active lockPair
      some (result, some ⟨lockPair.1, lockPair.2, getAncestorPath active height⟩)

/-- `TestLockPointValidity`: whether the block is on the active chain. -/
def testLockPointValidity (lp : LockPoints) (active : List CBlockIndex) : Bool :=
  match lp.maxInputBlock with
  | [] => true
  | pindex :: pprev => decide (getAncestorPath active pindex.nHeight = pindex :: pprev)

/-! ## Chains with their coins -/

/-- An active chain and the coins after its last block, with a pool. -/
structure ChainView where
  active : List CBlockIndex
  view : CCoinsViewMemPool
  nonempty : active ≠ []
  numbered : Numbered active
  confirmed : ∀ txid coins, view.getCoins txid = some coins → coins.nHeight ≠ MEMPOOL_HEIGHT →
    0 ≤ coins.nHeight.toInt ∧ coins.nHeight.toInt < active.length

def CTxIn.Locked (txin : CTxIn) : Prop := txin.nSequence.toNat.testBit 31 = false

/-- The height of a confirmed input on the common part of two chains is the same for both. -/
def SameHeights (old new : ChainView) (tx : CTransaction) : Prop :=
  ∀ txin ∈ tx.vin, ∀ coins, old.view.getCoins txin.prevout.hash = some coins →
    coins.nHeight ≠ MEMPOOL_HEIGHT → getAncestorPath old.active coins.nHeight.toInt <:+ new.active →
    ∃ coins', new.view.getCoins txin.prevout.hash = some coins' ∧ coins'.nHeight = coins.nHeight

def Pending (old : ChainView) (tx : CTransaction) : Prop :=
  ∃ txin ∈ tx.vin, txin.Locked ∧ ∃ coins, old.view.getCoins txin.prevout.hash = some coins ∧
    coins.nHeight = MEMPOOL_HEIGHT

/-- A chain is at least as high as another and its tip has at least the same limit of past times;
its limits do not decrease. -/
structure NotBehind (params : Params) (old new : ChainView) : Prop where
  height : old.active.length ≤ new.active.length
  limit : ∀ nLimit nLimit', getPastTimeLimit params old.active = some nLimit →
    getPastTimeLimit params new.active = some nLimit' → nLimit ≤ nLimit'
  mono : ∀ k nLimit nLimit', getPastTimeLimit params (new.active.drop k) = some nLimit →
    getPastTimeLimit params new.active = some nLimit' → nLimit ≤ nLimit'

/-! ## Locks input by input -/

variable {params : Params} {path : List CBlockIndex} {tx : CTransaction} {fVerifySequence : Bool}

def Passes (params : Params) (path : List CBlockIndex) (nHeight nTime : Int) (txin : CTxIn)
    (nCoinHeight : Int) : Prop :=
  txin.Locked →
    if txin.nSequence.toNat.testBit 22 then
      ∃ nCoinTime, getPastTimeLimit params (getAncestorPath path (max (nCoinHeight - 1) 0)) =
        some nCoinTime ∧ nCoinTime + (txin.nSequence.toNat % 2 ^ 16 * 2 ^ 9 : Nat) - 1 < nTime
    else nCoinHeight + (txin.nSequence.toNat % 2 ^ 16 : Nat) - 1 < nHeight

variable {txin : CTxIn} {nHeight nTime : Int} {lock lock' : Int × Int}

lemma sequenceLock_lt {nCoinHeight : Int}
    (h : sequenceLock params path lock txin nCoinHeight = some lock') :
    lock'.1 < nHeight ∧ lock'.2 < nTime ↔
      (lock.1 < nHeight ∧ lock.2 < nTime) ∧
        Passes params path nHeight nTime txin nCoinHeight := by
  simp only [sequenceLock] at h
  split_ifs at h with hdisabled htype
  · obtain rfl := Option.some.inj h
    simp [Passes, CTxIn.Locked, hdisabled]
  · obtain ⟨nCoinTime, htime, hlock⟩ := Option.bind_eq_some_iff.mp h
    obtain rfl := Option.some.inj hlock
    have hlocked : txin.Locked := by simpa [CTxIn.Locked] using hdisabled
    simp only [Passes, hlocked, htype, if_true, true_implies, htime, Option.some.injEq,
      exists_eq_left', max_lt_iff]
    tauto
  · obtain rfl := Option.some.inj h
    have hlocked : txin.Locked := by simpa [CTxIn.Locked] using hdisabled
    simp only [Passes, hlocked, htype, true_implies, max_lt_iff]
    tauto

variable {inputs : List (CTxIn × Int)}

/-- The lock of a transaction has ended when those of all inputs have. -/
lemma sequenceLocksLoop_lt (h : sequenceLocksLoop params path lock inputs = some lock') :
    lock'.1 < nHeight ∧ lock'.2 < nTime ↔
      (lock.1 < nHeight ∧ lock.2 < nTime) ∧
        ∀ input ∈ inputs, Passes params path nHeight nTime input.1 input.2 := by
  induction inputs generalizing lock with
  | nil =>
    obtain rfl := Option.some.inj h
    simp
  | cons input inputs ih =>
    obtain ⟨middle, hone, hrest⟩ := Option.bind_eq_some_iff.mp h
    rw [ih hrest, sequenceLock_lt hone, forall_mem_cons, and_assoc]

lemma exists_sequenceLocksLoop
    (h : ∀ input ∈ inputs, ∃ nCoinTime,
      getPastTimeLimit params (getAncestorPath path (max (input.2 - 1) 0)) = some nCoinTime) :
    ∃ lock', sequenceLocksLoop params path lock inputs = some lock' := by
  induction inputs generalizing lock with
  | nil => exact ⟨lock, rfl⟩
  | cons input inputs ih =>
    obtain ⟨nCoinTime, htime⟩ := h input mem_cons_self
    have hone : ∃ middle, sequenceLock params path lock input.1 input.2 = some middle := by
      simp only [sequenceLock]
      split_ifs
      · exact ⟨_, rfl⟩
      · exact ⟨_, Option.bind_eq_some_iff.mpr ⟨nCoinTime, htime, rfl⟩⟩
      · exact ⟨_, rfl⟩
    obtain ⟨middle, hmiddle⟩ := hone
    obtain ⟨lock', hrest⟩ : ∃ lock', sequenceLocksLoop params path middle inputs = some lock' :=
      ih fun input hinput => h input (mem_cons_of_mem _ hinput)
    exact ⟨lock', Option.bind_eq_some_iff.mpr ⟨middle, hmiddle, hrest⟩⟩

namespace ChainView

variable (c : ChainView)

def heightOf (txin : CTxIn) : Int :=
  ((c.view.getCoins txin.prevout.hash).map (prevHeight c.active)).getD 0

lemma nextHeight_eq : nextHeight c.active = c.active.length := by
  have hnumbered := c.numbered
  cases hactive : c.active with
  | nil => exact absurd hactive c.nonempty
  | cons pindex pprev =>
    rw [hactive] at hnumbered
    rw [nextHeight, hnumbered.1, length_cons]

lemma prevHeights_eq (vin : List CTxIn)
    (h : ∀ txin ∈ vin, (c.view.getCoins txin.prevout.hash).isSome = true) :
    prevHeights c.active c.view vin = some (vin.map c.heightOf) := by
  induction vin with
  | nil => rfl
  | cons txin vin ih =>
    rw [forall_mem_cons] at h
    obtain ⟨coins, hcoins⟩ := Option.isSome_iff_exists.mp h.1
    have hrest := ih h.2
    rw [prevHeights] at hrest ⊢
    simp [hcoins, hrest, heightOf]

lemma isSome_of_prevHeights {vin : List CTxIn} {heights : List Int}
    (h : prevHeights c.active c.view vin = some heights) :
    ∀ txin ∈ vin, (c.view.getCoins txin.prevout.hash).isSome = true := by
  induction vin generalizing heights with
  | nil => simp
  | cons txin vin ih =>
    simp only [prevHeights, mapM_cons, Option.bind_eq_bind, Option.bind_eq_some_iff,
      Option.map_eq_some_iff] at h
    obtain ⟨_, ⟨coins, hcoins, -⟩, heights', hrest, -⟩ := h
    rw [forall_mem_cons]
    exact ⟨by simp [hcoins], ih hrest⟩

/-- The height that counts is one on the chain or the next one. -/
lemma heightOf_cases (h : (c.view.getCoins txin.prevout.hash).isSome = true) :
    ∃ coins, c.view.getCoins txin.prevout.hash = some coins ∧
      (coins.nHeight = MEMPOOL_HEIGHT ∧ c.heightOf txin = c.active.length ∨
        coins.nHeight ≠ MEMPOOL_HEIGHT ∧ c.heightOf txin = coins.nHeight.toInt ∧
          0 ≤ c.heightOf txin ∧ c.heightOf txin < c.active.length) := by
  obtain ⟨coins, hcoins⟩ := Option.isSome_iff_exists.mp h
  refine ⟨coins, hcoins, ?_⟩
  simp only [heightOf, hcoins, Option.map_some, Option.getD_some, prevHeight, nextHeight_eq]
  split_ifs with hpool
  · exact .inl ⟨hpool, rfl⟩
  · exact .inr ⟨hpool, rfl, c.confirmed _ _ hcoins hpool⟩

lemma heightOf_le (h : (c.view.getCoins txin.prevout.hash).isSome = true) :
    0 ≤ c.heightOf txin ∧ c.heightOf txin ≤ c.active.length := by
  obtain ⟨coins, -, ⟨-, hheight⟩ | ⟨-, -, hnonneg, hheight⟩⟩ := c.heightOf_cases h <;> omega

lemma getAncestorPath_nextIndex {height : Nat} (h : height < c.active.length) :
    getAncestorPath (nextIndex c.active :: c.active) height =
      c.active.drop (c.active.length - 1 - height) := by
  have hlt : (height : Int) < (nextIndex c.active).nHeight := by
    rw [nextIndex, nextHeight_eq]
    exact_mod_cast h
  rw [getAncestorPath, if_neg (by omega), dropWhile_cons_of_pos (by simpa using hlt.ne'),
    c.numbered.dropWhile_eq_drop h]

lemma exists_limit_getAncestorPath (params : Params) {height : Int} (h : height ≤ c.active.length) :
    ∃ nLimit, getPastTimeLimit params
      (getAncestorPath (nextIndex c.active :: c.active) (max (height - 1) 0)) = some nLimit := by
  have hpos := length_pos_of_ne_nil c.nonempty
  obtain ⟨k, hk⟩ : ∃ k : Nat, max (height - 1) 0 = k := Int.eq_ofNat_of_zero_le (le_max_right _ _)
  rw [hk, c.getAncestorPath_nextIndex (by omega)]
  apply exists_getPastTimeLimit
  intro hnil
  have hlength := congrArg List.length hnil
  simp only [length_drop, length_nil] at hlength
  omega

end ChainView

/-! ## The highest block of a locked input -/

variable {active : List CBlockIndex}

lemma foldl_maxInputHeight {heights : List Int} {m bound : Int} (hm : m < bound)
    (h : ∀ height ∈ heights, height ≠ (nextHeight active : Int) → height < bound) :
    let result := heights.foldl
      (fun m height => if height ≠ (nextHeight active : Int) then max m height else m) m
    m ≤ result ∧ result < bound ∧
      ∀ height ∈ heights, height ≠ (nextHeight active : Int) → height ≤ result := by
  induction heights generalizing m with
  | nil => simpa using hm
  | cons height heights ih =>
    rw [forall_mem_cons] at h
    simp only [foldl_cons]
    split_ifs with hne
    · obtain ⟨hle, hlt, hall⟩ := ih (max_lt hm (h.1 hne)) h.2
      refine ⟨(le_max_left _ _).trans hle, hlt, ?_⟩
      rw [forall_mem_cons]
      exact ⟨fun _ => (le_max_right _ _).trans hle, hall⟩
    · obtain ⟨hle, hlt, hall⟩ := ih hm h.2
      refine ⟨hle, hlt, ?_⟩
      rw [forall_mem_cons]
      exact ⟨fun h' => absurd h' hne, hall⟩

variable {m : Nat} {old new : ChainView}

/-- Two chains that share a block share the part below it. -/
lemma drop_eq_drop_of_shared {h : Nat} (hm : m < old.active.length)
    (hshared : getAncestorPath new.active m = old.active.drop (old.active.length - 1 - m))
    (hle : h ≤ m) :
    h < new.active.length ∧ old.active.drop (old.active.length - 1 - h) =
      new.active.drop (new.active.length - 1 - h) := by
  have hsuffix := getAncestorPath_suffix new.active m
  have hlength : (getAncestorPath new.active m).length = m + 1 := by
    rw [hshared, length_drop]
    omega
  have hnew := suffix_iff_eq_drop.mp hsuffix
  have hbound := hsuffix.length_le
  refine ⟨by omega, ?_⟩
  have hold : old.active.drop (old.active.length - 1 - h) =
      (old.active.drop (old.active.length - 1 - m)).drop (m - h) := by
    rw [drop_drop]
    congr 1
    omega
  rw [hold, ← hshared, hnew, drop_drop]
  congr 1
  omega

/-! ## The check on a chain -/

variable {nLimit : Int}

lemma evaluateSequenceLocks_eq (h : getPastTimeLimit params active = some nLimit)
    (lockPair : Int × Int) :
    evaluateSequenceLocks params active lockPair =
      some (decide (lockPair.1 < (nextHeight active : Int) ∧ lockPair.2 < nLimit)) := by
  simp only [evaluateSequenceLocks, h, Option.bind_eq_bind, Option.bind_some, Option.some.injEq]
  rw [Bool.eq_iff_iff]
  simp only [Bool.not_eq_true', Bool.or_eq_false_iff, decide_eq_false_iff_not, decide_eq_true_eq,
    not_le]

lemma forall_mem_zip_map {vin : List CTxIn} {f : CTxIn → Int} {P : CTxIn → Int → Prop} :
    (∀ input ∈ vin.zip (vin.map f), P input.1 input.2) ↔ ∀ txin ∈ vin, P txin (f txin) := by
  induction vin with
  | nil => simp
  | cons txin vin ih =>
    rw [map_cons, zip_cons_cons, forall_mem_cons, forall_mem_cons, ih]

namespace ChainView

variable (c : ChainView)

def Available (tx : CTransaction) : Prop :=
  ∀ txin ∈ tx.vin, (c.view.getCoins txin.prevout.hash).isSome = true

variable {c} {lockPair : Int × Int}

/-- What the lock of a transaction says at any later height and time. -/
lemma calculateSequenceLocks_lt (hheight : 0 ≤ nHeight) (htime : 0 ≤ nTime)
    (h : calculateSequenceLocks params (nextIndex c.active :: c.active) tx fVerifySequence
      (tx.vin.map c.heightOf) = some lockPair) :
    lockPair.1 < nHeight ∧ lockPair.2 < nTime ↔
      (enforcesSequence tx fVerifySequence = true → ∀ txin ∈ tx.vin,
        Passes params (nextIndex c.active :: c.active) nHeight nTime txin (c.heightOf txin)) := by
  have hstart : (-1 : Int) < nHeight ∧ (-1 : Int) < nTime := by omega
  have henforce : enforcesSequence tx fVerifySequence = true ↔
      2 ≤ tx.nVersion.toUInt32 ∧ fVerifySequence = true := by
    simp [enforcesSequence]
  rw [calculateSequenceLocks] at h
  by_cases hactive : enforcesSequence tx fVerifySequence = true
  · rw [if_pos (henforce.mp hactive)] at h
    rw [sequenceLocksLoop_lt h, forall_mem_zip_map]
    simp [hstart, hactive]
  · rw [if_neg (hactive ∘ henforce.mpr)] at h
    obtain rfl := Option.some.inj h
    simp [hstart, hactive]

lemma exists_calculateSequenceLocks (params : Params) (fVerifySequence : Bool)
    (h : c.Available tx) :
    ∃ lockPair, calculateSequenceLocks params (nextIndex c.active :: c.active) tx fVerifySequence
      (tx.vin.map c.heightOf) = some lockPair := by
  rw [calculateSequenceLocks]
  split_ifs
  · apply exists_sequenceLocksLoop
    apply (forall_mem_zip_map (P := fun _ height => ∃ nCoinTime, getPastTimeLimit params
      (getAncestorPath (nextIndex c.active :: c.active) (max (height - 1) 0)) = some nCoinTime)).mpr
    intro txin hmem
    exact c.exists_limit_getAncestorPath params (c.heightOf_le (h txin hmem)).2
  · exact ⟨_, rfl⟩

lemma checkSequenceLocks_none (params : Params) (fVerifySequence : Bool) (h : c.Available tx) :
    ∃ lockPair nLimit, calculateSequenceLocks params (nextIndex c.active :: c.active) tx
        fVerifySequence (tx.vin.map c.heightOf) = some lockPair ∧
      getPastTimeLimit params c.active = some nLimit ∧
      checkSequenceLocks params c.active c.view tx fVerifySequence none =
        some (decide (lockPair.1 < c.active.length ∧ lockPair.2 < nLimit),
          some ⟨lockPair.1, lockPair.2, getAncestorPath c.active (maxInputHeight c.active
            (lockedHeights tx fVerifySequence (tx.vin.map c.heightOf)))⟩) := by
  obtain ⟨lockPair, hlock⟩ := c.exists_calculateSequenceLocks params fVerifySequence h
  obtain ⟨nLimit, hlimit⟩ := exists_getPastTimeLimit params c.nonempty
  refine ⟨lockPair, nLimit, hlock, hlimit, ?_⟩
  simp [checkSequenceLocks, c.prevHeights_eq tx.vin h, hlock, evaluateSequenceLocks_eq hlimit,
    nextHeight_eq]

lemma available_of_checkSequenceLocks {result : Bool} {lp : LockPoints}
    (h : checkSequenceLocks params c.active c.view tx fVerifySequence none =
      some (result, some lp)) : c.Available tx := by
  simp only [checkSequenceLocks] at h
  cases hheights : prevHeights c.active c.view tx.vin with
  | none => simp [hheights] at h
  | some heights => exact c.isSome_of_prevHeights hheights

end ChainView

/-! ## Lock points on another chain -/

section

variable {old new : ChainView} {lp : LockPoints}

/-- The ancestor in which `maxInputBlock` is looked up. -/
lemma getAncestorPath_active (c : ChainView) (hm : m < c.active.length) :
    ∃ pindex pprev, getAncestorPath c.active m = pindex :: pprev ∧ pindex.nHeight = m ∧
      pindex :: pprev = c.active.drop (c.active.length - 1 - m) := by
  have hancestor : getAncestorPath c.active m = c.active.drop (c.active.length - 1 - m) := by
    rw [← c.numbered.getAncestorPath_eq_drop]
    congr 1
    omega
  have hnumbered := c.numbered.drop (c.active.length - 1 - m)
  have hlength : (c.active.drop (c.active.length - 1 - m)).length = m + 1 := by
    rw [length_drop]
    omega
  cases hdrop : c.active.drop (c.active.length - 1 - m) with
  | nil => simp [hdrop] at hlength
  | cons pindex pprev =>
    rw [hdrop] at hnumbered hlength hancestor
    refine ⟨pindex, pprev, hancestor, ?_, rfl⟩
    rw [hnumbered.1]
    simpa using hlength

/-- What a block in `maxInputBlock` that is on the other chain says: the chains agree up to every
locked input that was confirmed. -/
lemma shared_of_valid
    (hlp : lp.maxInputBlock = getAncestorPath old.active (maxInputHeight old.active
      (lockedHeights tx fVerifySequence (tx.vin.map old.heightOf))))
    (hvalid : testLockPointValidity lp new.active = true) (havailable : old.Available tx)
    (henforce : enforcesSequence tx fVerifySequence = true) :
    ∃ m : Nat, m < old.active.length ∧
      getAncestorPath new.active m = old.active.drop (old.active.length - 1 - m) ∧
      ∀ txin ∈ tx.vin, txin.Locked → old.heightOf txin ≠ old.active.length →
        old.heightOf txin ≤ m := by
  have hpos := length_pos_of_ne_nil old.nonempty
  have hheights {P : Int → Prop} : (∀ height ∈ lockedHeights tx fVerifySequence
      (tx.vin.map old.heightOf), P height) ↔ ∀ txin ∈ tx.vin,
        P (if txin.nSequence.toNat.testBit 31 then 0 else old.heightOf txin) := by
    rw [lockedHeights, if_pos henforce, forall_mem_map]
    exact forall_mem_zip_map (P := fun txin height =>
      P (if txin.nSequence.toNat.testBit 31 then 0 else height))
  have hbound : ∀ height ∈ lockedHeights tx fVerifySequence (tx.vin.map old.heightOf),
      height ≠ (nextHeight old.active : Int) → height < old.active.length := by
    rw [hheights]
    intro txin hmem hne
    have hle := old.heightOf_le (havailable txin hmem)
    rw [old.nextHeight_eq] at hne
    split_ifs at hne ⊢ <;> omega
  have hstart : (0 : Int) < old.active.length := by omega
  obtain ⟨hzero, hlt, hmax⟩ := foldl_maxInputHeight hstart hbound
  rw [hheights] at hmax
  obtain ⟨m, hm⟩ := Int.eq_ofNat_of_zero_le hzero
  rw [← maxInputHeight] at hm
  rw [← maxInputHeight, hm] at hlt hmax
  rw [hm] at hlp
  obtain ⟨pindex, pprev, hblock, hheight, hdrop⟩ := getAncestorPath_active old (by omega : m < _)
  refine ⟨m, by omega, ?_, ?_⟩
  · simp only [testLockPointValidity, hlp, hblock, hheight, decide_eq_true_eq] at hvalid
    rw [hvalid, hdrop]
  · intro txin hmem hlocked hne
    have hinput := hmax txin hmem
    rw [if_neg (by simpa [CTxIn.Locked] using hlocked), old.nextHeight_eq] at hinput
    exact hinput hne

/-- An input that was confirmed has the same lock on both chains. -/
lemma passes_confirmed (hm : m < old.active.length)
    (hshared : getAncestorPath new.active m = old.active.drop (old.active.length - 1 - m))
    (hle : old.heightOf txin ≤ m) (hsame : new.heightOf txin = old.heightOf txin) :
    Passes params (nextIndex old.active :: old.active) nHeight nTime txin (old.heightOf txin) ↔
      Passes params (nextIndex new.active :: new.active) nHeight nTime txin
        (new.heightOf txin) := by
  obtain ⟨k, hk⟩ : ∃ k : Nat, max (old.heightOf txin - 1) 0 = k :=
    Int.eq_ofNat_of_zero_le (le_max_right _ _)
  obtain ⟨hlt, hdrop⟩ := drop_eq_drop_of_shared hm hshared (by omega : k ≤ m)
  have hancestor : getAncestorPath (nextIndex old.active :: old.active) k =
      getAncestorPath (nextIndex new.active :: new.active) k := by
    rw [old.getAncestorPath_nextIndex (by omega), new.getAncestorPath_nextIndex hlt, hdrop]
  simp only [Passes, hsame, hk, hancestor]

/-- An input that was not confirmed has a lock of zero, which ends on both chains. -/
lemma passes_pending (hbehind : NotBehind params old new) (hlocked : txin.Locked)
    (hold : old.heightOf txin = old.active.length) {nLimit' : Int}
    (hlimit : getPastTimeLimit params old.active = some nLimit)
    (hlimit' : getPastTimeLimit params new.active = some nLimit')
    (hpassed : Passes params (nextIndex old.active :: old.active) old.active.length nLimit txin
      (old.heightOf txin)) (hnew : 0 ≤ new.heightOf txin ∧ new.heightOf txin ≤ new.active.length) :
    Passes params (nextIndex old.active :: old.active) new.active.length nLimit' txin
        (old.heightOf txin) ∧
      Passes params (nextIndex new.active :: new.active) new.active.length nLimit' txin
        (new.heightOf txin) := by
  have hheight := hbehind.height
  have hpos := length_pos_of_ne_nil old.nonempty
  have hpassed := hpassed hlocked
  simp only [Passes, hlocked, true_implies]
  split_ifs at hpassed ⊢
  · obtain ⟨nCoinTime, htime, hlt⟩ := hpassed
    have hle := hbehind.limit _ _ hlimit hlimit'
    have htip : max (old.heightOf txin - 1) 0 = (old.active.length - 1 : Nat) := by omega
    have hsame : nCoinTime = nLimit := by
      rw [htip, old.getAncestorPath_nextIndex (by omega), Nat.sub_self, drop_zero, hlimit] at htime
      exact (Option.some.inj htime).symm
    obtain ⟨nTime, hnTime⟩ := new.exists_limit_getAncestorPath params hnew.2
    refine ⟨⟨nCoinTime, htime, by omega⟩, nTime, hnTime, ?_⟩
    obtain ⟨k, hk⟩ : ∃ k : Nat, max (new.heightOf txin - 1) 0 = k :=
      Int.eq_ofNat_of_zero_le (le_max_right _ _)
    rw [hk, new.getAncestorPath_nextIndex (by omega)] at hnTime
    have hmono := hbehind.mono _ _ _ hnTime hlimit'
    omega
  · omega

/-- A confirmed input on the common part of both chains keeps its height. -/
lemma SameHeights.heightOf_eq {coins : CCoins} (hsame : SameHeights old new tx)
    (hm : m < old.active.length)
    (hshared : getAncestorPath new.active m = old.active.drop (old.active.length - 1 - m))
    (hmem : txin ∈ tx.vin) (hcoins : old.view.getCoins txin.prevout.hash = some coins)
    (hconfirmed : coins.nHeight ≠ MEMPOOL_HEIGHT)
    (hheight : old.heightOf txin = coins.nHeight.toInt) (hnonneg : 0 ≤ old.heightOf txin)
    (hle : old.heightOf txin ≤ m) : new.heightOf txin = old.heightOf txin := by
  obtain ⟨k, hk⟩ := Int.eq_ofNat_of_zero_le hnonneg
  obtain ⟨-, hdrop⟩ := drop_eq_drop_of_shared hm hshared (by omega : k ≤ m)
  obtain ⟨pindex, pprev, hblock, -, hpath⟩ := getAncestorPath_active old (by omega : k < _)
  have hsuffix : getAncestorPath old.active coins.nHeight.toInt <:+ new.active := by
    rw [← hheight, hk, hblock, hpath, hdrop]
    exact drop_suffix _ _
  obtain ⟨coins', hcoins', hkept⟩ := hsame txin hmem coins hcoins hconfirmed hsuffix
  rw [hheight, ChainView.heightOf, hcoins']
  simp [prevHeight, hkept, hconfirmed]

/-- Lock points that were computed with a positive result, and are valid on another chain, give the
result of computing them anew. -/
theorem checkSequenceLocks_cached
    (hcomputed : checkSequenceLocks params old.active old.view tx fVerifySequence none =
      some (true, some lp))
    (hvalid : testLockPointValidity lp new.active = true) (hsame : SameHeights old new tx)
    (havailable : new.Available tx) (hpending : Pending old tx → NotBehind params old new) :
    (checkSequenceLocks params new.active new.view tx fVerifySequence (some lp)).map Prod.fst =
      (checkSequenceLocks params new.active new.view tx fVerifySequence none).map Prod.fst := by
  have hthere := ChainView.available_of_checkSequenceLocks hcomputed
  obtain ⟨lockPair, nLimit, hlock, hlimit, hcheck⟩ :=
    ChainView.checkSequenceLocks_none params fVerifySequence hthere
  obtain ⟨lockPair', nLimit', hlock', hlimit', hcheck'⟩ :=
    ChainView.checkSequenceLocks_none params fVerifySequence havailable
  rw [hcomputed] at hcheck
  obtain ⟨hpassed, rfl⟩ : (lockPair.1 < old.active.length ∧ lockPair.2 < nLimit) ∧ lp = _ := by
    simpa using hcheck
  have hnLimit := getPastTimeLimit_nonneg hlimit
  have hnLimit' := getPastTimeLimit_nonneg hlimit'
  rw [hcheck', checkSequenceLocks]
  simp only [evaluateSequenceLocks_eq hlimit', new.nextHeight_eq, Option.bind_eq_bind,
    Option.bind_some, Option.map_some, Option.some.injEq, decide_eq_decide]
  rw [ChainView.calculateSequenceLocks_lt (by omega) hnLimit' hlock,
    ChainView.calculateSequenceLocks_lt (by omega) hnLimit' hlock']
  rw [ChainView.calculateSequenceLocks_lt (by omega) hnLimit hlock] at hpassed
  apply imp_congr_right
  intro henforce
  obtain ⟨m, hm, hshared, hmax⟩ := shared_of_valid rfl hvalid hthere henforce
  apply forall₂_congr
  intro txin hmem
  by_cases hlocked : txin.Locked
  · obtain ⟨coins, hcoins, ⟨hpool, hheight⟩ | ⟨hconfirmed, hheight, hnonneg, hlt⟩⟩ :=
      old.heightOf_cases (hthere txin hmem)
    · have hbehind := hpending ⟨txin, hmem, hlocked, coins, hcoins, hpool⟩
      obtain ⟨hold, hnew⟩ := passes_pending hbehind hlocked hheight hlimit hlimit'
        (hpassed henforce txin hmem) (new.heightOf_le (havailable txin hmem))
      exact iff_of_true hold hnew
    · have hle := hmax txin hmem hlocked hlt.ne
      exact passes_confirmed hm hshared hle
        (hsame.heightOf_eq hm hshared hmem hcoins hconfirmed hheight hnonneg hle)
  · exact iff_of_true (fun h => absurd h hlocked) fun h => absurd h hlocked

end

/-! ## Lock points that are not to be trusted -/

/-- Lock points were computed on one chain and are valid on another one, where they give a different
result from computing them anew. -/
def Misleads (params : Params) (old new : ChainView) (tx : CTransaction) : Prop :=
  SameHeights old new tx ∧ ∃ result lp,
    checkSequenceLocks params old.active old.view tx true none = some (result, some lp) ∧
    testLockPointValidity lp new.active = true ∧
    (checkSequenceLocks params new.active new.view tx true (some lp)).map Prod.fst ≠
      (checkSequenceLocks params new.active new.view tx true none).map Prod.fst

/-- Branches of a chain that differ after the genesis block. -/
def branchOf (branch : Nat) : Nat → List CBlockIndex
  | 0 => [{ nextIndex [] with hashBlock := 1, nTime := 1696771811 }]
  | n + 1 =>
    { nextIndex (branchOf branch n) with
      hashBlock := BitVec.ofNat 256 (1000 * branch + n + 2)
      nTime := UInt32.ofNat (1696771812 + 60 * (n + 1)) } :: branchOf branch n

def parentTx : CTransaction where
  nVersion := 2
  nTime := 0
  vin := []
  vout := [⟨1000, [0x51]⟩]
  nLockTime := 0

/-- The coins when this transaction is unknown, in the pool, or confirmed at a height. -/
inductive ParentState
  | unknown
  | pool
  | confirmed (nHeight : Nat)

def parentView : ParentState → CCoinsViewMemPool
  | .unknown => ⟨fun _ => none, fun _ => none⟩
  | .pool => ⟨fun _ => none, fun txid => if txid = 7 then some parentTx else none⟩
  | .confirmed nHeight =>
    ⟨fun txid => if txid = 7 then some (.fromTx parentTx (.ofNat nHeight)) else none, fun _ => none⟩

lemma getCoins_parentView {state : ParentState} {txid : Uint256} {coins : CCoins}
    (h : (parentView state).getCoins txid = some coins)
    (hconfirmed : coins.nHeight ≠ MEMPOOL_HEIGHT) :
    ∃ nHeight, state = .confirmed nHeight ∧ coins.nHeight = .ofNat nHeight := by
  cases state with
  | unknown => cases h
  | pool =>
    simp only [parentView, CCoinsViewMemPool.getCoins] at h
    split_ifs at h
    · obtain rfl := Option.some.inj h
      exact absurd rfl hconfirmed
    · cases h
  | confirmed nHeight =>
    simp only [parentView, CCoinsViewMemPool.getCoins] at h
    split_ifs at h
    · obtain ⟨hcoins, -⟩ := Option.filter_eq_some_iff.mp h
      obtain rfl := Option.some.inj hcoins
      exact ⟨nHeight, rfl, rfl⟩
    · cases h

def nodeAt (branch n : Nat) (state : ParentState) (hnumbered : Numbered (branchOf branch n))
    (h : ∀ nHeight, state = .confirmed nHeight →
      (Int32.ofNat nHeight).toInt = nHeight ∧ nHeight < (branchOf branch n).length) :
    ChainView where
  active := branchOf branch n
  view := parentView state
  nonempty := by cases n <;> simp [branchOf]
  numbered := hnumbered
  confirmed txid coins hcoins hconfirmed := by
    obtain ⟨nHeight, hstate, hheight⟩ := getCoins_parentView hcoins hconfirmed
    obtain ⟨hint, hlt⟩ := h nHeight hstate
    rw [hheight, hint]
    omega

def spendingTx (nSequence : UInt32) : CTransaction where
  nVersion := 2
  nTime := 0
  vin := [⟨⟨7, 0⟩, [], nSequence⟩]
  vout := []
  nLockTime := 0

/-- Nothing is asked of inputs that are not confirmed, or not on the common part. -/
lemma sameHeights_of_not_shared (state : ParentState) {nSequence : UInt32}
    (hview : old.view = parentView state)
    (h : ∀ nHeight, state = .confirmed nHeight →
      ¬getAncestorPath old.active (Int32.ofNat nHeight).toInt <:+ new.active) :
    SameHeights old new (spendingTx nSequence) := by
  intro txin _ coins hcoins hconfirmed hsuffix
  rw [hview] at hcoins
  obtain ⟨nHeight, hstate, hheight⟩ := getCoins_parentView hcoins hconfirmed
  rw [hheight] at hsuffix
  exact absurd hsuffix (h nHeight hstate)

/-- Lock points mislead if they were computed with a negative result, if a lock of zero was computed
at a higher block, and if an input is missing. -/
theorem lockPoints_mislead :
    Misleads mainConsensus
      (nodeAt 0 0 .pool (by decide) (by simp)) (nodeAt 0 5 (.confirmed 5) (by decide) (by
        rintro _ ⟨⟩
        decide)) (spendingTx 5) ∧
    Misleads mainConsensus
      (nodeAt 0 2 .pool (by decide) (by simp)) (nodeAt 1 1 .pool (by decide) (by simp))
      (spendingTx 0) ∧
    Misleads mainConsensus
      (nodeAt 0 1 (.confirmed 1) (by decide) (by
        rintro _ ⟨⟩
        decide)) (nodeAt 1 1 .unknown (by decide) (by simp)) (spendingTx 0xffffffff) := by
  refine ⟨⟨sameHeights_of_not_shared .pool rfl (by rintro _ ⟨⟩), false, ⟨5, -1, branchOf 0 0⟩, ?_⟩,
    ⟨sameHeights_of_not_shared .pool rfl (by rintro _ ⟨⟩), true, ⟨2, -1, branchOf 0 0⟩, ?_⟩,
    ⟨sameHeights_of_not_shared (.confirmed 1) rfl ?_, true, ⟨-1, -1, branchOf 0 0⟩, ?_⟩⟩
  · decide +kernel
  · decide +kernel
  · rintro _ ⟨⟩
    decide +kernel
  · decide +kernel

def nodeTwo : ChainView :=
  nodeAt 0 2 (.confirmed 1) (by decide) (by
    rintro _ ⟨⟩
    decide)

def nodeThree : ChainView :=
  nodeAt 0 3 (.confirmed 1) (by decide) (by
    rintro _ ⟨⟩
    decide)

/-- A lock of one block, on a chain that grows. -/
theorem checkSequenceLocks_grown :
    (checkSequenceLocks mainConsensus nodeThree.active nodeThree.view (spendingTx 1) true
      (some ⟨1, -1, branchOf 0 1⟩)).map Prod.fst =
    (checkSequenceLocks mainConsensus nodeThree.active nodeThree.view (spendingTx 1) true
      none).map Prod.fst := by
  have hcoins : (parentView (.confirmed 1)).getCoins 7 = some (.fromTx parentTx 1) := by
    decide +kernel
  have hcomputed : checkSequenceLocks mainConsensus nodeTwo.active nodeTwo.view (spendingTx 1) true
      none = some (true, some ⟨1, -1, branchOf 0 1⟩) := by
    decide +kernel
  have hvalid : testLockPointValidity ⟨1, -1, branchOf 0 1⟩ nodeThree.active = true := by
    decide +kernel
  have hsame : SameHeights nodeTwo nodeThree (spendingTx 1) :=
    fun txin _ coins hthere _ _ => ⟨coins, hthere, rfl⟩
  apply checkSequenceLocks_cached hcomputed hvalid hsame
  · intro txin hmem
    obtain rfl := mem_singleton.mp hmem
    exact congrArg Option.isSome hcoins
  · rintro ⟨txin, hmem, -, coins, hthere, hpool⟩
    obtain rfl := mem_singleton.mp hmem
    obtain rfl := Option.some.inj (hcoins.symm.trans hthere)
    exact absurd hpool (by decide)

end Jumpcoin
