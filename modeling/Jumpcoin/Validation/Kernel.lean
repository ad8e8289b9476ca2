import Jumpcoin.Validation.ConnectBlock

/-!
# The kernel of a stake

`CheckStakeKernelHash` compares the kernel hash with the target times the staked value. The product
is taken modulo `2^256`. Targets of proof-of-stake blocks reach the limit of the network, about
`2^208`, and values reach `2^63`, so the product can wrap, and then a larger stake is worth less
than a smaller one.
-/

namespace Jumpcoin

open Codec

/-! ## Compact targets -/

/-- A target of 24 bits or more is a multiple of 256. -/
lemma setCompact_small_or_dvd (nBits : UInt32) :
    (setCompact nBits).bnTarget.toNat < 2 ^ 23 ∨ 2 ^ 8 ∣ (setCompact nBits).bnTarget.toNat := by
  unfold setCompact
  dsimp only
  have hmantissa : nBits.toNat % 2 ^ 23 < 2 ^ 23 := Nat.mod_lt _ (by decide)
  split_ifs with hsize
  · left
    have hword := Nat.div_le_self (nBits.toNat % 2 ^ 23) (2 ^ (8 * (3 - nBits.toNat / 2 ^ 24)))
    exact (Nat.mod_le _ _).trans_lt (hword.trans_lt hmantissa)
  · right
    obtain ⟨k, hk⟩ : ∃ k, 8 * (nBits.toNat / 2 ^ 24 - 3) = 8 + k :=
      ⟨8 * (nBits.toNat / 2 ^ 24 - 4), by omega⟩
    rw [BitVec.toNat_shiftLeft, Nat.shiftLeft_eq, hk, pow_add]
    apply (Nat.dvd_mod_iff (by decide)).mpr
    exact Dvd.dvd.mul_left (Dvd.intro _ rfl) _

/-! ## The comparison -/

section Kernel

variable (hashes : Hashes) (pindexPrev : CBlockIndex) (nBits blockFromTime nTimeTx : UInt32)
  (prevout : COutPoint)

def kernelHash : Uint256 :=
  hashes.hash256 (writeUInt256 pindexPrev.nStakeModifier ++
    (writeUInt32 blockFromTime ++ (writeUInt256 prevout.hash ++ (writeUInt32 prevout.n ++
      writeUInt32 nTimeTx))))

def weightedTarget (nValueIn : CAmount) : Nat :=
  (setCompact nBits).bnTarget.toNat * nValueIn.toInt.toNat

variable {hashes pindexPrev nBits blockFromTime nTimeTx prevout} {nValueIn : CAmount}

lemma toNat_weight (hvalue : 0 < nValueIn.toInt) :
    nValueIn.toUInt64.toNat = nValueIn.toInt.toNat ∧ nValueIn.toInt.toNat < 2 ^ 63 := by
  have hnonneg : 0 ≤ nValueIn := Int64.le_iff_toInt_le.mpr (by simpa using hvalue.le)
  have hlt := nValueIn.toInt_lt
  rw [Int64.toNat_toUInt64_of_le hnonneg]
  exact ⟨rfl, by omega⟩

/-- The kernel hash is compared with the product modulo `2^256`. -/
lemma checkStakeKernelHash_iff (htime : blockFromTime ≤ nTimeTx) (hvalue : 0 < nValueIn.toInt) :
    checkStakeKernelHash hashes pindexPrev nBits blockFromTime nValueIn prevout nTimeTx = true ↔
      (kernelHash hashes pindexPrev blockFromTime nTimeTx prevout).toNat ≤
        weightedTarget nBits nValueIn % 2 ^ 256 := by
  obtain ⟨hweight, hlt⟩ := toNat_weight hvalue
  have hne : nValueIn ≠ 0 := by
    rintro rfl
    exact absurd hvalue (by decide)
  have hproduct : ((setCompact nBits).bnTarget * BitVec.ofNat 256 nValueIn.toUInt64.toNat).toNat =
      weightedTarget nBits nValueIn % 2 ^ 256 := by
    have hfits : nValueIn.toInt.toNat % 2 ^ 256 = nValueIn.toInt.toNat :=
      Nat.mod_eq_of_lt (hlt.trans (by decide))
    rw [BitVec.toNat_mul, BitVec.toNat_ofNat, hweight, hfits]
    rfl
  unfold checkStakeKernelHash
  rw [if_neg (UInt32.not_lt.mpr htime), if_neg hne, Bool.not_eq_true', decide_eq_false_iff_not,
    BitVec.not_lt, BitVec.le_def, hproduct]
  rfl

/-- A product that does not fit is not a number of ones. -/
lemma weightedTarget_mod_ne (hvalue : 0 < nValueIn.toInt)
    (hwrap : 2 ^ 256 ≤ weightedTarget nBits nValueIn) :
    weightedTarget nBits nValueIn % 2 ^ 256 ≠ 2 ^ 256 - 1 := by
  obtain ⟨-, hlt⟩ := toNat_weight hvalue
  rcases setCompact_small_or_dvd nBits with hsmall | hdvd
  · have hbound : weightedTarget nBits nValueIn < 2 ^ 23 * 2 ^ 63 := Nat.mul_lt_mul'' hsmall hlt
    omega
  · have hdvd' : 2 ^ 8 ∣ weightedTarget nBits nValueIn := Dvd.dvd.mul_right hdvd _
    omega

end Kernel

/-- The kernel of a stake is checked against the exact product, for every hash, if and only if the
product fits into 256 bits. Among such stakes a larger one is at least as good. -/
theorem kernel_exact_iff {nBits blockFromTime nTimeTx : UInt32} {nValueIn : CAmount}
    (pindexPrev : CBlockIndex) (prevout : COutPoint) (htime : blockFromTime ≤ nTimeTx)
    (hvalue : 0 < nValueIn.toInt) :
    ((∀ hashes, checkStakeKernelHash hashes pindexPrev nBits blockFromTime nValueIn prevout
          nTimeTx = true ↔
        (kernelHash hashes pindexPrev blockFromTime nTimeTx prevout).toNat ≤
          weightedTarget nBits nValueIn) ↔
      weightedTarget nBits nValueIn < 2 ^ 256) ∧
    ∀ hashes (nValueIn' : CAmount), nValueIn.toInt ≤ nValueIn'.toInt →
      weightedTarget nBits nValueIn' < 2 ^ 256 →
      checkStakeKernelHash hashes pindexPrev nBits blockFromTime nValueIn prevout nTimeTx = true →
      checkStakeKernelHash hashes pindexPrev nBits blockFromTime nValueIn' prevout nTimeTx =
        true := by
  refine ⟨⟨fun hexact => ?_, fun hfits hashes => ?_⟩, fun hashes nValueIn' hle hfits haccept => ?_⟩
  · -- a hash of ones is below every product that does not fit
    by_contra hwrap
    have hmax := (hexact ⟨fun _ => BitVec.allOnes 256, fun _ => 0⟩).mpr
    rw [checkStakeKernelHash_iff htime hvalue] at hmax
    have hne := weightedTarget_mod_ne hvalue (not_lt.mp hwrap)
    have hones : (kernelHash ⟨fun _ => BitVec.allOnes 256, fun _ => 0⟩ pindexPrev blockFromTime
        nTimeTx prevout).toNat = 2 ^ 256 - 1 := BitVec.toNat_allOnes
    omega
  · rw [checkStakeKernelHash_iff htime hvalue, Nat.mod_eq_of_lt hfits]
  · have hmono : weightedTarget nBits nValueIn ≤ weightedTarget nBits nValueIn' :=
      Nat.mul_le_mul_left _ (by omega)
    rw [checkStakeKernelHash_iff htime hvalue, Nat.mod_eq_of_lt (hmono.trans_lt hfits)] at haccept
    rw [checkStakeKernelHash_iff htime (hvalue.trans_le hle), Nat.mod_eq_of_lt hfits]
    exact haccept.trans hmono

/-- At the limit of the main network, a stake of a million coins is checked exactly. -/
theorem kernel_exact_million :
    weightedTarget (getCompact mainConsensus.posLimitV2) 100000000000000 < 2 ^ 256 ∧
      ∀ hashes, checkStakeKernelHash hashes toyNextIndex (getCompact mainConsensus.posLimitV2)
          1700000000 100000000000000 ⟨7, 0⟩ 1700000016 = true ↔
        (kernelHash hashes toyNextIndex 1700000000 1700000016 ⟨7, 0⟩).toNat ≤
          weightedTarget (getCompact mainConsensus.posLimitV2) 100000000000000 := by
  have hfits : weightedTarget (getCompact mainConsensus.posLimitV2) 100000000000000 < 2 ^ 256 := by
    decide +kernel
  exact ⟨hfits, (kernel_exact_iff toyNextIndex ⟨7, 0⟩ (by decide) (by decide)).1.mpr hfits⟩

/-- The first proof-of-stake block of the main network has the limit as its target. A kernel hash
in the middle of its range is then good for a stake of 2814792 coins and not for the next larger
one. -/
theorem kernel_wraps : let nBits := getNextTargetRequired mainConsensus toyStakePath true
    let hashes : Hashes := ⟨fun _ => BitVec.ofNat 256 (2 ^ 255), fun _ => 0⟩
    nBits = getCompact mainConsensus.posLimitV2 ∧
      checkStakeKernelHash hashes toyNextIndex nBits 1700000000 281479271743489 ⟨7, 0⟩ 1700000016 =
        true ∧
      checkStakeKernelHash hashes toyNextIndex nBits 1700000000 281479271743490 ⟨7, 0⟩ 1700000016 =
        false ∧
      (kernelHash hashes toyNextIndex 1700000000 1700000016 ⟨7, 0⟩).toNat ≤
        weightedTarget nBits 281479271743490 := by
  decide +kernel

end Jumpcoin
