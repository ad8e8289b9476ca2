import Jumpcoin.Primitives.Transaction

/-!
# Targets and proofs of work

The compact form of a 256-bit target (`arith_uint256.cpp`), the proof a block with a given target
stands for (`GetBlockProof` of `chain.cpp`), and the comparison of a hash with a target
(`CheckProofOfWork` of `pow.cpp`).

All arithmetic is modulo `2^256`, as in the source. The proof of a block is bounded by its target:
a target of at least `2^k` stands for at most `2^(256-k)` hashes.
-/

namespace Jumpcoin

/-- What `SetCompact` computes: the number and its two flags. -/
structure Compact where
  bnTarget : Uint256
  fNegative : Bool
  fOverflow : Bool
  deriving DecidableEq, Repr

def setCompact (nCompact : UInt32) : Compact :=
  let nSize := nCompact.toNat / 2 ^ 24
  let nMantissa := nCompact.toNat % 2 ^ 23
  let nWord := if nSize ≤ 3 then nMantissa / 2 ^ (8 * (3 - nSize)) else nMantissa
  { bnTarget := if nSize ≤ 3 then BitVec.ofNat 256 nWord
      else BitVec.ofNat 256 nWord <<< (8 * (nSize - 3))
    fNegative := decide (nWord ≠ 0) && nCompact.toNat.testBit 23
    fOverflow := decide (nWord ≠ 0) && (decide (34 < nSize) ||
      (decide (0xff < nWord) && decide (33 < nSize)) ||
      (decide (0xffff < nWord) && decide (32 < nSize))) }

/-- `base_uint::bits`: the position of the highest bit set plus one, or zero. -/
def numBits (bn : Uint256) : Nat :=
  if bn = 0 then 0 else bn.toNat.log2 + 1

/-- `GetCompact` of a nonnegative number. -/
def getCompact (bn : Uint256) : UInt32 :=
  let nSize := (numBits bn + 7) / 8
  let nCompact :=
    if nSize ≤ 3 then bn.toNat * 2 ^ (8 * (3 - nSize)) else bn.toNat / 2 ^ (8 * (nSize - 3))
  -- the bit 0x00800000 denotes the sign, so a mantissa that has it moves down a byte
  if nCompact.testBit 23 then UInt32.ofNat (nCompact / 2 ^ 8 + (nSize + 1) * 2 ^ 24)
  else UInt32.ofNat (nCompact + nSize * 2 ^ 24)

/-- `GetBlockProof`: the expected number of hashes for a target, zero for a malformed one. The
divisor is not zero: a compact number has at most 23 significant bits. -/
def getBlockProof (nBits : UInt32) : Uint256 :=
  let compact := setCompact nBits
  if compact.fNegative || compact.fOverflow || compact.bnTarget == 0 then 0
  else ~~~compact.bnTarget / (compact.bnTarget + 1) + 1

def checkProofOfWork (powLimit : Uint256) (hash : Uint256) (nBits : UInt32) : Bool :=
  let compact := setCompact nBits
  !(compact.fNegative || compact.bnTarget == 0 || compact.fOverflow ||
      decide (powLimit < compact.bnTarget)) &&
    !decide (compact.bnTarget < hash)

/-! ## How much one block can prove -/

section Proof

variable {nBits : UInt32}

/-- In unbounded integers the proof is `2^256 / (target + 1)`. -/
lemma getBlockProof_toNat (h : getBlockProof nBits ≠ 0) :
    (getBlockProof nBits).toNat = 2 ^ 256 / ((setCompact nBits).bnTarget.toNat + 1) := by
  unfold getBlockProof at h ⊢
  generalize setCompact nBits = compact at h ⊢
  dsimp only at h ⊢
  split_ifs at h ⊢ with hbad
  · exact absurd rfl h
  obtain ⟨-, hzero⟩ : (compact.fNegative || compact.fOverflow) = false ∧ compact.bnTarget ≠ 0 := by
    simpa using hbad
  generalize compact.bnTarget = t at hzero
  have hpos : 0 < t.toNat := by
    rcases Nat.eq_zero_or_pos t.toNat with h0 | h0
    · exact absurd (BitVec.eq_of_toNat_eq (by simpa using h0)) hzero
    · exact h0
  rcases Nat.lt_or_ge (t.toNat + 1) (2 ^ 256) with hsucc | hsucc
  · have hnext : (t + 1).toNat = t.toNat + 1 := by
      exact Nat.mod_eq_of_lt hsucc
    have hquot : (2 ^ 256 - 1 - t.toNat) / (t.toNat + 1) + 1 = 2 ^ 256 / (t.toNat + 1) := by
      rw [← Nat.add_div_right _ (Nat.succ_pos _)]
      congr 1
      omega
    have hsmall : 2 ^ 256 / (t.toNat + 1) < 2 ^ 256 :=
      Nat.div_lt_self (by positivity) (by omega)
    rw [BitVec.toNat_add, BitVec.toNat_udiv, BitVec.toNat_not, hnext]
    show ((2 ^ 256 - 1 - t.toNat) / (t.toNat + 1) + 1) % 2 ^ 256 = _
    rw [hquot, Nat.mod_eq_of_lt hsmall]
  · -- the largest target: the divisor wraps to zero
    have hmax : t.toNat = 2 ^ 256 - 1 := by omega
    have ht : t = BitVec.allOnes 256 := BitVec.eq_of_toNat_eq (by rw [hmax]; rfl)
    subst ht
    decide +kernel

/-- A target of at least `2^k` stands for at most `2^(256-k)` hashes. -/
lemma getBlockProof_le {k : Nat} (hk : k ≤ 256) (h : 2 ^ k ≤ (setCompact nBits).bnTarget.toNat) :
    (getBlockProof nBits).toNat ≤ 2 ^ (256 - k) := by
  by_cases hzero : getBlockProof nBits = 0
  · rw [hzero]
    exact Nat.zero_le _
  · rw [getBlockProof_toNat hzero]
    calc 2 ^ 256 / ((setCompact nBits).bnTarget.toNat + 1)
        ≤ 2 ^ 256 / 2 ^ k := Nat.div_le_div_left (by omega) (by positivity)
      _ = 2 ^ (256 - k) := Nat.pow_div hk (by omega)

end Proof

end Jumpcoin
