import Mathlib.Data.Nat.Bitwise
import Jumpcoin.Script.Interpreter

/-!
# The checker of a transaction

`TransactionSignatureChecker` of `script/interpreter.cpp`: what the operations of a script ask of
the transaction that spends an output, and of the input it is spent with.
-/

namespace Jumpcoin

open Codec Check

namespace CPubKey

def getLen (chHeader : UInt8) : Nat :=
  if chHeader = 2 ∨ chHeader = 3 then 33
  else if chHeader = 4 ∨ chHeader = 6 ∨ chHeader = 7 then 65
  else 0

def isValid (vch : Bytes) : Bool :=
  match vch with
  | [] => false
  | chHeader :: _ => getLen chHeader == vch.length

end CPubKey

/-- `SEQUENCE_LOCKTIME_TYPE_FLAG` and `SEQUENCE_LOCKTIME_MASK`. -/
def nLockTimeMask : Nat := 1 <<< 22 ||| 0xffff

/-- The bits of a sequence number that have a meaning. The number is a 64-bit word. -/
def maskSequence (nSequence : Int) : Nat :=
  (nSequence % 2 ^ 64).toNat &&& nLockTimeMask

namespace TransactionSignatureChecker

variable (hashes : Hashes) (verifyPubKey : Bytes → Uint256 → Bytes → Bool)
variable (txTo : CTransaction) (nIn : Nat)

/-- The last byte of the signature is the hash type. -/
def checkSig (vchSigIn vchPubKey : Bytes) (scriptCode : CScript) : Bool :=
  CPubKey.isValid vchPubKey &&
    match vchSigIn.getLast? with
    | none => false
    | some nHashType => verifyPubKey vchPubKey
        (signatureHash hashes scriptCode txTo (UInt32.ofNat nIn) (Int32.ofNat nHashType.toNat))
        vchSigIn.dropLast

def checkLockTime (nLockTime : Int) : Bool :=
  let txLockTime : Int := txTo.nLockTime.toNat
  ((decide (txLockTime < LOCKTIME_THRESHOLD) && decide (nLockTime < LOCKTIME_THRESHOLD)) ||
      (decide (LOCKTIME_THRESHOLD ≤ txLockTime) && decide (LOCKTIME_THRESHOLD ≤ nLockTime))) &&
    decide (nLockTime ≤ txLockTime) &&
    match txTo.vin[nIn]? with
    | none => false
    | some txin => txin.nSequence != 0xffffffff

def checkSequence (nSequence : Int) : Bool :=
  match txTo.vin[nIn]? with
  | none => false
  | some txin =>
    let txToSequenceMasked := maskSequence txin.nSequence.toNat
    let nSequenceMasked := maskSequence nSequence
    decide (2 ≤ txTo.nVersion.toUInt32) && !txin.nSequence.toNat.testBit 31 &&
      ((decide (txToSequenceMasked < 2 ^ 22) && decide (nSequenceMasked < 2 ^ 22)) ||
        (decide (2 ^ 22 ≤ txToSequenceMasked) && decide (2 ^ 22 ≤ nSequenceMasked))) &&
      decide (nSequenceMasked ≤ txToSequenceMasked)

end TransactionSignatureChecker

open TransactionSignatureChecker in
def transactionSignatureChecker (hashes : Hashes) (verifyPubKey : Bytes → Uint256 → Bytes → Bool)
    (txTo : CTransaction) (nIn : Nat) : SignatureChecker where
  checkSig := checkSig hashes verifyPubKey txTo nIn
  checkLockTime := checkLockTime txTo nIn
  checkSequence := checkSequence txTo nIn

/-- `VerifyScript` for an input of a transaction, as `CScriptCheck` calls it: the text of the error,
or no value. -/
def verifyInput (lib : ScriptLib) (hashes : Hashes) (verifyPubKey : Bytes → Uint256 → Bytes → Bool)
    (nFlags : Nat) (scriptPubKey : CScript) (txTo : CTransaction) (nIn : Nat) : Option String :=
  match txTo.vin[nIn]? with
  | none => some (scriptErrorString .unknownError)
  | some txin =>
    match verifyScript lib nFlags (transactionSignatureChecker hashes verifyPubKey txTo nIn)
      txin.scriptSig scriptPubKey .unknownError with
    | (.returned _, _) => none
    | (_, serror) => some (scriptErrorString serror)

lemma verifyInput_eq_none {lib : ScriptLib} {hashes : Hashes}
    {verifyPubKey : Bytes → Uint256 → Bytes → Bool} {nFlags : Nat} {scriptPubKey : CScript}
    {txTo : CTransaction} {nIn : Nat} {txin : CTxIn} (hin : txTo.vin[nIn]? = some txin) :
    verifyInput lib hashes verifyPubKey nFlags scriptPubKey txTo nIn = none ↔
      acceptsScript lib nFlags (transactionSignatureChecker hashes verifyPubKey txTo nIn)
        txin.scriptSig scriptPubKey = true := by
  simp only [verifyInput, hin, acceptsScript]
  rcases verifyScript lib nFlags (transactionSignatureChecker hashes verifyPubKey txTo nIn)
    txin.scriptSig scriptPubKey .unknownError with ⟨_ | _ | _, serror⟩ <;>
    simp [Outcome.isReturned]

/-! ## What the checker grants -/

lemma maskSequence_eq {n : Int} (hn : 0 ≤ n) :
    maskSequence n = 2 ^ 22 * (n.toNat.testBit 22).toNat + n.toNat % 2 ^ 16 := by
  obtain ⟨k, rfl⟩ := Int.eq_ofNat_of_zero_le hn
  have hword : ((k : Int) % 2 ^ 64).toNat = k % 2 ^ 64 := by norm_cast
  have hbit : (k % 2 ^ 64).testBit 22 = k.testBit 22 := by
    rw [Nat.testBit_mod_two_pow]
    rfl
  have hlow : k % 2 ^ 64 % 2 ^ 16 = k % 2 ^ 16 := Nat.mod_mod_of_dvd k (by decide)
  rw [maskSequence, hword, Int.toNat_natCast, nLockTimeMask, Nat.and_or_distrib_left,
    Nat.one_shiftLeft, Nat.and_two_pow, show 0xffff = 2 ^ 16 - 1 by rfl,
    Nat.and_two_pow_sub_one_eq_mod, hbit, hlow, Nat.two_pow_add_eq_or_of_lt (by omega),
    Nat.mul_comm]

namespace TransactionSignatureChecker

variable {hashes : Hashes} {verifyPubKey : Bytes → Uint256 → Bytes → Bool}
variable {txTo : CTransaction} {nIn : Nat} {txin : CTxIn}

/-- A granted lock time is of the kind of that of the transaction and not above it, and the input
does not opt out of it. -/
lemma checkLockTime_granted (hin : txTo.vin[nIn]? = some txin) {t : Int}
    (h : (transactionSignatureChecker hashes verifyPubKey txTo nIn).checkLockTime t = true) :
    (t < LOCKTIME_THRESHOLD ↔ (txTo.nLockTime.toNat : Int) < LOCKTIME_THRESHOLD) ∧
      t ≤ txTo.nLockTime.toNat ∧ txin.nSequence ≠ 0xffffffff := by
  simp only [transactionSignatureChecker, checkLockTime, hin, Bool.and_eq_true, Bool.or_eq_true,
    decide_eq_true_eq, bne_iff_ne] at h
  obtain ⟨⟨hkind, hle⟩, hseq⟩ := h
  exact ⟨by omega, hle, hseq⟩

/-- A granted relative lock time is of the kind of that of the input and not above it, and the
transaction is one for which relative lock times count. -/
lemma checkSequence_granted (hin : txTo.vin[nIn]? = some txin) {n : Int} (hn : 0 ≤ n)
    (h : (transactionSignatureChecker hashes verifyPubKey txTo nIn).checkSequence n = true) :
    2 ≤ txTo.nVersion.toUInt32 ∧ txin.nSequence.toNat.testBit 31 = false ∧
      txin.nSequence.toNat.testBit 22 = n.toNat.testBit 22 ∧
      n.toNat % 2 ^ 16 ≤ txin.nSequence.toNat % 2 ^ 16 := by
  simp only [transactionSignatureChecker, checkSequence, hin, maskSequence_eq hn,
    maskSequence_eq (Int.natCast_nonneg _), Int.toNat_natCast, Bool.and_eq_true, Bool.or_eq_true,
    decide_eq_true_eq, Bool.not_eq_true'] at h
  obtain ⟨⟨⟨hversion, henabled⟩, hkind⟩, hle⟩ := h
  refine ⟨hversion, henabled, ?_⟩
  have htx : txin.nSequence.toNat % 2 ^ 16 < 2 ^ 16 := Nat.mod_lt _ (by decide)
  generalize txin.nSequence.toNat.testBit 22 = txType at hkind hle ⊢
  generalize n.toNat.testBit 22 = type at hkind hle ⊢
  cases txType <;> cases type <;> simp at hkind hle ⊢ <;> omega

end TransactionSignatureChecker

end Jumpcoin
