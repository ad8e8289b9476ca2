import Jumpcoin.Coins.Format
import Jumpcoin.Consensus.TxVerify

/-!
# Which records survive the chainstate

A record enters the chainstate when its transaction is connected (`FromTx`) and is rewritten each
time one of its outputs is spent (`Spend`). Whatever was spent, a record of a checked transaction
is storable, so it survives being written and read exactly under the condition of
`restoreCoins_eq_self`, and only if its version is not negative.
-/

namespace Jumpcoin

open Codec Check CValidationState

namespace CCoins

def spendAll (coins : CCoins) : List Nat → Option CCoins
  | [] => some coins
  | nPos :: spent => (coins.spend nPos).bind fun coins' => spendAll coins' spent

/-- A record of a transaction, after any of its outputs were spent. -/
structure RecordOf (tx : CTransaction) (nHeight : Int32) (coins : CCoins) : Prop where
  clean : coins.Clean
  nHeight_eq : coins.nHeight = nHeight
  nVersion_eq : coins.nVersion = tx.nVersion
  nTime_eq : coins.nTime = tx.nTime
  length_le : coins.vout.length ≤ tx.vout.length
  outputs : ∀ txout ∈ coins.vout, txout = CTxOut.null ∨ txout ∈ tx.vout

variable {tx : CTransaction} {nHeight : Int32} {coins coins' : CCoins}

/-- Cleaning up keeps outputs that were there. -/
lemma mem_of_mem_cleanup {txout : CTxOut} (h : txout ∈ coins.cleanup.vout) : txout ∈ coins.vout :=
  (List.rdropWhile_prefix _ _).subset h

lemma cleanup_length_le (coins : CCoins) : coins.cleanup.vout.length ≤ coins.vout.length :=
  (List.rdropWhile_prefix _ _).length_le

lemma recordOf_fromTx (tx : CTransaction) (nHeight : Int32) :
    RecordOf tx nHeight (fromTx tx nHeight) where
  clean := fromTx_clean tx nHeight
  nHeight_eq := rfl
  nVersion_eq := rfl
  nTime_eq := rfl
  length_le := (cleanup_length_le _).trans (by simp)
  outputs := by
    intro txout hmem
    obtain ⟨txout', hmem', rfl⟩ := List.mem_map.mp (mem_of_mem_cleanup hmem)
    split_ifs
    · exact .inl rfl
    · exact .inr hmem'

section

variable (h : RecordOf tx nHeight coins)
include h

lemma RecordOf.spend {nPos : Nat}
    (hs : coins.spend nPos = some coins') : RecordOf tx nHeight coins' := by
  have hclean := spend_clean hs
  unfold CCoins.spend at hs
  split_ifs at hs
  obtain rfl := Option.some.inj hs
  refine ⟨hclean, h.nHeight_eq, h.nVersion_eq, h.nTime_eq, ?_, ?_⟩
  · refine (cleanup_length_le _).trans ?_
    simpa using h.length_le
  · intro txout hmem
    rcases List.mem_or_eq_of_mem_set (mem_of_mem_cleanup hmem) with hmem | rfl
    · exact h.outputs txout hmem
    · exact .inl rfl

lemma RecordOf.spendAll {spent : List Nat}
    (hs : coins.spendAll spent = some coins') : RecordOf tx nHeight coins' := by
  induction spent generalizing coins with
  | nil =>
    obtain rfl := Option.some.inj hs
    exact h
  | cons nPos spent ih =>
    obtain ⟨mid, hmid, hrest⟩ := Option.bind_eq_some_iff.mp hs
    exact ih (h.spend hmid) hrest

/-- Unspent outputs of a checked transaction have nonnegative values. -/
lemma RecordOf.value_nonneg (hc : CheckedTransaction tx) {txout : CTxOut}
    (hmem : txout ∈ coins.vout) (hnull : txout.isNull = false) : 0 ≤ txout.nValue.toInt := by
  rcases h.outputs txout hmem with rfl | hmem
  · simp at hnull
  · exact hc.value_nonneg txout hmem

lemma RecordOf.storable (hc : CheckedTransaction tx)
    (hheight : 0 ≤ nHeight.toInt) (hleft : coins.isPruned = false) : coins.Storable where
  clean := h.clean
  unspent := by
    intro hnil
    simp [isPruned, hnil] at hleft
  height := h.nHeight_eq ▸ hheight
  outputs := by
    have hsize := hc.size_le
    have hlen := h.length_le
    have hvout := tx.vout_length_le
    unfold MAX_BLOCK_SIZE at hsize
    omega
  scripts := by
    intro txout hmem
    unfold nSpecialScripts
    rcases h.outputs txout hmem with rfl | hmem
    · decide
    · have hsize := hc.size_le
      have hscript := CTransaction.script_length_le hmem
      unfold MAX_BLOCK_SIZE at hsize
      omega
  nulls := by
    intro txout hmem hnull
    rcases h.outputs txout hmem with rfl | hmem
    · rfl
    · have hvalue := hc.value_nonneg txout hmem
      obtain hneg : txout.nValue = -1 := by simpa [CTxOut.isNull] using hnull
      rw [hneg] at hvalue
      exact absurd hvalue (by decide)

end

/-- A record of a checked transaction, at height one or above and with something unspent, survives
being written and read back exactly if its version is not negative, its time is zero from version 2
on, and the amount and script of each unspent output survive compression. -/
theorem unserialize_serialize_iff (lib : PubKeyLib) {words : Signed.Words}
    {state state' : CValidationState}
    (hcheck : checkTransaction words tx state = (.returned (), state'))
    (hheight : 1 ≤ nHeight.toInt) {spent : List Nat}
    (hspent : (fromTx tx nHeight).spendAll spent = some coins) (hleft : coins.isPruned = false) :
    (∃ bytes, coins.serialize lib = some bytes ∧
        ∃ coins', Reads (unserialize lib) bytes coins' ∧ coins'.equals coins = true) ↔
      0 ≤ tx.nVersion.toInt ∧ (¬tx.nVersion < 2 → tx.nTime = 0) ∧
        ∀ txout ∈ coins.vout, txout.isNull = false → Restorable txout := by
  obtain ⟨hc, -⟩ := checkTransaction_returned hcheck
  have hrec := (recordOf_fromTx tx nHeight).spendAll hspent
  have hstore := hrec.storable hc (by omega) hleft
  have heq : ∀ coins', coins'.equals coins = true ↔ coins' = coins := by
    intro coins'
    simp [equals, hleft]
  have hrestore : coins.restoreCoins = coins ↔ (¬tx.nVersion < 2 → tx.nTime = 0) ∧
      ∀ txout ∈ coins.vout, txout.isNull = false → Restorable txout := by
    rw [restoreCoins_eq_self hstore, hrec.nVersion_eq, hrec.nTime_eq]
    refine and_congr_right fun _ => forall₃_congr fun txout hmem hnull => ?_
    exact restoreTxOut_eq_self (hrec.value_nonneg hc hmem hnull)
  rw [← hrestore, ← hrec.nVersion_eq]
  constructor
  · rintro ⟨bytes, hw, coins', hr, he⟩
    obtain rfl := (heq coins').mp he
    have hversion := nVersion_nonneg_of_reads hstore hw hr
    obtain ⟨bytes', hw', hr'⟩ := unserialize_reads lib hstore hversion
    obtain rfl : bytes = bytes' := Option.some.inj (hw.symm.trans hw')
    exact ⟨hversion, hr'.det hr⟩
  · rintro ⟨hversion, hself⟩
    obtain ⟨bytes, hw, hr⟩ := unserialize_reads lib hstore hversion
    rw [hself] at hr
    exact ⟨bytes, hw, coins, hr, (heq coins).mpr rfl⟩

def noKeys : PubKeyLib where
  isFullyValid _ := false
  decompress _ := none
  decompress_compress := by simp
  decompress_length := by simp

def sampleCoinbase : CTransaction where
  nVersion := 1
  nTime := 1700000000
  vin := [⟨⟨0, 0xffffffff⟩, [0x51, 0x51], 0xffffffff⟩]
  vout := [⟨542000000000, [0x51]⟩, ⟨123456789, [0x52]⟩]
  nLockTime := 0

def sampleRecord : CCoins :=
  ⟨true, false, [CTxOut.null, ⟨123456789, [0x52]⟩], 7, 1, 1700000000⟩

theorem sampleRecord_survives :
    checkTransaction .wrapping sampleCoinbase .init = (.returned (), .init) ∧
    1 ≤ (7 : Int32).toInt ∧
      (fromTx sampleCoinbase 7).spendAll [0] = some sampleRecord ∧
      sampleRecord.isPruned = false ∧
      ∃ bytes, sampleRecord.serialize noKeys = some bytes ∧
        ∃ coins', Reads (unserialize noKeys) bytes coins' ∧ coins'.equals sampleRecord = true :=
  ⟨by decide +kernel, by decide, by decide, by decide,
    (@unserialize_serialize_iff sampleCoinbase 7 sampleRecord noKeys .wrapping .init .init
      (by decide +kernel) (by decide) [0] (by decide) (by decide)).mpr (by decide)⟩

/-- A transaction with a negative version that passes `CheckTransaction`. -/
def negativeVersion : CTransaction :=
  { sampleCoinbase with nVersion := -1 }

/-- Its record is not read back: the version comes back as 127, and the time stays unread. -/
theorem negativeVersion_lost :
    checkTransaction .wrapping negativeVersion .init = (.returned (), .init) ∧
    1 ≤ (1 : Int32).toInt ∧
      (fromTx negativeVersion 1).spendAll [] = some (fromTx negativeVersion 1) ∧
      (fromTx negativeVersion 1).isPruned = false ∧
      ¬∃ bytes, (fromTx negativeVersion 1).serialize noKeys = some bytes ∧
        ∃ coins', Reads (unserialize noKeys) bytes coins' ∧
          coins'.equals (fromTx negativeVersion 1) = true := by
  have hcheck : checkTransaction .wrapping negativeVersion .init = (.returned (), .init) := by
    decide +kernel
  have hleft : (fromTx negativeVersion 1).isPruned = false := by decide
  refine ⟨hcheck, by decide, rfl, hleft, ?_⟩
  rintro ⟨bytes, hw, coins', hr, heq⟩
  obtain rfl : coins' = fromTx negativeVersion 1 := by simpa [equals, hleft] using heq
  obtain ⟨hc, -⟩ := checkTransaction_returned hcheck
  have hstore := (recordOf_fromTx negativeVersion 1).storable hc (by decide) hleft
  exact absurd (nVersion_nonneg_of_reads hstore hw hr) (by decide)

end CCoins

end Jumpcoin
