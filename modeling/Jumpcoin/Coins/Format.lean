import Jumpcoin.Coins.Record
import Jumpcoin.Serialize.Compressor

/-!
# The chainstate record format

`CCoins::Serialize` and `CCoins::Unserialize` of `coins.h`. A record is its version, a header code
with the flags and the availability of the first two outputs, a bit mask for the others, the unspent
outputs in compressed form, the height, and below version 2 the time.

On a nonnegative version the reader stays in step with the writer and gives back `restoreCoins`.
That this is the record itself is a condition on the version, the time and the unspent outputs.
-/

namespace Jumpcoin

open Codec List

/-! ## Bit masks -/

def packByte (f : Nat → Bool) : UInt8 :=
  (List.range 8).foldl
    (fun chAvail i => if f i then chAvail ||| (1 <<< UInt8.ofNat i) else chAvail) 0

def byteBits (chAvail : UInt8) : List Bool :=
  (List.range 8).map fun p => decide (chAvail &&& (1 <<< UInt8.ofNat p) ≠ 0)

/-- Read mask bytes until `nMaskCode` of them were not zero. -/
def readMask : Nat → Reader (List Bool)
  | 0, bytes => some ([], bytes)
  | _ + 1, [] => none
  | nMaskCode + 1, chAvail :: bytes =>
    (readMask (if chAvail ≠ 0 then nMaskCode else nMaskCode + 1) bytes).map fun result =>
      (byteBits chAvail ++ result.1, result.2)

lemma packByte_spec (f : Nat → Bool) :
    byteBits (packByte f) = (List.range 8).map f ∧
      (packByte f = 0 ↔ (List.range 8).all fun i => !f i) := by
  have hf : packByte f =
      packByte fun i => [f 0, f 1, f 2, f 3, f 4, f 5, f 6, f 7].getD i false := by
    apply foldl_ext
    intro a i hi
    have := mem_range.mp hi
    interval_cases i <;> rfl
  rw [hf]
  simp only [List.range, List.range.loop, map_cons, map_nil, all_cons, all_nil]
  generalize f 0 = b₀, f 1 = b₁, f 2 = b₂, f 3 = b₃, f 4 = b₄, f 5 = b₅, f 6 = b₆, f 7 = b₇
  revert b₀ b₁ b₂ b₃ b₄ b₅ b₆ b₇
  decide +kernel

/-- A mask whose last byte is not zero is read to its end. -/
lemma readMask_reads (mask : List UInt8) (hlast : ∀ b, mask.getLast? = some b → b ≠ 0) :
    Reads (readMask (mask.countP (· ≠ 0))) mask (mask.flatMap byteBits) := by
  induction mask with
  | nil =>
    intro rest
    cases rest <;> rfl
  | cons chAvail mask ih =>
    have hrest : ∀ b, mask.getLast? = some b → b ≠ 0 := by
      intro b hb
      apply hlast b
      rw [getLast?_cons, hb]
      rfl
    -- a byte that is zero does not count, but then another one follows
    obtain ⟨k, hk, hnext⟩ : ∃ k, (chAvail :: mask).countP (· ≠ 0) = k + 1 ∧
        (if chAvail ≠ 0 then k else k + 1) = mask.countP (· ≠ 0) := by
      by_cases h0 : chAvail = 0
      · have hne : mask ≠ [] := by
          rintro rfl
          exact hlast chAvail rfl h0
        have hpos : 0 < mask.countP (· ≠ 0) := countP_pos_iff.mpr
          ⟨_, getLast_mem hne, by simpa using hrest _ (getLast?_eq_some_getLast hne)⟩
        refine ⟨mask.countP (· ≠ 0) - 1, ?_, ?_⟩
        · rw [countP_cons_of_neg (by simpa using h0)]
          omega
        · rw [if_neg (by simpa using h0)]
          omega
      · exact ⟨mask.countP (· ≠ 0), countP_cons_of_pos (by simpa using h0), if_pos h0⟩
    intro rest
    have hih : readMask _ (mask ++ rest) = some (mask.flatMap byteBits, rest) := ih hrest rest
    rw [hk]
    change (readMask (if chAvail ≠ 0 then k else k + 1) (mask ++ rest)).map _ = _
    rw [hnext, hih]
    rfl

/-! ## The format -/

namespace CCoins

section

variable (coins : CCoins)

def groups : Nat := (coins.vout.length + 5) / 8

def maskZero (b : Nat) : Bool :=
  (List.range 8).all fun i => !coins.isAvailable (2 + b * 8 + i)

/-- The number of bytes of the bit mask up to the last one that is not zero, and how many are not
zero. -/
def calcMaskSize : Nat × Nat :=
  (List.range coins.groups).foldl
    (fun size b => if coins.maskZero b then size else (b + 1, size.2 + 1)) (0, 0)

def maskByte (b : Nat) : UInt8 :=
  packByte fun i => coins.isAvailable (2 + b * 8 + i)

/-- The header code: the mask bytes to come, the flags, and the first two outputs. -/
def headerCode : Nat :=
  let fFirst := coins.isAvailable 0
  let fSecond := coins.isAvailable 1
  (16 * (coins.calcMaskSize.2 - (if fFirst || fSecond then 0 else 1)) + coins.fCoinBase.toNat +
    2 * fFirst.toNat + 4 * fSecond.toNat + 8 * coins.fCoinStake.toNat) % 2 ^ 32

end

def serializeOutputs (lib : PubKeyLib) (vout : List CTxOut) : Bytes :=
  vout.flatMap fun txout => if txout.isNull then [] else serializeTxOut lib txout

/-- `Serialize`; no value where the source asserts that something is unspent. -/
def serialize (lib : PubKeyLib) (coins : CCoins) : Option Bytes :=
  if coins.isAvailable 0 || coins.isAvailable 1 || decide (coins.calcMaskSize.2 ≠ 0) then
    some (writeVarInt 32 coins.nVersion.toInt ++ (writeVarInt 32 coins.headerCode ++
      ((List.range coins.calcMaskSize.1).map coins.maskByte ++
        (serializeOutputs lib coins.vout ++ (writeVarInt 32 coins.nHeight.toInt ++
          CTransaction.serializeTime coins.nVersion coins.nTime)))))
  else none

def bit (n k : Nat) : Bool := n / 2 ^ k % 2 == 1

def unserializeOutput (lib : PubKeyLib) (fAvail : Bool) : Reader CTxOut :=
  if fAvail then unserializeTxOut lib else pure CTxOut.null

def unserializeOutputs (lib : PubKeyLib) : List Bool → Reader (List CTxOut)
  | [] => pure []
  | fAvail :: vAvail => do
    let txout ← unserializeOutput lib fAvail
    let rest ← unserializeOutputs lib vAvail
    pure (txout :: rest)

def unserialize (lib : PubKeyLib) : Reader CCoins := do
  let nVersion ← Int32.ofBitVec <$> readVarInt 32
  let nCode ← BitVec.toNat <$> readVarInt 32
  let mask ← readMask (nCode / 16 + (if bit nCode 1 || bit nCode 2 then 0 else 1))
  let vout ← unserializeOutputs lib (bit nCode 1 :: bit nCode 2 :: mask)
  let nHeight ← Int32.ofBitVec <$> readVarInt 32
  let nTime ← CTransaction.unserializeTime nVersion
  pure (cleanup ⟨bit nCode 0, bit nCode 3, vout, nHeight, nVersion, nTime⟩)

/-! ## The mask of a clean record -/

lemma maskByte_eq_zero (coins : CCoins) (b : Nat) :
    coins.maskByte b = 0 ↔ coins.maskZero b = true :=
  (packByte_spec _).2

variable {coins : CCoins} {lib : PubKeyLib} {txout : CTxOut}

lemma isAvailable_last (hclean : coins.Clean) (hne : coins.vout ≠ []) :
    coins.isAvailable (coins.vout.length - 1) = true := by
  have hlast := getLast?_eq_some_getLast hne
  rw [isAvailable, ← getLast?_eq_getElem?, hlast]
  simp [hclean _ hlast]

/-- The last group of a clean record has an unspent output. -/
lemma maskZero_last (hclean : coins.Clean) {m : Nat} (hm : coins.groups = m + 1) :
    coins.maskZero m = false := by
  unfold groups at hm
  have hne : coins.vout ≠ [] := by
    intro h
    simp [h] at hm
  have hlast := isAvailable_last hclean hne
  rw [maskZero, all_eq_false]
  refine ⟨coins.vout.length - 3 - m * 8, mem_range.mpr (by omega), ?_⟩
  rw [show 2 + m * 8 + (coins.vout.length - 3 - m * 8) = coins.vout.length - 1 by omega, hlast]
  decide

lemma maskSize_snd (coins : CCoins) (m : Nat) :
    ((List.range m).foldl
      (fun size b => if coins.maskZero b then size else (b + 1, size.2 + 1)) (0, 0)).2 =
      ((List.range m).map coins.maskByte).countP (· ≠ 0) := by
  induction m with
  | zero => rfl
  | succ m ih =>
    have hb := maskByte_eq_zero coins m
    rw [range_succ, foldl_append, map_append, countP_append, ← ih]
    cases hz : coins.maskZero m <;> simp [hz, hb]

lemma calcMaskSize_eq (hclean : coins.Clean) :
    coins.calcMaskSize =
      (coins.groups, ((List.range coins.groups).map coins.maskByte).countP (· ≠ 0)) := by
  refine Prod.ext ?_ (maskSize_snd coins _)
  cases hm : coins.groups with
  | zero => simp [calcMaskSize, hm]
  | succ m =>
    have hz := maskZero_last hclean hm
    simp [calcMaskSize, hm, range_succ, hz]

lemma mask_getLast_ne_zero (hclean : coins.Clean) :
    ∀ b, ((List.range coins.groups).map coins.maskByte).getLast? = some b → b ≠ 0 := by
  intro b hb
  cases hm : coins.groups with
  | zero => simp [hm] at hb
  | succ m =>
    have hz := maskZero_last hclean hm
    obtain rfl : coins.maskByte m = b := by simpa [hm, range_succ] using hb
    rw [ne_eq, maskByte_eq_zero, hz]
    decide

lemma flatMap_groups (f : Nat → Bool) (m : Nat) :
    (List.range m).flatMap (fun b => (List.range 8).map fun i => f (2 + b * 8 + i)) =
      (List.range (m * 8)).map fun i => f (2 + i) := by
  induction m with
  | zero => rfl
  | succ m ih =>
    rw [range_succ (n := m), flatMap_append, ih, show (m + 1) * 8 = m * 8 + 8 by omega,
      range_add, map_append, map_map]
    simp [Function.comp_def, add_assoc]

/-- The availability of the outputs, as the reader collects it: up to the end of the last group. -/
lemma avail_eq (coins : CCoins) :
    coins.isAvailable 0 :: coins.isAvailable 1 ::
        ((List.range coins.groups).map coins.maskByte).flatMap byteBits =
      (List.range (2 + coins.groups * 8)).map coins.isAvailable := by
  have hbits : ((List.range coins.groups).map coins.maskByte).flatMap byteBits =
      (List.range (coins.groups * 8)).map fun i => coins.isAvailable (2 + i) := by
    rw [flatMap_map, ← flatMap_groups]
    congr 1
    funext b
    exact (packByte_spec _).1
  rw [hbits, range_add, map_append, map_map]
  rfl

/-! ## Reading a record back -/

def restoreOutput (txout : CTxOut) : CTxOut :=
  if txout.isNull then CTxOut.null else restoreTxOut txout

/-- What is read back of a record: the time is not stored from version 2 on. -/
def restoreCoins (coins : CCoins) : CCoins :=
  cleanup { coins with
    vout := coins.vout.map restoreOutput
    nTime := if coins.nVersion < 2 then coins.nTime else 0 }

lemma unserializeOutput_reads (lib : PubKeyLib)
    (h : txout.scriptPubKey.length + nSpecialScripts < 2 ^ 32) :
    Reads (unserializeOutput lib !txout.isNull)
      (if txout.isNull then [] else serializeTxOut lib txout) (restoreOutput txout) := by
  unfold unserializeOutput restoreOutput
  cases txout.isNull with
  | true => exact Reads.pure _
  | false => exact unserializeTxOut_reads lib h

lemma unserializeOutputs_reads (lib : PubKeyLib) (vout : List CTxOut)
    (h : ∀ txout ∈ vout, txout.scriptPubKey.length + nSpecialScripts < 2 ^ 32) :
    Reads (unserializeOutputs lib (vout.map fun txout => !txout.isNull))
      (serializeOutputs lib vout) (vout.map restoreOutput) := by
  induction vout with
  | nil => exact Reads.pure []
  | cons txout vout ih =>
    have hrest := ih fun o ho => h o (by simp [ho])
    refine (unserializeOutput_reads lib (h txout (by simp))).bind ?_
    exact hrest.bind_nil (f := fun rest => pure (restoreOutput txout :: rest)) (Reads.pure _)

def padded (coins : CCoins) : List CTxOut :=
  coins.vout ++ List.replicate (2 + coins.groups * 8 - coins.vout.length) CTxOut.null

lemma map_isAvailable (coins : CCoins) :
    (List.range (2 + coins.groups * 8)).map coins.isAvailable =
      coins.padded.map fun txout => !txout.isNull := by
  have hlen : coins.vout.length ≤ 2 + coins.groups * 8 := by
    unfold groups
    omega
  apply ext_getElem
  · simp [padded]
    omega
  · intro i h₁ h₂
    by_cases hi : i < coins.vout.length
    · simp [padded, isAvailable, hi]
    · simp only [padded, isAvailable, map_append, getElem_map, getElem_range]
      rw [getElem?_eq_none (not_lt.mp hi), getElem_append_right (by simpa using hi)]
      simp

lemma serializeOutputs_padded (lib : PubKeyLib) (coins : CCoins) :
    serializeOutputs lib coins.padded = serializeOutputs lib coins.vout := by
  simp [serializeOutputs, padded]

lemma rdropWhile_append_replicate (vout : List CTxOut) (k : Nat) :
    (vout ++ List.replicate k CTxOut.null).rdropWhile CTxOut.isNull =
      vout.rdropWhile CTxOut.isNull := by
  induction k with
  | zero => simp
  | succ k ih =>
    rw [replicate_succ', ← append_assoc, rdropWhile_concat, if_pos CTxOut.isNull_null,
      ih]

lemma rdropWhile_restore_padded (coins : CCoins) :
    (coins.padded.map restoreOutput).rdropWhile CTxOut.isNull =
      (coins.vout.map restoreOutput).rdropWhile CTxOut.isNull := by
  have hnull : restoreOutput CTxOut.null = CTxOut.null := rfl
  rw [padded, map_append, map_replicate, hnull, rdropWhile_append_replicate]

/-- A clean record with an unspent output shows it in the header code or in the mask. -/
lemma header_or_mask (hclean : coins.Clean) (hne : coins.vout ≠ []) :
    (coins.isAvailable 0 || coins.isAvailable 1 || decide (coins.calcMaskSize.2 ≠ 0)) = true := by
  have hlast := isAvailable_last hclean hne
  have hpos := length_pos_iff.mpr hne
  by_cases hn : coins.vout.length ≤ 2
  · have hcase : coins.vout.length = 1 ∨ coins.vout.length = 2 := by omega
    rcases hcase with h | h <;> simp [h] at hlast <;> simp [hlast]
  · obtain ⟨m, hm⟩ : ∃ m, coins.groups = m + 1 := ⟨coins.groups - 1, by unfold groups; omega⟩
    have hz := maskZero_last hclean hm
    have hcount : 0 < coins.calcMaskSize.2 := by
      rw [calcMaskSize_eq hclean]
      refine countP_pos_iff.mpr ⟨coins.maskByte m, ?_, ?_⟩
      · exact mem_map_of_mem (mem_range.mpr (by omega))
      · simpa [maskByte_eq_zero] using hz
    simp [hcount.ne']

/-- The reader takes the header code apart again. -/
lemma headerCode_spec
    (h : (coins.isAvailable 0 || coins.isAvailable 1 || decide (coins.calcMaskSize.2 ≠ 0)) = true)
    (hsize : coins.calcMaskSize.2 < 2 ^ 27) :
    bit coins.headerCode 0 = coins.fCoinBase ∧ bit coins.headerCode 3 = coins.fCoinStake ∧
      bit coins.headerCode 1 = coins.isAvailable 0 ∧
      bit coins.headerCode 2 = coins.isAvailable 1 ∧ coins.headerCode < 2 ^ 32 ∧
      coins.headerCode / 16 + (if coins.isAvailable 0 || coins.isAvailable 1 then 0 else 1) =
        coins.calcMaskSize.2 := by
  unfold headerCode bit
  cases hf : coins.isAvailable 0 <;> cases hs : coins.isAvailable 1 <;> cases coins.fCoinBase <;>
    cases coins.fCoinStake <;> simp [hf, hs] at h ⊢ <;> omega

/-- The size of the mask is bounded by the number of outputs. -/
lemma calcMaskSize_le (hclean : coins.Clean) : coins.calcMaskSize.2 ≤ coins.vout.length + 5 := by
  rw [calcMaskSize_eq hclean]
  refine countP_le_length.trans ?_
  simp only [length_map, length_range, groups]
  omega

/-- A record whose fields fit the format: no null output at the end, something unspent, and a
nonnegative height. -/
structure Storable (coins : CCoins) : Prop where
  clean : coins.Clean
  unspent : coins.vout ≠ []
  height : 0 ≤ coins.nHeight.toInt
  outputs : coins.vout.length < 2 ^ 26
  scripts : ∀ txout ∈ coins.vout, txout.scriptPubKey.length + nSpecialScripts < 2 ^ 32
  nulls : ∀ txout ∈ coins.vout, txout.isNull = true → txout = CTxOut.null

lemma serialize_eq_some (lib : PubKeyLib) (h : coins.Storable) :
    coins.serialize lib =
      some (writeVarInt 32 coins.nVersion.toInt ++ (writeVarInt 32 coins.headerCode ++
        ((List.range coins.groups).map coins.maskByte ++
          (serializeOutputs lib coins.vout ++ (writeVarInt 32 coins.nHeight.toInt ++
            CTransaction.serializeTime coins.nVersion coins.nTime))))) := by
  rw [serialize, if_pos (header_or_mask h.clean h.unspent), calcMaskSize_eq h.clean]

lemma unserializeTime_reads_restored (nVersion : Int32) (nTime : UInt32) :
    Reads (CTransaction.unserializeTime nVersion) (CTransaction.serializeTime nVersion nTime)
      (if nVersion < 2 then nTime else 0) := by
  unfold CTransaction.unserializeTime CTransaction.serializeTime
  split_ifs
  · exact readUInt32_reads nTime
  · exact Reads.pure 0

/-- On a nonnegative version the reader stays in step and gives back what the format keeps. -/
lemma unserialize_reads (lib : PubKeyLib) (h : coins.Storable)
    (hversion : 0 ≤ coins.nVersion.toInt) :
    ∃ bytes, coins.serialize lib = some bytes ∧
      Reads (unserialize lib) bytes coins.restoreCoins := by
  have hsize := calcMaskSize_le h.clean
  have hout := h.outputs
  obtain ⟨h0, h3, h1, h2, hcode, hmask⟩ :=
    headerCode_spec (header_or_mask h.clean h.unspent) (by omega)
  refine ⟨_, serialize_eq_some lib h, ?_⟩
  refine (readVarInt_reads_int32 hversion).bind ((readSize_reads hcode).bind ?_)
  rw [h0, h1, h2, h3, hmask, calcMaskSize_eq h.clean]
  refine (readMask_reads _ (mask_getLast_ne_zero h.clean)).bind ?_
  rw [avail_eq, map_isAvailable, ← serializeOutputs_padded]
  refine (unserializeOutputs_reads lib coins.padded ?_).bind ?_
  · intro txout hmem
    rcases mem_append.mp hmem with hmem | hmem
    · exact h.scripts txout hmem
    · obtain rfl := eq_of_mem_replicate hmem
      decide
  refine (readVarInt_reads_int32 h.height).bind ?_
  refine (unserializeTime_reads_restored _ _).bind_nil ?_
  rw [cleanup, rdropWhile_restore_padded]
  exact Reads.pure _

lemma restoreOutput_eq_self (h : coins.Storable) (hmem : txout ∈ coins.vout) :
    restoreOutput txout = txout ↔ (txout.isNull = false → restoreTxOut txout = txout) := by
  unfold restoreOutput
  cases hnull : txout.isNull with
  | true => simp [h.nulls txout hmem hnull]
  | false => simp

lemma restored_outputs_eq_iff (h : coins.Storable) :
    (coins.vout.map restoreOutput).rdropWhile CTxOut.isNull = coins.vout ↔
      ∀ txout ∈ coins.vout, txout.isNull = false → restoreTxOut txout = txout := by
  have hmap : coins.vout.map restoreOutput = coins.vout ↔
      ∀ txout ∈ coins.vout, txout.isNull = false → restoreTxOut txout = txout := by
    conv_lhs => rw [← map_id coins.vout, map_map, map_inj_left]
    exact forall₂_congr fun txout hmem => restoreOutput_eq_self h hmem
  rw [← hmap]
  constructor
  · -- dropping outputs would leave too few
    intro heq
    have hpre := rdropWhile_prefix CTxOut.isNull (coins.vout.map restoreOutput)
    rw [heq] at hpre
    exact (hpre.eq_of_length (by simp)).symm
  · intro heq
    rw [heq]
    exact congrArg CCoins.vout (cleanup_eq_self h.clean)

/-- What the format keeps is the whole record exactly if the time is zero from version 2 on and
every unspent output is read back as it was. -/
lemma restoreCoins_eq_self (h : coins.Storable) :
    coins.restoreCoins = coins ↔
      (¬coins.nVersion < 2 → coins.nTime = 0) ∧
        ∀ txout ∈ coins.vout, txout.isNull = false → restoreTxOut txout = txout := by
  have htime : (if coins.nVersion < 2 then coins.nTime else 0) = coins.nTime ↔
      (¬coins.nVersion < 2 → coins.nTime = 0) := by
    split_ifs with hv
    · exact iff_of_true rfl fun hn => absurd hv hn
    · simp [hv, eq_comm]
  rw [← htime, ← restored_outputs_eq_iff h]
  constructor
  · intro heq
    exact ⟨congrArg CCoins.nTime heq, congrArg CCoins.vout heq⟩
  · rintro ⟨ht, hv⟩
    simp only [restoreCoins, cleanup, ht, hv]

/-- A record that is read has the version its bytes start with. -/
lemma nVersion_of_reads {bs cs : Bytes} {nVersion : BitVec 32}
    (hv : Reads (readVarInt 32) bs nVersion) (h : Reads (unserialize lib) (bs ++ cs) coins) :
    coins.nVersion = Int32.ofBitVec nVersion := by
  have hrun := h []
  rw [append_assoc, unserialize, (hv.map rfl).run_bind] at hrun
  simp only [run_bind_eq_some, run_pure_eq_some] at hrun
  obtain ⟨_, _, -, _, _, -, _, _, -, _, _, -, _, _, -, rfl, -⟩ := hrun
  rfl

/-- A negative version does not come back: it is written as the single byte of its low seven
bits. -/
lemma nVersion_nonneg_of_reads (h : coins.Storable) {bytes : Bytes}
    (hw : coins.serialize lib = some bytes) (hr : Reads (unserialize lib) bytes coins) :
    0 ≤ coins.nVersion.toInt := by
  by_contra hneg
  rw [serialize_eq_some lib h, Option.some.injEq, writeVarInt_of_neg (by decide) (by omega)] at hw
  subst hw
  have hlow : (coins.nVersion.toInt % 128).toNat < 128 := by omega
  have hdigit : (UInt8.ofNat (coins.nVersion.toInt % 128).toNat).toNat =
      (coins.nVersion.toInt % 128).toNat := UInt8.toNat_ofNat_of_lt (hlow.trans (by decide))
  have hv := nVersion_of_reads (readVarInt_reads_digit (by omega)) hr
  rw [hdigit] at hv
  have hint : coins.nVersion.toInt = (coins.nVersion.toInt % 128).toNat :=
    (congrArg Int32.toInt hv).trans (Int32.toInt_ofNat_of_lt (hlow.trans (by decide)))
  omega

end CCoins

end Jumpcoin
