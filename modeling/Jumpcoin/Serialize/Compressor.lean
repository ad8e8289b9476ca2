import Jumpcoin.Primitives.Transaction
import Jumpcoin.Serialize.Amount
import Jumpcoin.Serialize.VarInt

/-!
# Compressed outputs

`CScriptCompressor` and `CTxOutCompressor` of `compressor.h`, the format of outputs in the
chainstate and in undo files. Payments to a key hash, a script hash or a public key are written in
21 or 33 bytes; other scripts are written with their length, and a script over the size limit is
read back as a single `OP_RETURN`.

The reader stays in step with the writer on every output, so what is read back of an output is a
function of it: `restoreTxOut`.
-/

namespace Jumpcoin

open Codec Option

def MAX_SCRIPT_SIZE : Nat := 10000

def OP_DUP : UInt8 := 0x76
def OP_EQUAL : UInt8 := 0x87
def OP_EQUALVERIFY : UInt8 := 0x88
def OP_HASH160 : UInt8 := 0xa9
def OP_CHECKSIG : UInt8 := 0xac

/-- What the script compressor uses of the elliptic-curve library: `CPubKey::IsFullyValid` and
`CPubKey::Decompress`. A valid uncompressed key is recovered from its first coordinate and the
parity of the second, and what is recovered has the length of such a key. -/
structure PubKeyLib where
  isFullyValid : Bytes → Bool
  decompress : Bytes → Option Bytes
  decompress_compress : ∀ key : Bytes, key.length = 65 → key.head? = some 0x04 →
    isFullyValid key = true →
      decompress ((0x02 ||| (key.getD 64 0 &&& 0x01)) :: (key.drop 1).take 32) = some key
  decompress_length : ∀ key key' : Bytes, decompress key = some key' → key'.length = 65

/-! ## Scripts with a special form -/

/-- The `n` bytes between a fixed start and a fixed end of a script of exactly that shape. -/
def between (start : Bytes) (n : Nat) (stop : Bytes) (script : CScript) : Option Bytes :=
  if script.length = start.length + n + stop.length ∧ script.take start.length = start ∧
      script.drop (start.length + n) = stop then
    some ((script.drop start.length).take n)
  else none

variable {script : CScript} {n : Nat}

lemma between_eq_some {start stop mid : Bytes} (h : between start n stop script = some mid) :
    script = start ++ (mid ++ stop) ∧ mid.length = n := by
  unfold between at h
  split_ifs at h with hshape
  obtain ⟨hlen, hstart, hstop⟩ := hshape
  obtain rfl := some.inj h
  refine ⟨?_, by simp; omega⟩
  calc script = script.take start.length ++ script.drop start.length := by simp
    _ = start ++ ((script.drop start.length).take n ++ (script.drop start.length).drop n) := by
      rw [hstart, List.take_append_drop]
    _ = start ++ ((script.drop start.length).take n ++ stop) := by rw [List.drop_drop, hstop]

def isToKeyID : CScript → Option Bytes :=
  between [OP_DUP, OP_HASH160, 20] 20 [OP_EQUALVERIFY, OP_CHECKSIG]

def isToScriptID : CScript → Option Bytes :=
  between [OP_HASH160, 20] 20 [OP_EQUAL]

/-- A payment to a compressed key, or to an uncompressed one that is valid: an invalid one has no
compressed form. -/
def isToPubKey (lib : PubKeyLib) (script : CScript) : Option Bytes :=
  match between [33] 33 [OP_CHECKSIG] script with
  | some pubkey =>
    if pubkey.head? = some 0x02 ∨ pubkey.head? = some 0x03 then some pubkey else none
  | none =>
    match between [65] 65 [OP_CHECKSIG] script with
    | some pubkey =>
      if pubkey.head? = some 0x04 ∧ lib.isFullyValid pubkey = true then some pubkey else none
    | none => none

/-- The bytes of a public key in compressed form, with the original form kept in the first. -/
def compressPubKey (pubkey : Bytes) : Option Bytes :=
  if pubkey.head? = some 0x02 ∨ pubkey.head? = some 0x03 then some (pubkey.take 33)
  else if pubkey.head? = some 0x04 then
    some ((0x04 ||| (pubkey.getD 64 0 &&& 0x01)) :: (pubkey.drop 1).take 32)
  else none

def compressScript (lib : PubKeyLib) (script : CScript) : Option Bytes :=
  match isToKeyID script with
  | some keyID => some (0x00 :: keyID)
  | none =>
    match isToScriptID script with
    | some scriptID => some (0x01 :: scriptID)
    | none => (isToPubKey lib script).bind compressPubKey

def getSpecialSize (nSize : Nat) : Nat :=
  if nSize = 0 ∨ nSize = 1 then 20
  else if nSize = 2 ∨ nSize = 3 ∨ nSize = 4 ∨ nSize = 5 then 32
  else 0

def decompressScript (lib : PubKeyLib) (nSize : Nat) (bytes : Bytes) : Option CScript :=
  match nSize with
  | 0 => some ([OP_DUP, OP_HASH160, 20] ++ (bytes ++ [OP_EQUALVERIFY, OP_CHECKSIG]))
  | 1 => some ([OP_HASH160, 20] ++ (bytes ++ [OP_EQUAL]))
  | 2 => some ([33] ++ ((0x02 :: bytes) ++ [OP_CHECKSIG]))
  | 3 => some ([33] ++ ((0x03 :: bytes) ++ [OP_CHECKSIG]))
  | 4 => (lib.decompress (0x02 :: bytes)).map fun pubkey => [65] ++ (pubkey ++ [OP_CHECKSIG])
  | 5 => (lib.decompress (0x03 :: bytes)).map fun pubkey => [65] ++ (pubkey ++ [OP_CHECKSIG])
  | _ => none

/-- A compressed script: its first byte is the special form, and the form and the other bytes
determine the script. -/
structure CompressedForm (lib : PubKeyLib) (script : CScript) (out : Bytes) : Prop where
  length_le : script.length ≤ 67
  shape : ∃ form tail, out = form :: tail ∧ form.toNat < 6 ∧
    tail.length = getSpecialSize form.toNat ∧ decompressScript lib form.toNat tail = some script

lemma parity_byte (b : UInt8) : b &&& 0x01 = 0 ∨ b &&& 0x01 = 1 := by
  have hmod : (b &&& 0x01).toNat = b.toNat % 2 := by simp [Nat.and_one_is_mod]
  rcases Nat.mod_two_eq_zero_or_one b.toNat with h | h
  · exact .inl (UInt8.toNat_inj.mp (hmod.trans h))
  · exact .inr (UInt8.toNat_inj.mp (hmod.trans h))

variable {lib : PubKeyLib} {out : Bytes}

lemma compressPubKey_form {pubkey : Bytes} (hkey : isToPubKey lib script = some pubkey)
    (hout : compressPubKey pubkey = some out) : CompressedForm lib script out := by
  unfold isToPubKey at hkey
  split at hkey
  next key hbetween =>
    -- a compressed key is its own compressed form
    obtain ⟨rfl, hlen⟩ := between_eq_some hbetween
    split_ifs at hkey with hhead
    obtain rfl := some.inj hkey
    rw [compressPubKey, if_pos hhead, List.take_of_length_le hlen.le] at hout
    obtain rfl := some.inj hout
    cases key with
    | nil => simp at hlen
    | cons b tail =>
      have htail : tail.length = 32 := by simpa using hlen
      refine ⟨by simp [htail], b, tail, rfl, ?_⟩
      rcases hhead with hb | hb
      · obtain rfl : b = 0x02 := by simpa using hb
        exact ⟨by decide, htail, rfl⟩
      · obtain rfl : b = 0x03 := by simpa using hb
        exact ⟨by decide, htail, rfl⟩
  next =>
    split at hkey
    next key hbetween =>
      obtain ⟨rfl, hlen⟩ := between_eq_some hbetween
      split_ifs at hkey with hhead
      obtain rfl := some.inj hkey
      have hne : ¬(key.head? = some 0x02 ∨ key.head? = some 0x03) := by
        rw [hhead.1]
        decide
      rw [compressPubKey, if_neg hne, if_pos hhead.1] at hout
      obtain rfl := some.inj hout
      have hdec := lib.decompress_compress key hlen hhead.1 hhead.2
      have htail : ((key.drop 1).take 32).length = 32 := by simp [hlen]
      refine ⟨by simp [hlen], _, _, rfl, ?_⟩
      rcases parity_byte (key.getD 64 0) with hp | hp
      all_goals
        rw [hp] at hdec ⊢
        exact ⟨by decide, htail, congrArg (Option.map _) hdec⟩
    next => cases hkey

/-- What `Compress` produces is a compressed form of the script. -/
lemma compressScript_form (h : compressScript lib script = some out) :
    CompressedForm lib script out := by
  unfold compressScript at h
  split at h
  next keyID hkeyID =>
    obtain ⟨rfl, hlen⟩ := between_eq_some hkeyID
    obtain rfl := some.inj h
    exact ⟨by simp [hlen], 0x00, keyID, rfl, by decide, hlen, rfl⟩
  next =>
    split at h
    next scriptID hscriptID =>
      obtain ⟨rfl, hlen⟩ := between_eq_some hscriptID
      obtain rfl := some.inj h
      exact ⟨by simp [hlen], 0x01, scriptID, rfl, by decide, hlen, rfl⟩
    next =>
      obtain ⟨pubkey, hkey, hout⟩ := bind_eq_some_iff.mp h
      exact compressPubKey_form hkey hout

/-! ## The script format -/

def nSpecialScripts : Nat := 6

def serializeScript (lib : PubKeyLib) (script : CScript) : Bytes :=
  match compressScript lib script with
  | some compr => compr
  | none => writeVarInt 32 ((script.length + nSpecialScripts) % 2 ^ 32 : Nat) ++ script

def unserializeScript (lib : PubKeyLib) : Reader CScript := do
  let nSize ← BitVec.toNat <$> readVarInt 32
  if nSize < nSpecialScripts then do
    let vch ← readBytes (getSpecialSize nSize)
    pure ((decompressScript lib nSize vch).getD [])
  else if MAX_SCRIPT_SIZE < nSize - nSpecialScripts then do
    let _ ← readBytes (nSize - nSpecialScripts)
    pure [CTxOut.OP_RETURN]
  else readBytes (nSize - nSpecialScripts)

/-- What is read back of a script: an overly long one is replaced with a short invalid one. -/
def restoreScript (script : CScript) : CScript :=
  if MAX_SCRIPT_SIZE < script.length then [CTxOut.OP_RETURN] else script

lemma restoreScript_eq_self : restoreScript script = script ↔ script.length ≤ MAX_SCRIPT_SIZE := by
  unfold restoreScript
  split_ifs with h
  · refine iff_of_false ?_ (by omega)
    rintro rfl
    simp [MAX_SCRIPT_SIZE] at h
  · exact iff_of_true rfl (by omega)

lemma readSize_reads (hn : n < 2 ^ 32) :
    Reads (BitVec.toNat <$> readVarInt 32) (writeVarInt 32 n) n :=
  (readVarInt_reads (by decide) hn).map (by simpa using hn)

lemma unserializeScript_reads (lib : PubKeyLib) (hlen : script.length + nSpecialScripts < 2 ^ 32) :
    Reads (unserializeScript lib) (serializeScript lib script) (restoreScript script) := by
  unfold serializeScript
  cases hc : compressScript lib script with
  | some compr =>
    obtain ⟨hle, form, tail, rfl, hform, htail, hdec⟩ := compressScript_form hc
    have hsize : Reads (BitVec.toNat <$> readVarInt 32) [form] form.toNat :=
      (readVarInt_reads_digit (by omega)).map (by simp)
    refine hsize.bind ?_
    rw [if_pos (show form.toNat < nSpecialScripts from hform)]
    refine (readBytes_reads htail).bind_nil ?_
    have hlong : ¬MAX_SCRIPT_SIZE < script.length := by
      unfold MAX_SCRIPT_SIZE
      omega
    rw [hdec, restoreScript, if_neg hlong]
    exact Reads.pure _
  | none =>
    simp only [Nat.mod_eq_of_lt hlen]
    refine (readSize_reads hlen).bind ?_
    rw [if_neg (by omega), Nat.add_sub_cancel, restoreScript]
    split_ifs with hlong
    · exact (readBytes_reads rfl).bind_nil (Reads.pure _)
    · exact readBytes_reads rfl

/-- No script that is read exceeds the size limit. -/
lemma length_le_of_unserializeScript {bytes rem : Bytes}
    (h : (unserializeScript lib).run bytes = some (script, rem)) :
    script.length ≤ MAX_SCRIPT_SIZE := by
  obtain ⟨nSize, rest, -, h⟩ := run_bind_eq_some.mp h
  have hbytes : ∀ {n : Nat} {bs vch rem' : Bytes}, (readBytes n).run bs = some (vch, rem') →
      vch.length = n := by
    intro n bs vch rem' hrun
    simp only [readBytes, StateT.run] at hrun
    split_ifs at hrun with hle
    obtain ⟨rfl, -⟩ : bs.take n = vch ∧ _ := by simpa using hrun
    simpa using hle
  split_ifs at h with hspecial hlong
  · simp only [run_bind_eq_some, run_pure_eq_some] at h
    obtain ⟨vch, rest', hvch, rfl, -⟩ := h
    have hlen := hbytes hvch
    have h65 := lib.decompress_length
    unfold nSpecialScripts at hspecial
    unfold MAX_SCRIPT_SIZE
    interval_cases nSize <;> simp only [decompressScript, getSpecialSize] at hlen ⊢ <;>
      first
        | (simp at hlen ⊢; omega)
        | (cases hd : lib.decompress _ with
           | none => simp
           | some key => simp [h65 _ _ hd])
  · simp only [run_bind_eq_some, run_pure_eq_some] at h
    obtain ⟨_, _, -, rfl, -⟩ := h
    decide
  · have hlen := hbytes h
    omega

/-! ## The output format -/

def serializeTxOut (lib : PubKeyLib) (txout : CTxOut) : Bytes :=
  writeVarInt 64 (compressAmount txout.nValue.toUInt64).toNat ++
    serializeScript lib txout.scriptPubKey

def unserializeTxOut (lib : PubKeyLib) : Reader CTxOut := do
  let nVal ← UInt64.ofBitVec <$> readVarInt 64
  let scriptPubKey ← unserializeScript lib
  pure ⟨(decompressAmount nVal).toInt64, scriptPubKey⟩

def restoreTxOut (txout : CTxOut) : CTxOut :=
  ⟨(decompressAmount (compressAmount txout.nValue.toUInt64)).toInt64,
    restoreScript txout.scriptPubKey⟩

variable {txout : CTxOut}

lemma unserializeTxOut_reads (lib : PubKeyLib)
    (hlen : txout.scriptPubKey.length + nSpecialScripts < 2 ^ 32) :
    Reads (unserializeTxOut lib) (serializeTxOut lib txout) (restoreTxOut txout) := by
  have hval := (readVarInt_reads (w := 64) (by decide)
    (compressAmount txout.nValue.toUInt64).toNat_lt).map (f := UInt64.ofBitVec)
    (b := compressAmount txout.nValue.toUInt64) (by apply UInt64.toNat_inj.mp; simp)
  exact hval.bind ((unserializeScript_reads lib hlen).bind_nil (Reads.pure _))

/-- An output is read back as it was exactly if its amount survives compression and its script is
within the size limit. -/
def Restorable (txout : CTxOut) : Prop :=
  (txout.nValue.toInt % 10 = 0 ∨ txout.nValue.toInt ≤ maxCompressible) ∧
    txout.scriptPubKey.length ≤ MAX_SCRIPT_SIZE

instance (txout : CTxOut) : Decidable (Restorable txout) :=
  inferInstanceAs (Decidable (_ ∧ _))

/-- A nonnegative amount is read back exactly if it ends in a zero or its compressed form fits. -/
lemma restoreAmount_eq_self {n : CAmount} (h : 0 ≤ n.toInt) :
    (decompressAmount (compressAmount n.toUInt64)).toInt64 = n ↔
      n.toInt % 10 = 0 ∨ n.toInt ≤ maxCompressible := by
  have hnonneg : 0 ≤ n := by rwa [Int64.le_iff_toInt_le]
  have hnat : (n.toUInt64.toNat : Int) = n.toInt := by
    rw [Int64.toNat_toUInt64_of_le hnonneg, Int64.toInt_eq_toNatClampNeg hnonneg]
  have hlt : n.toUInt64.toNat < 2 ^ 63 := by
    have := n.toInt_lt
    omega
  have hval : (decompressAmount (compressAmount n.toUInt64)).toInt64 = n ↔
      decompressAmount (compressAmount n.toUInt64) = n.toUInt64 :=
    ⟨fun h => by rw [← UInt64.toUInt64_toInt64 (decompressAmount _), h], fun h => by simp [h]⟩
  rw [hval, decompressAmount_compressAmount_iff hlt]
  omega

lemma restoreTxOut_eq_self (h : 0 ≤ txout.nValue.toInt) :
    restoreTxOut txout = txout ↔ Restorable txout := by
  cases txout
  simp only [restoreTxOut, CTxOut.mk.injEq, Restorable, restoreAmount_eq_self h,
    restoreScript_eq_self]

/-- A valid amount survives compression exactly if it ends in a zero or is at most
`maxCompressible`, and such amounts have different compressed forms. -/
theorem moneyRange_compressAmount {n : CAmount} (h : moneyRange n = true) :
    ((decompressAmount (compressAmount n.toUInt64)).toInt64 = n ↔
      n.toInt % 10 = 0 ∨ n.toInt ≤ maxCompressible) ∧
    ∀ n' : CAmount, moneyRange n' = true → (n.toInt % 10 = 0 ∨ n.toInt ≤ maxCompressible) →
      (n'.toInt % 10 = 0 ∨ n'.toInt ≤ maxCompressible) →
      compressAmount n.toUInt64 = compressAmount n'.toUInt64 → n = n' := by
  have hiff := restoreAmount_eq_self ((moneyRange_iff n).mp h)
  refine ⟨hiff, fun n' h' hfits hfits' heq => ?_⟩
  rw [← hiff.mpr hfits, heq, (restoreAmount_eq_self ((moneyRange_iff n').mp h')).mpr hfits']

theorem moneyRange_compressAmount_coin : moneyRange COIN = true ∧
    (decompressAmount (compressAmount COIN.toUInt64)).toInt64 = COIN :=
  ⟨by decide, (moneyRange_compressAmount (by decide)).1.mpr (by decide)⟩

/-- The form of the first amount that does not fit wraps to that of `10000`. -/
theorem compressAmount_collides :
    moneyRange 2049638230412172403 = true ∧ moneyRange 10000 = true ∧
    compressAmount (2049638230412172403 : CAmount).toUInt64 =
      compressAmount (10000 : CAmount).toUInt64 ∧
    (decompressAmount (compressAmount (2049638230412172403 : CAmount).toUInt64)).toInt64 =
      10000 := by
  decide

end Jumpcoin
